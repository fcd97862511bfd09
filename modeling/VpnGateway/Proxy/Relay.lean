import VpnGateway.Core.Timeout
import VpnGateway.Pool.Proxy

/-! The relay between the client and the upstream proxy once a connection is established, as a
timed trace of what moves in either direction. -/
namespace VpnGateway

namespace Relay

/-- From the client to the upstream proxy, or back. -/
inductive Direction where
  | up | down
  deriving DecidableEq

inductive Event where
  | moved (dir : Direction) (n : ℕ)
  | closed (dir : Direction)
  | failed
  deriving DecidableEq

/-- What `copy_bidirectional` keeps for each direction: the bytes moved and whether it is done. -/
structure Transfer where
  upBytes : ℕ
  downBytes : ℕ
  upDone : Bool
  downDone : Bool
  deriving DecidableEq

namespace Transfer

def start : Transfer := ⟨0, 0, false, false⟩

def close (c : Transfer) : Direction → Transfer
  | .up => { c with upDone := true }
  | .down => { c with downDone := true }

def move (c : Transfer) (n : ℕ) : Direction → Transfer
  | .up => { c with upBytes := c.upBytes + n }
  | .down => { c with downBytes := c.downBytes + n }

/-- The copy ends with the bytes of both directions when both are done, or with an error. -/
def poll (c : Transfer) : Event → Transfer ⊕ Option (ℕ × ℕ)
  | .moved dir n => .inl (c.move n dir)
  | .closed dir =>
    let c := c.close dir
    if c.upDone && c.downDone then .inr (some (c.upBytes, c.downBytes)) else .inl c
  | .failed => .inr none

end Transfer

def idleTimeoutSecs : ℕ := 300

/-- The relay of `handle_connection`: one timeout around the whole copy. -/
def relay (start : Instant) (trace : List (Instant × Event)) :
    Timeout.Status Transfer (Option (ℕ × ℕ)) :=
  Timeout.run Transfer.poll (start + fromSecs idleTimeoutSecs) .start trace

/-- What its comment and its log message speak of. -/
def idleRelay (start : Instant) (trace : List (Instant × Event)) :
    Timeout.Status Transfer (Option (ℕ × ℕ)) :=
  Timeout.runIdle Transfer.poll (fromSecs idleTimeoutSecs) start .start trace

/-- Bytes keep moving, with less than 300 seconds from one movement to the next, and neither side
closes or fails. -/
structure Active (start : Instant) (trace : List (Instant × Event)) : Prop where
  gaps : (start :: trace.map Prod.fst).IsChain fun a b =>
    a ≤ b ∧ b < a + fromSecs idleTimeoutSecs
  moves : ∀ e ∈ trace, ∃ dir n, e.2 = .moved dir n

variable {start : Instant} {trace : List (Instant × Event)}

/-- Movements never complete the copy. -/
theorem feed_moves (h : ∀ e ∈ trace, ∃ dir n, e.2 = .moved dir n) (c : Transfer) :
    ∃ c', Timeout.feed Transfer.poll c (trace.map Prod.snd) = some c' := by
  induction trace generalizing c with
  | nil => exact ⟨c, rfl⟩
  | cons e trace ih =>
    obtain ⟨⟨dir, n, he⟩, hrest⟩ := List.forall_mem_cons.mp h
    obtain ⟨c', hc'⟩ := ih hrest (c.move n dir)
    exact ⟨c', by rw [List.map_cons, he]; exact hc'⟩

/-- With a limit on the idle time an active relay goes on. -/
theorem Active.idleRelay_pending (h : Active start trace) :
    ∃ c, idleRelay start trace = .pending c := by
  obtain ⟨c, hc⟩ := feed_moves h.moves .start
  exact ⟨c, Timeout.runIdle_eq_pending_iff.mpr ⟨hc, h.gaps.imp fun _ _ hab => hab.2.le⟩⟩

/-- The timeout spares an active relay exactly when all its movements come within 300 seconds of
its start: the limit is one on the whole relay. -/
theorem Active.relay_spared_iff (h : Active start trace) :
    relay start trace ≠ .elapsed ↔ ∀ e ∈ trace, e.1 < start + fromSecs idleTimeoutSecs := by
  obtain ⟨c, hc⟩ := feed_moves h.moves .start
  rw [ne_eq, relay, Timeout.run_eq_elapsed_iff hc]
  push Not
  exact Iff.rfl

/-- A download that moves bytes every seventy seconds. -/
def download : List (Instant × Event) :=
  [70, 140, 210, 280, 350].map fun t => (fromSecs t, .moved .down 1000)

theorem moves_download : ∀ e ∈ download, ∃ dir n, e.2 = .moved dir n := by
  intro e he
  obtain ⟨t, -, rfl⟩ := List.mem_map.mp he
  exact ⟨.down, 1000, rfl⟩

theorem relay_spared_first_minutes :
    Active 0 (download.take 4) ∧ relay 0 (download.take 4) ≠ .elapsed := by
  have h : Active 0 (download.take 4) :=
    ⟨by decide, fun e he => moves_download e (List.mem_of_mem_take he)⟩
  exact ⟨h, h.relay_spared_iff.mpr (by decide)⟩

/-- After five minutes it is cut off while it is active. -/
theorem relay_cuts_active_download : Active 0 download ∧ relay 0 download = .elapsed :=
  ⟨⟨by decide, moves_download⟩, by decide⟩

end Relay

end VpnGateway
