import VpnGateway.Pool.CheckFuture
import VpnGateway.Pool.State

/-! A proxy that sends header lines without end, and those that wait for its check: a batch of
`fast_probe`, the start of the gateway and the ticks of the health loop. -/
namespace VpnGateway

open Wire Futures

/-- The proxy gets as far as the headers of the tunnel, if it is an HTTP proxy. -/
def Grants (behaviour : ℕ → Met) : Prop :=
  (behaviour 0).ok ∧ (behaviour 1).ok ∧ (behaviour 2).accepts ∧ (behaviour 3).ok ∧
    (behaviour 4).accepts

/-- The proxy sends header lines without end. -/
def EndlessHeaders (protocol : Protocol) (behaviour : ℕ → Met) : Prop :=
  protocol ≠ .socks5 ∧ Grants behaviour ∧ ∀ i, (behaviour (5 + i)).isHeader

/-- What a call of `fast_probe` meets: each proxy's behaviour, and in which order the operations
of all the checks come to an end. -/
structure Probing (proxies : List Proxy) where
  behaviour : Fin proxies.length → ℕ → Met
  latencyMs : Fin proxies.length → ℕ
  sched : ℕ → Fin proxies.length
  fair : Fair sched

namespace Probing

variable {proxies : List Proxy}

/-- Every `tasks.next()` returns. -/
def Completes (x : Probing proxies) : Prop :=
  ∃ n, ∀ i, (drive (fun i => checkPoll proxies[i].protocol (x.latencyMs i))
    (fun _ => .inl .tcpConnect) x.behaviour x.sched n i).isRight

end Probing

/-- A batch of at most so many proxies that need a check; an empty one is not probed. -/
structure Batch (limit : ℕ) where
  pool : SharedState
  it : pool.proxies.Iteration
  now : Clock
  probing : pool.proxiesNeedingCheck it now limit ≠ [] →
    Probing (pool.proxiesNeedingCheck it now limit)

namespace Batch

variable {limit : ℕ}

def proxies (b : Batch limit) : List Proxy := b.pool.proxiesNeedingCheck b.it b.now limit

def Completes (b : Batch limit) : Prop := ∀ h, (b.probing h).Completes

/-- Some proxy of the batch sends header lines without end. -/
def Endless (b : Batch limit) : Prop :=
  ∃ h, ∃ i : Fin b.proxies.length, EndlessHeaders b.proxies[i].protocol ((b.probing h).behaviour i)

end Batch

/-- The checks of a gateway: the probe that `main` awaits before it starts the health loop, and
the batches of the loop, each behind a tick of the fast or of the normal interval. -/
structure HealthRun where
  startup : Batch 60
  ticks : ℕ → Batch 100 ⊕ Batch 50

namespace HealthRun

variable (r : HealthRun)

def TickCompletes (k : ℕ) : Prop := Sum.elim Batch.Completes Batch.Completes (r.ticks k)

def TickEndless (k : ℕ) : Prop := Sum.elim Batch.Endless Batch.Endless (r.ticks k)

/-- The health loop comes to its tick `k`. -/
def Reaches : ℕ → Prop
  | 0 => r.startup.Completes
  | k + 1 => Reaches k ∧ r.TickCompletes k

end HealthRun

variable {protocol : Protocol} {latencyMs : ℕ} {behaviour : ℕ → Met}

/-- A proxy that grants a tunnel has the check read header lines. -/
theorem checkAfter_five (hprotocol : protocol ≠ .socks5) (h : Grants behaviour) :
    checkAfter protocol latencyMs behaviour 5 = .inl .drain := by
  obtain ⟨h0, h1, h2, h3, h4⟩ := h
  cases protocol with
  | socks5 => exact absurd rfl hprotocol
  | http => simp [checkAfter, after, advance, checkPoll, h0, h1, h2, h3, h4]
  | https => simp [checkAfter, after, advance, checkPoll, h0, h1, h2, h3, h4]

/-- Every other one is done with after five operations. -/
theorem isRight_checkAfter_five (hprotocol : protocol ≠ .socks5) (h : ¬ Grants behaviour) :
    (checkAfter protocol latencyMs behaviour 5).isRight := by
  have hmono : ∀ n ≤ 5, (checkAfter protocol latencyMs behaviour n).isRight →
      (checkAfter protocol latencyMs behaviour 5).isRight := fun n hn => isRight_after_mono hn
  by_cases h0 : (behaviour 0).ok
  · by_cases h1 : (behaviour 1).ok
    · by_cases h2 : (behaviour 2).accepts
      · by_cases h3 : (behaviour 3).ok
        · have h4 : ¬ (behaviour 4).accepts := fun h4 => h ⟨h0, h1, h2, h3, h4⟩
          cases protocol with
          | socks5 => exact absurd rfl hprotocol
          | http => simp [checkAfter, after, advance, checkPoll, h0, h1, h2, h3, h4]
          | https => simp [checkAfter, after, advance, checkPoll, h0, h1, h2, h3, h4]
        · exact hmono 4 (by omega) (by simp [checkAfter, after, advance, checkPoll, h0, h1, h2, h3])
      · exact hmono 3 (by omega) (by simp [checkAfter, after, advance, checkPoll, h0, h1, h2])
    · exact hmono 2 (by omega) (by simp [checkAfter, after, advance, checkPoll, h0, h1])
  · exact hmono 1 (by omega) (by simp [checkAfter, after, advance, checkPoll, h0])

/-- The operations behind this one, on the way through a SOCKS5 tunnel. -/
def Awaited.rank : Awaited → ℕ
  | .tcpConnect => 8
  | .httpConnect => 7
  | .httpStatus => 6
  | .tlsConnect => 5
  | .socksMethod => 4
  | .socksReply => 3
  | .socksLen => 2
  | .socksSkip _ => 1
  | _ => 0

theorem checkPoll_socks5 {s s' : Awaited} {m : Met} (hs : s ≠ .tunnelStatus ∧ s ≠ .drain)
    (h : checkPoll .socks5 latencyMs s m = .inl s') :
    (s' ≠ .tunnelStatus ∧ s' ≠ .drain) ∧ s'.rank < s.rank := by
  cases s with
  | tunnelStatus => exact absurd rfl hs.1
  | drain => exact absurd rfl hs.2
  | tlsHandshake => cases h
  | tcpConnect | httpConnect | httpStatus | tlsConnect =>
    simp only [checkPoll] at h
    split_ifs at h
    obtain rfl := Sum.inl.inj h
    exact ⟨⟨by simp, by simp⟩, Nat.lt_succ_self _⟩
  | socksLen | socksSkip n =>
    obtain rfl := Sum.inl.inj h
    exact ⟨⟨by simp, by simp⟩, Nat.lt_succ_self _⟩
  | socksMethod | socksReply =>
    simp only [checkPoll] at h
    split at h
    · split_ifs at h
      all_goals
        obtain rfl := Sum.inl.inj h
        simp [Awaited.rank]
    · cases h

theorem isRight_checkAfter_socks5 : (checkAfter .socks5 latencyMs behaviour 9).isRight :=
  isRight_after_of_rank (fun _ _ _ hs h => checkPoll_socks5 hs h)
    (s := .tcpConnect) ⟨by simp, by simp⟩ (by decide)

/-- Header lines keep the check reading. -/
theorem checkAfter_headers (hprotocol : protocol ≠ .socks5) (h : Grants behaviour) {n : ℕ}
    (hn : ∀ i < n, (behaviour (5 + i)).isHeader) :
    checkAfter protocol latencyMs behaviour (5 + n) = .inl .drain := by
  have hfive : checkAfter protocol latencyMs behaviour 5 = .inl .drain :=
    checkAfter_five hprotocol h
  unfold checkAfter at hfive ⊢
  rw [after_add, hfive]
  exact after_eq_self fun i hi => by simp [checkPoll, hn i hi]

/-- The first line that is no header ends the drain, and the next operation ends the check. -/
theorem isRight_checkAfter_http {lines : ℕ} (hprotocol : protocol ≠ .socks5)
    (h : Grants behaviour → ∃ i ≤ lines, ¬ (behaviour (5 + i)).isHeader) :
    (checkAfter protocol latencyMs behaviour (lines + 7)).isRight := by
  by_cases hgrants : Grants behaviour
  · obtain ⟨i, hi, hnot⟩ := h hgrants
    have hexists : ∃ i, ¬ (behaviour (5 + i)).isHeader := ⟨i, hnot⟩
    obtain ⟨first, hstop, hheaders⟩ : ∃ first, ¬ (behaviour (5 + first)).isHeader ∧
        ∀ j < first, (behaviour (5 + j)).isHeader :=
      ⟨Nat.find hexists, Nat.find_spec hexists, fun j hj => not_not.mp (Nat.find_min hexists hj)⟩
    have hle : first ≤ i := Nat.le_of_not_lt fun hlt => hnot (hheaders i hlt)
    have hdrain : checkAfter protocol latencyMs behaviour (5 + first) = .inl .drain :=
      checkAfter_headers hprotocol hgrants hheaders
    have hlast : (checkAfter protocol latencyMs behaviour (5 + first + 2)).isRight := by
      unfold checkAfter at hdrain ⊢
      rw [after_add, hdrain]
      simp [after, advance, checkPoll, hstop]
    exact isRight_after_mono (by omega) hlast
  · exact isRight_after_mono (by omega) (isRight_checkAfter_five hprotocol hgrants)

/-- There is a bound on the operations of a check, and so on its reads, whichever of these ways
the proxy behaves, exactly when there is one on the header lines that it sends. -/
theorem checkAfter_bounded_iff (protocol : Protocol) (latencyMs : ℕ) (behaviours : Set (ℕ → Met)) :
    (∃ bound, ∀ b ∈ behaviours, (checkAfter protocol latencyMs b bound).isRight) ↔
      protocol = .socks5 ∨
        ∃ lines, ∀ b ∈ behaviours, Grants b → ∃ i ≤ lines, ¬ (b (5 + i)).isHeader := by
  by_cases hprotocol : protocol = .socks5
  · subst hprotocol
    exact iff_of_true ⟨9, fun _ _ => isRight_checkAfter_socks5⟩ (.inl rfl)
  · rw [or_iff_right hprotocol]
    constructor
    · rintro ⟨bound, hbound⟩
      refine ⟨bound, fun b hb hgrants => ?_⟩
      by_contra! hheaders
      have hdrain : checkAfter protocol latencyMs b (5 + bound) = .inl .drain :=
        checkAfter_headers hprotocol hgrants fun i hi => hheaders i hi.le
      have hright : (checkAfter protocol latencyMs b (5 + bound)).isRight :=
        isRight_after_mono (Nat.le_add_left _ _) (hbound b hb)
      rw [hdrain] at hright
      cases hright
    · rintro ⟨lines, hlines⟩
      exact ⟨lines + 7, fun b hb => isRight_checkAfter_http hprotocol (hlines b hb)⟩

/-- A check comes to its end exactly when the headers do. -/
theorem checkAfter_finishes_iff (protocol : Protocol) (latencyMs : ℕ) (behaviour : ℕ → Met) :
    (∃ n, (checkAfter protocol latencyMs behaviour n).isRight) ↔
      ¬ EndlessHeaders protocol behaviour := by
  have h := checkAfter_bounded_iff protocol latencyMs {behaviour}
  simp only [Set.mem_singleton_iff, forall_eq] at h
  rw [h]
  constructor
  · rintro hbound ⟨hprotocol, hgrants, hheaders⟩
    obtain ⟨lines, hlines⟩ := hbound.resolve_left hprotocol
    obtain ⟨i, -, hi⟩ := hlines hgrants
    exact hi (hheaders i)
  · intro hends
    by_contra! hnever
    obtain ⟨hprotocol, hnever⟩ := hnever
    refine hends ⟨hprotocol, (hnever 0).1, fun i => (hnever i).2 i le_rfl⟩

theorem Probing.completes_iff {proxies : List Proxy} (x : Probing proxies) :
    x.Completes ↔
      ∀ i : Fin proxies.length, ¬ EndlessHeaders proxies[i].protocol (x.behaviour i) := by
  unfold Completes
  rw [x.fair.all_complete_iff]
  exact forall_congr' fun i => checkAfter_finishes_iff _ _ _

theorem Batch.completes_iff {limit : ℕ} (b : Batch limit) : b.Completes ↔ ¬ b.Endless := by
  unfold Completes Endless
  simp only [Probing.completes_iff, not_exists]
  rfl

theorem HealthRun.tickCompletes_iff (r : HealthRun) (k : ℕ) :
    r.TickCompletes k ↔ ¬ r.TickEndless k := by
  unfold TickCompletes TickEndless
  cases r.ticks k with
  | inl b => exact b.completes_iff
  | inr b => exact b.completes_iff

theorem HealthRun.reaches_iff (r : HealthRun) (k : ℕ) :
    r.Reaches k ↔ ¬ r.startup.Endless ∧ ∀ j < k, ¬ r.TickEndless j := by
  induction k with
  | zero => simp [Reaches, Batch.completes_iff]
  | succ k ih => rw [Reaches, ih, r.tickCompletes_iff, Nat.forall_lt_succ_right, and_assoc]

/-- A check makes a bounded number of reads, a batch completes and the health loop comes to its
ticks, exactly as long as no HTTP proxy that is probed sends header lines without end. -/
theorem healthChecking_iff (protocol : Protocol) (latencyMs : ℕ) (behaviours : Set (ℕ → Met))
    {proxies : List Proxy} (x : Probing proxies) (r : HealthRun) (k : ℕ) :
    ((∃ bound, ∀ b ∈ behaviours, (checkAfter protocol latencyMs b bound).isRight) ↔
      protocol = .socks5 ∨
        ∃ lines, ∀ b ∈ behaviours, Grants b → ∃ i ≤ lines, ¬ (b (5 + i)).isHeader) ∧
    (x.Completes ↔
      ∀ i : Fin proxies.length, ¬ EndlessHeaders proxies[i].protocol (x.behaviour i)) ∧
    (r.Reaches k ↔ ¬ r.startup.Endless ∧ ∀ j < k, ¬ r.TickEndless j) :=
  ⟨checkAfter_bounded_iff protocol latencyMs behaviours, x.completes_iff, r.reaches_iff k⟩

/-- An HTTP proxy that accepts, and sends one header line over and over. -/
def paddingServer (n : ℕ) : Met :=
  let status := .done (Utf8.encode "HTTP/1.1 200 OK\r\n")
  ([.done [], .done [], status, .done [], status][n]?).getD
    (.done (Utf8.encode "X-Padding: 1\r\n"))

theorem endlessHeaders_paddingServer : EndlessHeaders .http paddingServer := by
  refine ⟨nofun, by unfold Grants; decide, fun i => ?_⟩
  have hline : paddingServer (5 + i) = .done (Utf8.encode "X-Padding: 1\r\n") := by
    simp [paddingServer]
  rw [hline]
  decide

/-- Every proxy of a batch behaves alike, and their checks take turns. -/
def Probing.uniform {proxies : List Proxy} (h : proxies ≠ []) (behaviour : ℕ → Met) :
    Probing proxies where
  behaviour _ := behaviour
  latencyMs _ := 0
  sched n := ⟨n % proxies.length, Nat.mod_lt n (List.length_pos_of_ne_nil h)⟩
  fair i n := by
    have hpos := List.length_pos_of_ne_nil h
    refine ⟨i + proxies.length * n, ?_, Fin.ext ?_⟩
    · exact (Nat.le_mul_of_pos_left n hpos).trans (Nat.le_add_left _ _)
    · simp [Nat.mod_eq_of_lt i.isLt]

def loneProxy : Proxy := .new "1.1.1.1" 80 .http

def loneBatch (limit : ℕ) : Batch limit where
  pool := ((SharedState.withConfig 300 5000 []).insertIfAbsent loneProxy).2
  it := {
    order := [loneProxy.key]
    nodup := List.nodup_singleton _
    complete k := by
      show k ∈ [loneProxy.key] ↔ k ∈ FinMap.empty.insert loneProxy.key loneProxy
      simp }
  now := ⟨0, 0⟩
  probing h := .uniform h paddingServer

theorem proxies_loneBatch (limit : ℕ) : (loneBatch (limit + 1)).proxies = [loneProxy] := by
  have hvalues : (loneBatch (limit + 1)).it.values = [loneProxy] := rfl
  have hneeds : SharedState.needsCheck (loneBatch (limit + 1)).now loneProxy = true := rfl
  simp [Batch.proxies, SharedState.proxiesNeedingCheck, hvalues, hneeds]

theorem endless_loneBatch (limit : ℕ) : (loneBatch (limit + 1)).Endless := by
  have hne : (loneBatch (limit + 1)).proxies ≠ [] := by simp [proxies_loneBatch]
  have hhttp : ∀ p ∈ (loneBatch (limit + 1)).proxies, p.protocol = .http := by
    rw [proxies_loneBatch, List.forall_mem_singleton]
    rfl
  let i : Fin (loneBatch (limit + 1)).proxies.length := ⟨0, List.length_pos_of_ne_nil hne⟩
  refine ⟨hne, i, ?_⟩
  show EndlessHeaders ((loneBatch (limit + 1)).proxies.get i).protocol paddingServer
  rw [hhttp _ (List.get_mem _ i)]
  exact endlessHeaders_paddingServer

/-- The reads of a check have no bound, and one such proxy in the pool at the start keeps the
health loop from ever beginning. -/
theorem healthChecking_stops : (¬ ∃ bound, ∀ b, (checkAfter .http 0 b bound).isRight) ∧
    ∃ r : HealthRun, r.startup.proxies = [loneProxy] ∧
      (∀ h i, (r.startup.probing h).behaviour i = paddingServer) ∧ ∀ k, ¬ r.Reaches k := by
  constructor
  · rintro ⟨bound, hbound⟩
    have hfinish := (checkAfter_finishes_iff .http 0 paddingServer).mp ⟨bound, hbound _⟩
    exact hfinish endlessHeaders_paddingServer
  · refine ⟨⟨loneBatch 60, fun _ => .inl (loneBatch 100)⟩, proxies_loneBatch 59,
      fun _ _ => rfl, fun k hk => ?_⟩
    exact ((HealthRun.reaches_iff _ k).mp hk).1 (endless_loneBatch 59)

end VpnGateway
