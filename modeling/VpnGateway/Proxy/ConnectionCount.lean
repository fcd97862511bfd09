import VpnGateway.Core.Runs

/-! The count of active connections beside the semaphore of the listener, for any number of
handlers that take their steps in any order. -/
namespace VpnGateway

namespace Listener

/-- Where a handler is, from the permit to its release. -/
inductive Phase where
  | accepted
  | sniffed
  | selecting (attempt : ℕ)
  | waiting (attempt : ℕ)
  | connecting (attempt : ℕ)
  | relaying
  | relayed
  | failed
  | returned
  | released
  deriving DecidableEq

/-- What a step of a handler does to the counters and the semaphore. -/
inductive Effect where
  | keeps
  | countsRequest
  | enters
  | leaves
  | releases
  deriving DecidableEq

def maxRetries : ℕ := 3

/-- The steps of `handle_connection`, and of the task around it that drops the permit. -/
inductive Move : Phase → Effect → Phase → Prop where
  | noOriginalDst : Move .accepted .keeps .returned
  | peekFails : Move .accepted .keeps .returned
  | sniffs : Move .accepted .countsRequest .sniffed
  | enters : Move .sniffed .enters (.selecting 0)
  | selects (attempt : ℕ) : Move (.selecting attempt) .keeps (.connecting attempt)
  | findsNone (attempt : ℕ) : Move (.selecting attempt) .keeps (.waiting attempt)
  | wakes (attempt : ℕ) : Move (.waiting attempt) .keeps (.connecting attempt)
  | stillNone (attempt : ℕ) : Move (.waiting attempt) .keeps .failed
  | waitTimeout (attempt : ℕ) : Move (.waiting attempt) .keeps .failed
  | connects (attempt : ℕ) : Move (.connecting attempt) .keeps .relaying
  | retries (attempt : ℕ) (h : attempt + 1 < maxRetries) :
      Move (.connecting attempt) .keeps (.selecting (attempt + 1))
  | givesUp (attempt : ℕ) (h : maxRetries ≤ attempt + 1) : Move (.connecting attempt) .keeps .failed
  | transferDone : Move .relaying .keeps .relayed
  | relayError : Move .relaying .keeps .relayed
  | relayTimeout : Move .relaying .keeps .relayed
  | leavesRelay : Move .relayed .leaves .returned
  | leavesLoop : Move .failed .leaves .returned
  | dropsPermit : Move .returned .releases .released

namespace Phase

def hasReturned : Phase → Bool
  | .returned | .released => true
  | _ => false

/-- Past the sniffing step, which ends with the increment, and not returned. -/
def isActive : Phase → Bool
  | .accepted | .sniffed | .returned | .released => false
  | _ => true

def holdsPermit : Phase → Bool
  | .released => false
  | _ => true

theorem holdsPermit_of_isActive {p : Phase} (h : p.isActive) : p.holdsPermit := by
  cases p <;> first | rfl | cases h

theorem not_isActive_of_hasReturned {p : Phase} (h : p.hasReturned) : ¬ p.isActive := by
  cases p <;> first | exact Bool.false_ne_true | cases h

end Phase

/-- A handler becomes active where it counts itself, and stops being active where it takes
itself off the count. -/
theorem Move.isActive {p q : Phase} {e : Effect} (h : Move p e q) :
    e = .enters ∧ p.isActive = false ∧ q.isActive = true ∨
    e = .leaves ∧ p.isActive = true ∧ q.isActive = false ∨
    e ≠ .enters ∧ e ≠ .leaves ∧ q.isActive = p.isActive := by
  cases h <;> simp [Phase.isActive]

/-- It holds its permit until the step that gives it back. -/
theorem Move.holdsPermit {p q : Phase} {e : Effect} (h : Move p e q) :
    e = .releases ∧ p.holdsPermit = true ∧ q.holdsPermit = false ∨
    e ≠ .releases ∧ q.holdsPermit = p.holdsPermit := by
  cases h <;> simp [Phase.holdsPermit]

end Listener

open Listener

/-- The listener's semaphore, the two counters of the shared state, and every handler spawned
so far. -/
structure Listener where
  permits : ℕ
  totalRequests : UInt64
  activeConnections : UInt64
  handlers : List Phase

namespace Listener

/-- `Semaphore::new(max_connections)` and no handler. -/
def init (maxConnections : UInt64) : Listener := ⟨maxConnections.toNat, 0, 0, []⟩

def effect (l : Listener) : Effect → Listener
  | .keeps => l
  | .countsRequest => { l with totalRequests := l.totalRequests + 1 }
  | .enters => { l with activeConnections := l.activeConnections + 1 }
  | .leaves => { l with activeConnections := l.activeConnections - 1 }
  | .releases => { l with permits := l.permits + 1 }

inductive Action where
  | accept
  | reject
  | move (i : ℕ) (e : Effect)

/-- The accept loop, which takes a permit or drops the stream, and the steps of the handlers. -/
inductive Step (l : Listener) : Action → Listener → Prop where
  | accept (h : 0 < l.permits) :
      Step l .accept { l with permits := l.permits - 1, handlers := l.handlers ++ [.accepted] }
  | reject (h : l.permits = 0) : Step l .reject l
  | move (i : ℕ) (p q : Phase) (e : Effect) (hi : l.handlers[i]? = some p) (hm : Move p e q) :
      Step l (.move i e) { l.effect e with handlers := l.handlers.set i q }

theorem permits_effect {l : Listener} {e : Effect} (h : e ≠ .releases) :
    (l.effect e).permits = l.permits := by
  cases e <;> first | rfl | exact absurd rfl h

theorem active_effect {l : Listener} {e : Effect} (henters : e ≠ .enters) (hleaves : e ≠ .leaves) :
    (l.effect e).activeConnections = l.activeConnections := by
  cases e <;> first | rfl | exact absurd rfl henters | exact absurd rfl hleaves

/-- Each permit is in the semaphore or with a handler, and the counter counts the active ones. -/
structure Inv (maxConnections : UInt64) (l : Listener) : Prop where
  permits : l.permits + l.handlers.countP Phase.holdsPermit = maxConnections.toNat
  active : l.activeConnections.toNat = l.handlers.countP Phase.isActive

variable {maxConnections : UInt64} {l l' : Listener}

/-- How a count over the handlers changes with one of them. -/
theorem countP_set_handler {handlers : List Phase} {i : ℕ} {p : Phase} (q : Phase)
    (P : Phase → Bool) (hi : handlers[i]? = some p) :
    (handlers.set i q).countP P + (if P p then 1 else 0) =
      handlers.countP P + (if P q then 1 else 0) := by
  obtain ⟨hlt, hp⟩ := List.getElem?_eq_some_iff.mp hi
  have hpos : P p → 0 < handlers.countP P := fun h =>
    List.countP_pos_iff.mpr ⟨p, hp ▸ List.getElem_mem hlt, h⟩
  rw [List.countP_set hlt, hp]
  by_cases h : P p
  · have := hpos h
    simp only [h, ↓reduceIte]
    omega
  · simp [h]

theorem countP_isActive_le (handlers : List Phase) :
    handlers.countP Phase.isActive ≤ handlers.countP Phase.holdsPermit :=
  List.countP_mono_left fun _ _ hp => Phase.holdsPermit_of_isActive hp

theorem Inv.active_le (h : Inv maxConnections l) :
    l.activeConnections.toNat ≤ maxConnections.toNat := by
  have hle := countP_isActive_le l.handlers
  have hpermits := h.permits
  rw [h.active]
  omega

/-- The handler that decrements is counted. -/
theorem Inv.active_pos (h : Inv maxConnections l) {i : ℕ} {p : Phase}
    (hi : l.handlers[i]? = some p) (hp : p.isActive) : 0 < l.activeConnections.toNat := by
  rw [h.active]
  exact List.countP_pos_iff.mpr ⟨p, List.mem_of_getElem? hi, hp⟩

theorem inv_init (maxConnections : UInt64) : Inv maxConnections (init maxConnections) :=
  ⟨rfl, rfl⟩

theorem inv_step {a : Action} (h : Inv maxConnections l) (hs : Step l a l') :
    Inv maxConnections l' := by
  cases hs with
  | accept hpos =>
    have hpermits := h.permits
    refine ⟨?_, ?_⟩
    · simp only [List.countP_append, List.countP_singleton, Phase.holdsPermit]
      simp only [↓reduceIte]
      omega
    · simpa [List.countP_append, Phase.isActive] using h.active
  | reject => exact h
  | move i p q e hi hm =>
    have hpermits : (l.effect e).permits + (l.handlers.set i q).countP Phase.holdsPermit =
        maxConnections.toNat := by
      have hcount := countP_set_handler q Phase.holdsPermit hi
      have hold := h.permits
      rcases hm.holdsPermit with ⟨rfl, hp, hq⟩ | ⟨hne, hpq⟩
      · simp only [hp, hq, effect, ↓reduceIte, Bool.false_eq_true] at hcount ⊢
        omega
      · rw [hpq] at hcount
        rw [permits_effect hne]
        omega
    refine ⟨hpermits, ?_⟩
    change (l.effect e).activeConnections.toNat = (l.handlers.set i q).countP Phase.isActive
    have hcount := countP_set_handler q Phase.isActive hi
    have hactive := h.active
    rcases hm.isActive with ⟨rfl, hp, hq⟩ | ⟨rfl, hp, hq⟩ | ⟨henters, hleaves, hpq⟩
    · -- the permits bound the count, so it stays far from the end of its range
      have hle := countP_isActive_le (l.handlers.set i q)
      have hmax := maxConnections.toNat_lt
      simp only [hp, hq, ↓reduceIte, Bool.false_eq_true] at hcount
      simp only [effect, UInt64.toNat_add, UInt64.toNat_one]
      rw [Nat.mod_eq_of_lt] <;> omega
    · have hpos := h.active_pos hi hp
      have hone : (1 : UInt64) ≤ l.activeConnections := UInt64.le_iff_toNat_le.mpr hpos
      simp only [hp, hq, ↓reduceIte, Bool.false_eq_true] at hcount
      simp only [effect, UInt64.toNat_sub_of_le _ _ hone, UInt64.toNat_one]
      omega
    · rw [hpq] at hcount
      rw [active_effect henters hleaves]
      omega

/-- In every reachable state the counter is the number of handlers past the sniffing step that
have not returned; it never exceeds the limit, it is positive wherever a handler is about to
decrement it, and it is zero once all have returned. -/
theorem activeConnections_exact {maxConnections : UInt64} {l : Listener}
    (h : Runs.Reachable Step (init maxConnections) l) :
    l.activeConnections.toNat = l.handlers.countP Phase.isActive ∧
    l.activeConnections ≤ maxConnections ∧
    (∀ i l', Step l (.move i .leaves) l' → 0 < l.activeConnections) ∧
    ((∀ p ∈ l.handlers, p.hasReturned) → l.activeConnections = 0) := by
  have hinv : Inv maxConnections l :=
    h.invariant (fun _ _ _ hs hstep => inv_step hs hstep) (inv_init maxConnections)
  refine ⟨hinv.active, UInt64.le_iff_toNat_le.mpr hinv.active_le, ?_, ?_⟩
  · intro i l' hstep
    cases hstep with
    | move i p q e hi hm =>
      rcases hm.isActive with ⟨he, -⟩ | ⟨-, hp, -⟩ | ⟨-, he, -⟩
      · cases he
      · exact UInt64.lt_iff_toNat_lt.mpr (hinv.active_pos hi hp)
      · exact absurd rfl he
  · intro hall
    have hzero : l.handlers.countP Phase.isActive = 0 :=
      List.countP_eq_zero.mpr fun p hp => Phase.not_isActive_of_hasReturned (hall p hp)
    exact UInt64.toNat_inj.mp (hinv.active.trans hzero)

theorem activeConnections_exact_one_client :
    let l : Listener := ⟨0, 1, 1, [.selecting 0]⟩
    l.activeConnections.toNat = l.handlers.countP Phase.isActive ∧ l.activeConnections ≤ 1 ∧
    (∀ i l', Step l (.move i .leaves) l' → 0 < l.activeConnections) ∧
    ((∀ p ∈ l.handlers, p.hasReturned) → l.activeConnections = 0) := by
  have haccepted : Runs.Reachable Step (init 1) ⟨0, 0, 0, [.accepted]⟩ :=
    (Runs.Reachable.init _).step (.accept (by decide))
  have hsniffed : Runs.Reachable Step (init 1) ⟨0, 1, 0, [.sniffed]⟩ :=
    haccepted.step (.move 0 _ _ .countsRequest rfl .sniffs)
  have hselecting : Runs.Reachable Step (init 1) ⟨0, 1, 1, [.selecting 0]⟩ :=
    hsniffed.step (.move 0 _ _ .enters rfl .enters)
  exact activeConnections_exact hselecting

end Listener

end VpnGateway
