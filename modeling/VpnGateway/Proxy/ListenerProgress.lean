import VpnGateway.Proxy.ConnectionCount

/-! No handler runs for ever and no permit leaks: each handler gets to the end within a bounded
number of steps, and a listener that nobody connects to any more gets all its permits back. -/
namespace VpnGateway

namespace Listener

open Runs

/-- How many steps a handler can still take; an attempt to connect that fails costs three. -/
def Phase.rank : Phase → ℕ
  | .accepted => 14
  | .sniffed => 13
  | .selecting attempt => 6 + 3 * (2 - attempt)
  | .waiting attempt => 5 + 3 * (2 - attempt)
  | .connecting attempt => 4 + 3 * (2 - attempt)
  | .relaying => 3
  | .relayed => 2
  | .failed => 2
  | .returned => 1
  | .released => 0

theorem Move.rank_lt {p q : Phase} {e : Effect} (h : Move p e q) : q.rank < p.rank := by
  cases h with
  | retries attempt h =>
    have hlt : attempt + 1 < 3 := h
    simp only [Phase.rank]
    omega
  | _ => simp only [Phase.rank]; omega

/-- A handler that has its permit has a next step. -/
theorem exists_move {p : Phase} (h : p.holdsPermit) : ∃ e q, Move p e q := by
  cases p with
  | accepted => exact ⟨_, _, .sniffs⟩
  | sniffed => exact ⟨_, _, .enters⟩
  | selecting attempt => exact ⟨_, _, .selects attempt⟩
  | waiting attempt => exact ⟨_, _, .wakes attempt⟩
  | connecting attempt => exact ⟨_, _, .connects attempt⟩
  | relaying => exact ⟨_, _, .transferDone⟩
  | relayed => exact ⟨_, _, .leavesRelay⟩
  | failed => exact ⟨_, _, .leavesLoop⟩
  | returned => exact ⟨_, _, .dropsPermit⟩
  | released => exact absurd h Bool.false_ne_true

namespace Action

def isAccept : Action → Bool
  | .accept => true
  | .reject | .move _ _ => false

def isMove : Action → Bool
  | .move _ _ => true
  | .accept | .reject => false

/-- The action is a step of this handler. -/
def isOf (i : ℕ) : Action → Bool
  | .move j _ => j = i
  | .accept | .reject => false

def countsRequest : Action → Bool
  | .move _ .countsRequest => true
  | .accept | .reject | .move _ _ => false

end Action

variable {l l' : Listener} {a : Action} {as : List Action}

/-- The steps that a handler can still take, whether it is spawned yet or not. -/
def allowance (l : Listener) (i : ℕ) : ℕ := l.handlers[i]?.elim 14 Phase.rank

theorem Step.allowance_le (h : Step l a l') (i : ℕ) :
    (if a.isOf i then 1 else 0) + l'.allowance i ≤ l.allowance i := by
  cases h with
  | accept =>
    simp only [allowance, Action.isOf, Bool.false_eq_true, ↓reduceIte, Nat.zero_add]
    rcases Nat.lt_trichotomy i l.handlers.length with hlt | rfl | hgt
    · rw [List.getElem?_append_left hlt]
    · simp [Phase.rank]
    · rw [List.getElem?_eq_none (by simpa using hgt), List.getElem?_eq_none hgt.le]
  | reject => exact (Nat.zero_add _).le
  | move j p q e hj hm =>
    have hlt := hm.rank_lt
    by_cases hi : j = i
    · subst hi
      have hq : (l.handlers.set j q)[j]? = some q := by
        rw [List.getElem?_set_self (List.getElem?_eq_some_iff.mp hj).1]
      simp only [allowance, Action.isOf, hq, hj, Option.elim_some, decide_true, ↓reduceIte]
      omega
    · simp [allowance, Action.isOf, hi, List.getElem?_set_ne hi]

/-- A handler's steps in a run come off what it can still take. -/
theorem countP_isOf_le (h : Run Step l as l') (i : ℕ) :
    as.countP (Action.isOf i) + l'.allowance i ≤ l.allowance i := by
  induction h with
  | nil l => exact (Nat.zero_add _).le
  | cons head _ ih =>
    have hhead := head.allowance_le i
    rw [List.countP_cons]
    omega

/-- The steps that all handlers together can still take. -/
def remaining (l : Listener) : ℕ := (l.handlers.map Phase.rank).sum

theorem remaining_move {i : ℕ} {p q : Phase} {e : Effect} (hi : l.handlers[i]? = some p)
    (hm : Move p e q) : ((l.handlers.set i q).map Phase.rank).sum + 1 ≤ l.remaining := by
  obtain ⟨hlt, hp⟩ := List.getElem?_eq_some_iff.mp hi
  have hrank := hm.rank_lt
  have hold : l.remaining = ((l.handlers.map Phase.rank).take i).sum + p.rank +
      ((l.handlers.map Phase.rank).drop (i + 1)).sum := by
    have hsame : (l.handlers.map Phase.rank).set i p.rank = l.handlers.map Phase.rank := by
      rw [← hp, ← List.getElem_map Phase.rank (h := by simpa using hlt), List.set_getElem_self]
    rw [remaining, ← hsame, List.sum_set, if_pos (by simpa using hlt), hsame]
  rw [List.map_set, List.sum_set, if_pos (by simpa using hlt), hold]
  omega

/-- Without new connections, every step is one of those. -/
theorem length_add_remaining_le (h : Run Step l as l') (hmoves : ∀ a ∈ as, a.isMove) :
    as.length + l'.remaining ≤ l.remaining := by
  induction h with
  | nil l => exact (Nat.zero_add _).le
  | @cons l u l' a as head _ ih =>
    rw [List.forall_mem_cons] at hmoves
    have hrest := ih hmoves.2
    have hfall : u.remaining + 1 ≤ l.remaining := by
      cases head with
      | accept | reject => exact absurd hmoves.1 Bool.false_ne_true
      | move i p q e hi hm => exact remaining_move hi hm
    rw [List.length_cons]
    omega

/-- Where no handler has a next step, every permit is back. -/
theorem Inv.drained {maxConnections : UInt64} (h : Inv maxConnections l)
    (hstuck : ∀ p ∈ l.handlers, p.holdsPermit = false) :
    l.permits = maxConnections.toNat ∧ l.activeConnections = 0 := by
  have hheld : l.handlers.countP Phase.holdsPermit = 0 :=
    List.countP_eq_zero.mpr fun p hp => by simp [hstuck p hp]
  have hpermits := h.permits
  have hactive := h.active
  have hle := countP_isActive_le l.handlers
  exact ⟨by omega, UInt64.toNat_inj.mp (hactive.trans (by simpa [hheld] using hle))⟩

theorem step_of_holdsPermit {i : ℕ} {p : Phase} (hi : l.handlers[i]? = some p)
    (hp : p.holdsPermit) : ∃ e l', Step l (.move i e) l' := by
  obtain ⟨e, q, hm⟩ := exists_move hp
  exact ⟨e, _, .move i p q e hi hm⟩

theorem holdsPermit_of_stuck (hstuck : ∀ i e l', ¬ Step l (.move i e) l') :
    ∀ p ∈ l.handlers, p.holdsPermit = false := by
  intro p hp
  obtain ⟨i, hi⟩ := List.mem_iff_getElem?.mp hp
  by_contra hheld
  obtain ⟨e, l', hstep⟩ := step_of_holdsPermit hi (Bool.eq_true_of_not_eq_false hheld)
  exact hstuck i e l' hstep

/-- The handlers that are about can always finish. -/
theorem exists_drain (l : Listener) : ∃ as l', Run Step l as l' ∧ (∀ a ∈ as, a.isMove) ∧
    ∀ p ∈ l'.handlers, p.holdsPermit = false := by
  induction hn : l.remaining using Nat.strong_induction_on generalizing l with
  | _ n ih =>
    by_cases hstuck : ∀ i e l', ¬ Step l (.move i e) l'
    · exact ⟨[], l, .nil l, by simp, holdsPermit_of_stuck hstuck⟩
    · push Not at hstuck
      obtain ⟨i, e, u, hstep⟩ := hstuck
      have hless := length_add_remaining_le (.single hstep) (by simp [Action.isMove])
      obtain ⟨as, l', hrun, hmoves, hdone⟩ := ih u.remaining
        (by rw [List.length_singleton] at hless; omega) u rfl
      exact ⟨.move i e :: as, l', .cons hstep hrun,
        List.forall_mem_cons.mpr ⟨rfl, hmoves⟩, hdone⟩

/-- A request is counted once for a handler at most. -/
theorem Step.requests (h : Step l a l') :
    l'.totalRequests = l.totalRequests + (if a.countsRequest then 1 else 0) ∧
    (if a.countsRequest then 1 else 0) + l'.handlers.countP (· = .accepted) +
      l.handlers.length ≤ l.handlers.countP (· = .accepted) + l'.handlers.length := by
  cases h with
  | accept =>
    refine ⟨by simp [Action.countsRequest], ?_⟩
    simp [Action.countsRequest, List.countP_append]
    omega
  | reject => exact ⟨by simp [Action.countsRequest], by simp [Action.countsRequest]⟩
  | move i p q e hi hm =>
    have hcount := countP_set_handler q (· = .accepted) hi
    cases hm <;> refine ⟨by simp [effect, Action.countsRequest], ?_⟩ <;>
      simp [Action.countsRequest] at hcount ⊢ <;> omega

/-- The counter of the requests against the handlers that are past the sniffing step or have
returned from it. -/
theorem run_requests (h : Run Step l as l') :
    l'.totalRequests = l.totalRequests + UInt64.ofNat (as.countP Action.countsRequest) ∧
    as.countP Action.countsRequest + l'.handlers.countP (· = .accepted) + l.handlers.length ≤
      l.handlers.countP (· = .accepted) + l'.handlers.length := by
  induction h with
  | nil l => exact ⟨by simp, by simp⟩
  | @cons l u l' a as head _ ih =>
    obtain ⟨htotal, hcount⟩ := head.requests
    rw [List.countP_cons]
    refine ⟨?_, by omega⟩
    rw [ih.1, htotal, UInt64.ofNat_add, add_assoc, add_comm (UInt64.ofNat _)]
    by_cases hcounts : a.countsRequest <;> simp [hcounts]

/-- One permit, and a second client while the first one is being served. -/
def twoClients : List Action := [.accept, .move 0 .countsRequest, .move 0 .enters, .reject]

end Listener

end VpnGateway
