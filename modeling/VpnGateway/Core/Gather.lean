import VpnGateway.Core.Runs

/-! Futures in flight whose results are taken up one after the other, in the order in which they
come, while others change the state that the results go into. -/
namespace Gather

open Runs

/-- The futures that are not complete, the results at hand, and the state that they go into. -/
structure Intake (ι σ α β : Type*) where
  tasks : ι → Option σ
  queue : List α
  state : β

/-- An event of a future, with its results where it is the last one; a result taken up; or a move
of somebody else. -/
inductive Move (ι ε α ο : Type*) where
  | poll (i : ι) (e : ε) (out : Option (List α))
  | handle (a : α)
  | other (o : ο)

namespace Move

variable {ι ε α ο : Type*}

def results : Move ι ε α ο → List α
  | poll _ _ out => out.getD []
  | handle _ | other _ => []

def handled : Move ι ε α ο → Option α
  | handle a => some a
  | poll _ _ _ | other _ => none

/-- What the move does to the state. -/
def effect : Move ι ε α ο → Option (α ⊕ ο)
  | handle a => some (.inl a)
  | other o => some (.inr o)
  | poll _ _ _ => none

def isOther : Move ι ε α ο → Bool
  | other _ => true
  | poll _ _ _ | handle _ => false

def polls [DecidableEq ι] (i : ι) : Move ι ε α ο → Bool
  | poll j _ _ => j = i
  | handle _ | other _ => false

end Move

variable {ι σ ε α β ο : Type*} [DecidableEq ι] {poll : ι → σ → ε → σ ⊕ List α}
  {handle : β → α → β} {Other : β → ο → β → Prop} {s t : Intake ι σ α β}
  {moves : List (Move ι ε α ο)}

/-- The futures go on only when there is nothing at hand. -/
inductive Step (poll : ι → σ → ε → σ ⊕ List α) (handle : β → α → β) (Other : β → ο → β → Prop)
    (s : Intake ι σ α β) : Move ι ε α ο → Intake ι σ α β → Prop
  | pending {i : ι} {e : ε} {x y : σ} (hidle : s.queue = []) (htask : s.tasks i = some x)
      (hpoll : poll i x e = .inl y) :
      Step poll handle Other s (.poll i e none)
        { s with tasks := Function.update s.tasks i (some y) }
  | complete {i : ι} {e : ε} {x : σ} {results : List α} (hidle : s.queue = [])
      (htask : s.tasks i = some x) (hpoll : poll i x e = .inr results) :
      Step poll handle Other s (.poll i e (some results))
        { s with tasks := Function.update s.tasks i none, queue := results }
  | handle {a : α} {rest : List α} (hqueue : s.queue = a :: rest) :
      Step poll handle Other s (.handle a) { s with queue := rest, state := handle s.state a }
  | other {o : ο} {b : β} (h : Other s.state o b) :
      Step poll handle Other s (.other o) { s with state := b }

/-- A result goes into the state, or somebody else changes it. -/
def Effect (handle : β → α → β) (Other : β → ο → β → Prop) (b : β) : α ⊕ ο → β → Prop
  | .inl a, b' => b' = handle b a
  | .inr o, b' => Other b o b'

/-- Nothing is lost, invented or taken up twice, and the order is that of the arrivals. -/
theorem handled_append (h : Run (Step poll handle Other) s moves t) :
    moves.filterMap Move.handled ++ t.queue = s.queue ++ moves.flatMap Move.results := by
  induction h with
  | nil s => exact (List.append_nil _).symm
  | cons head _ ih =>
    cases head with
    | pending hidle => exact ih
    | complete hidle =>
      rw [hidle]
      exact ih
    | handle hqueue =>
      rw [hqueue]
      exact congrArg (List.cons _) ih
    | other => exact ih

/-- The state takes a run of its own. -/
theorem run_effect (h : Run (Step poll handle Other) s moves t) :
    Run (Effect handle Other) s.state (moves.filterMap Move.effect) t.state := by
  induction h with
  | nil s => exact .nil _
  | cons head _ ih =>
    cases head with
    | pending | complete => exact ih
    | handle hqueue => exact .cons rfl ih
    | other h => exact .cons h ih

/-- With nobody else about, the results are folded into the state. -/
theorem state_eq_foldl (h : Run (Step poll handle Other) s moves t)
    (halone : ∀ move ∈ moves, move.isOther = false) :
    t.state = (moves.filterMap Move.handled).foldl handle s.state := by
  induction h with
  | nil s => rfl
  | cons head _ ih =>
    rw [List.forall_mem_cons] at halone
    cases head with
    | pending | complete | handle => exact ih halone.2
    | other => exact absurd halone.1.symm Bool.false_ne_true

/-- While a future is in flight or a result at hand, there is a next move: the results first, and
then whatever comes for a future. -/
theorem exists_step [Nonempty ε] (h : s.queue ≠ [] ∨ ∃ i, s.tasks i ≠ none) :
    ∃ move t, Step poll handle Other s move t ∧ move.isOther = false := by
  cases hqueue : s.queue with
  | cons a rest => exact ⟨_, _, .handle hqueue, rfl⟩
  | nil =>
    obtain ⟨i, hi⟩ := h.resolve_left (not_not_intro hqueue)
    obtain ⟨x, hx⟩ := Option.ne_none_iff_exists'.mp hi
    obtain ⟨e⟩ := ‹Nonempty ε›
    cases hpoll : poll i x e with
    | inl y => exact ⟨_, _, .pending hqueue hx hpoll, rfl⟩
    | inr results => exact ⟨_, _, .complete hqueue hx hpoll, rfl⟩

/-- What moves cost, by the prices of an event for each future and of a result. -/
def cost (price : ι → ℕ) (fee : ℕ) : Move ι ε α ο → ℕ
  | .poll i _ _ => price i
  | .handle _ => fee
  | .other _ => 0

theorem sum_cost_single (i : ι) (moves : List (Move ι ε α ο)) :
    (moves.map (cost (Pi.single i 1) 0)).sum = moves.countP (Move.polls i) := by
  induction moves with
  | nil => rfl
  | cons move moves ih =>
    rw [List.map_cons, List.sum_cons, ih, List.countP_cons, Nat.add_comm]
    cases move with
    | poll j e out => by_cases hj : j = i <;> simp [cost, Move.polls, hj]
    | handle a | other o => rfl

omit [DecidableEq ι] in
theorem sum_cost_handled (moves : List (Move ι ε α ο)) :
    (moves.map (cost 0 1)).sum = (moves.filterMap Move.handled).length := by
  induction moves with
  | nil => rfl
  | cons move moves ih =>
    rw [List.map_cons, List.sum_cons, ih]
    cases move with
    | handle a => exact Nat.add_comm _ _
    | poll i e out | other o => exact Nat.zero_add _

omit [DecidableEq ι] in
theorem sum_cost_one (moves : List (Move ι ε α ο)) :
    (moves.map (cost 1 1)).sum = moves.countP fun move => !move.isOther := by
  induction moves with
  | nil => rfl
  | cons move moves ih =>
    rw [List.map_cons, List.sum_cons, ih, List.countP_cons, Nat.add_comm]
    cases move <;> rfl

section Costs

variable [Fintype ι]

/-- What a future can still cost: one event more than its rank, and its results. -/
def reserve (rank : σ → ℕ) (cap fee price : ℕ) (x : Option σ) : ℕ :=
  x.elim 0 fun x => price * (rank x + 1) + fee * cap

def funds (rank : σ → ℕ) (cap fee : ℕ) (price : ι → ℕ) (s : Intake ι σ α β) : ℕ :=
  ∑ i, reserve rank cap fee (price i) (s.tasks i) + fee * s.queue.length

theorem sum_reserve_update (rank : σ → ℕ) (cap fee : ℕ) (price : ι → ℕ) (tasks : ι → Option σ)
    (i : ι) (x : Option σ) :
    ∑ j, reserve rank cap fee (price j) (Function.update tasks i x j) +
        reserve rank cap fee (price i) (tasks i) =
      ∑ j, reserve rank cap fee (price j) (tasks j) + reserve rank cap fee (price i) x := by
  have hupdate : ∀ j, reserve rank cap fee (price j) (Function.update tasks i x j) =
      Function.update (fun j => reserve rank cap fee (price j) (tasks j)) i
        (reserve rank cap fee (price i) x) j :=
    fun j => Function.apply_update (fun j => reserve rank cap fee (price j)) tasks i x j
  rw [Finset.sum_congr rfl fun j _ => hupdate j, Finset.sum_update_of_mem (Finset.mem_univ i),
    ← Finset.add_sum_erase _ _ (Finset.mem_univ i), Finset.sdiff_singleton_eq_erase]
  omega

variable {rank : σ → ℕ} {cap : ℕ} (hrank : ∀ i x e y, poll i x e = .inl y → rank y < rank x)
  (hcap : ∀ i x e results, poll i x e = .inr results → results.length ≤ cap)

include hrank hcap

theorem Step.cost_le {move : Move ι ε α ο} (h : Step poll handle Other s move t) (fee : ℕ)
    (price : ι → ℕ) :
    cost price fee move + funds rank cap fee price t ≤ funds rank cap fee price s := by
  cases h with
  | @pending i e x y hidle htask hpoll =>
    have hsum := sum_reserve_update rank cap fee price s.tasks i (some y)
    have hfall : price i * (rank y + 1) + price i ≤ price i * (rank x + 1) := by
      rw [← Nat.mul_succ]
      exact Nat.mul_le_mul_left _ (Nat.succ_le_succ (hrank i x e y hpoll))
    rw [htask] at hsum
    simp only [cost, funds, reserve, Option.elim_some] at hsum ⊢
    omega
  | @complete i e x results hidle htask hpoll =>
    have hsum := sum_reserve_update rank cap fee price s.tasks i none
    have hprice : price i ≤ price i * (rank x + 1) := Nat.le_mul_of_pos_right _ (Nat.succ_pos _)
    have hfee : fee * results.length ≤ fee * cap :=
      Nat.mul_le_mul_left _ (hcap i x e results hpoll)
    rw [htask] at hsum
    simp only [cost, funds, reserve, Option.elim_some, Option.elim_none] at hsum ⊢
    omega
  | handle hqueue =>
    rw [funds, funds, hqueue, List.length_cons, Nat.mul_succ, cost]
    dsimp only
    omega
  | other => exact (Nat.zero_add _).le

/-- A run costs no more than there was in reserve for it. -/
theorem cost_le (h : Run (Step poll handle Other) s moves t) (fee : ℕ) (price : ι → ℕ) :
    (moves.map (cost price fee)).sum + funds rank cap fee price t ≤ funds rank cap fee price s := by
  induction h with
  | nil s => exact (Nat.zero_add _).le
  | cons head _ ih =>
    have hhead := head.cost_le hrank hcap fee price
    rw [List.map_cons, List.sum_cons]
    omega

/-- A future gets no more events than its rank allows. -/
theorem polls_le (h : Run (Step poll handle Other) s moves t) (i : ι) :
    moves.countP (Move.polls i) ≤ (s.tasks i).elim 0 fun x => rank x + 1 := by
  have hcost := cost_le hrank hcap h 0 (Pi.single i 1)
  have hfunds : funds rank cap 0 (Pi.single i 1) s =
      (s.tasks i).elim 0 fun x => rank x + 1 := by
    have hrest : ∀ j, j ≠ i →
        reserve rank cap 0 ((Pi.single i 1 : ι → ℕ) j) (s.tasks j) = 0 := by
      intro j hj
      rw [Pi.single_eq_of_ne hj]
      cases s.tasks j <;> simp [reserve]
    rw [funds, Finset.sum_eq_single i (fun j _ hj => hrest j hj) (by simp), Pi.single_eq_same]
    cases s.tasks i <;> simp [reserve]
  rw [sum_cost_single, hfunds] at hcost
  exact (Nat.le_add_right _ _).trans hcost

/-- No more results are taken up than the futures may have. -/
theorem handled_le (h : Run (Step poll handle Other) s moves t) :
    (moves.filterMap Move.handled).length ≤ Fintype.card ι * cap + s.queue.length := by
  have hcost := cost_le hrank hcap h 1 0
  have hfunds : funds rank cap 1 0 s ≤ Fintype.card ι * cap + s.queue.length := by
    rw [funds, Nat.one_mul, ← Finset.card_univ, ← smul_eq_mul, ← Finset.sum_const]
    refine Nat.add_le_add_right (Finset.sum_le_sum fun i _ => ?_) _
    cases s.tasks i <;> simp [reserve]
  rw [sum_cost_handled] at hcost
  omega

/-- Whoever else is about, the futures and their results are over after so many moves. -/
theorem moves_le {bound : ℕ} (hbound : ∀ i x, s.tasks i = some x → rank x ≤ bound)
    (h : Run (Step poll handle Other) s moves t) :
    moves.countP (fun move => !move.isOther) ≤
      Fintype.card ι * (bound + 1 + cap) + s.queue.length := by
  have hcost := cost_le hrank hcap h 1 1
  have hfunds : funds rank cap 1 1 s ≤ Fintype.card ι * (bound + 1 + cap) + s.queue.length := by
    rw [funds, Nat.one_mul, ← Finset.card_univ, ← smul_eq_mul, ← Finset.sum_const]
    refine Nat.add_le_add_right (Finset.sum_le_sum fun i _ => ?_) _
    cases htask : s.tasks i with
    | none => exact Nat.zero_le _
    | some x =>
      have := hbound i x htask
      simp only [reserve, Option.elim_some, Pi.one_apply, Nat.one_mul]
      omega
  rw [sum_cost_one] at hcost
  omega

end Costs

end Gather
