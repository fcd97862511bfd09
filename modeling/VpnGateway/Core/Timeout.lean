import Mathlib

/-! A future that timed events drive, under a limit on its whole duration and under a limit on
the time between its events. -/
namespace Timeout

variable {σ ε ρ : Type*}

/-- How a limited future stands after the events seen so far. -/
inductive Status (σ ρ : Type*) where
  | pending (s : σ)
  | ready (r : ρ)
  | elapsed
  deriving DecidableEq

/-- One limit for the whole future: at the deadline it is polled once more, and then given up. -/
def run (poll : σ → ε → σ ⊕ ρ) (deadline : ℕ) : σ → List (ℕ × ε) → Status σ ρ
  | s, [] => .pending s
  | s, (t, e) :: trace =>
    if deadline < t then .elapsed
    else match poll s e with
      | .inr r => .ready r
      | .inl s' => if t = deadline then .elapsed else run poll deadline s' trace

/-- A limit that starts again with every event. -/
def runIdle (poll : σ → ε → σ ⊕ ρ) (limit : ℕ) : ℕ → σ → List (ℕ × ε) → Status σ ρ
  | _, s, [] => .pending s
  | last, s, (t, e) :: trace =>
    if last + limit < t then .elapsed
    else match poll s e with
      | .inr r => .ready r
      | .inl s' => runIdle poll limit t s' trace

/-- The state of the future after the events, unless one of them completes it. -/
def feed (poll : σ → ε → σ ⊕ ρ) : σ → List ε → Option σ
  | s, [] => some s
  | s, e :: es =>
    match poll s e with
    | .inl s' => feed poll s' es
    | .inr _ => none

variable {poll : σ → ε → σ ⊕ ρ}

/-- A future that no event completes is given up exactly when an event comes at the deadline
or after it. -/
theorem run_eq_elapsed_iff {deadline : ℕ} {s s' : σ} {trace : List (ℕ × ε)}
    (h : feed poll s (trace.map Prod.snd) = some s') :
    run poll deadline s trace = .elapsed ↔ ∃ e ∈ trace, deadline ≤ e.1 := by
  induction trace generalizing s with
  | nil => simp [run]
  | cons te trace ih =>
    obtain ⟨t, e⟩ := te
    simp only [List.map_cons, feed] at h
    simp only [run, List.exists_mem_cons_iff]
    cases hpoll : poll s e with
    | inr r =>
      rw [hpoll] at h
      cases h
    | inl u =>
      rw [hpoll] at h
      simp only
      by_cases hlt : t < deadline
      · rw [if_neg (not_lt_of_gt hlt), if_neg hlt.ne, ih h, or_iff_right (not_le_of_gt hlt)]
      · -- an event at the deadline or after it is the last one
        refine iff_of_true ?_ (.inl (not_lt.mp hlt))
        split_ifs with hlate heq
        · rfl
        · rfl
        · omega

/-- Under the idle limit, it goes on while no event is late after the one before. -/
theorem runIdle_eq_pending_iff {limit last : ℕ} {s s' : σ} {trace : List (ℕ × ε)} :
    runIdle poll limit last s trace = .pending s' ↔
      feed poll s (trace.map Prod.snd) = some s' ∧
        (last :: trace.map Prod.fst).IsChain fun a b => b ≤ a + limit := by
  induction trace generalizing last s with
  | nil => simp [runIdle, feed]
  | cons te trace ih =>
    obtain ⟨t, e⟩ := te
    simp only [runIdle, List.map_cons, feed, List.isChain_cons_cons]
    cases hpoll : poll s e with
    | inr r =>
      simp only [reduceCtorEq, false_and, iff_false]
      split_ifs <;> simp
    | inl u =>
      simp only
      split_ifs with hlate
      · simp [not_le_of_gt hlate]
      · rw [ih]
        simp [not_lt.mp hlate]

end Timeout
