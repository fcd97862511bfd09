import Mathlib

/-! Counted permits among any number of tasks: those that hold one and the free ones are always as
many as there were at the start. -/
namespace Permits

variable {ι τ : Type*} {holds : ι → τ → Prop} {task : ι → τ} {i : ι} {x : τ} {n free : ℕ}

def holders (holds : ι → τ → Prop) (task : ι → τ) : Set ι := {i | holds i (task i)}

/-- `n` permits, of which so many are free. -/
def Balanced (n : ℕ) (holds : ι → τ → Prop) (task : ι → τ) (free : ℕ) : Prop :=
  (holders holds task).encard + free = n

theorem balanced_of_idle (h : ∀ i, ¬holds i (task i)) : Balanced n holds task n := by
  have hempty : holders holds task = ∅ := Set.eq_empty_of_forall_notMem h
  rw [Balanced, hempty, Set.encard_empty, zero_add]

/-- No more tasks hold a permit than there are. -/
theorem Balanced.card_le (h : Balanced n holds task free) (s : Finset ι)
    (hs : ∀ i ∈ s, holds i (task i)) : s.card ≤ n := by
  have hsub : (s : Set ι) ⊆ holders holds task := hs
  have hle : (s.card : ℕ∞) ≤ n := by
    calc (s.card : ℕ∞) = (s : Set ι).encard := (Set.encard_coe_eq_coe_finsetCard s).symm
      _ ≤ (holders holds task).encard := Set.encard_le_encard hsub
      _ ≤ (holders holds task).encard + free := le_self_add
      _ = n := h
  exact Nat.cast_le.mp hle

section Updates

variable [DecidableEq ι]

theorem mem_holders_update {j : ι} :
    j ∈ holders holds (Function.update task i x) ↔
      if j = i then holds i x else j ∈ holders holds task := by
  by_cases hj : j = i
  · subst hj
    simp [holders]
  · simp [holders, hj]

/-- The task neither takes a permit nor gives one back. -/
theorem Balanced.keep (h : Balanced n holds task free) (hx : holds i x ↔ holds i (task i)) :
    Balanced n holds (Function.update task i x) free := by
  have hsame : holders holds (Function.update task i x) = holders holds task := Set.ext fun j => by
    rw [mem_holders_update]
    split_ifs with hj
    · rw [hj, hx]
      rfl
    · rfl
  rwa [Balanced, hsame]

theorem Balanced.take (h : Balanced n holds task (free + 1)) (hold : ¬holds i (task i))
    (hx : holds i x) : Balanced n holds (Function.update task i x) free := by
  have hinsert : holders holds (Function.update task i x) = insert i (holders holds task) :=
    Set.ext fun j => by
      rw [mem_holders_update, Set.mem_insert_iff]
      split_ifs with hj <;> simp [hj, hx]
  have hcard : (insert i (holders holds task)).encard = (holders holds task).encard + 1 :=
    Set.encard_insert_of_notMem hold
  rw [Balanced, hinsert, hcard, add_assoc, add_comm 1, ← Nat.cast_one, ← Nat.cast_add]
  exact h

theorem Balanced.give (h : Balanced n holds task free) (hold : holds i (task i))
    (hx : ¬holds i x) : Balanced n holds (Function.update task i x) (free + 1) := by
  have hdiff : holders holds (Function.update task i x) = holders holds task \ {i} :=
    Set.ext fun j => by
      rw [mem_holders_update, Set.mem_sdiff, Set.mem_singleton_iff]
      split_ifs with hj <;> simp [hj, hx]
  have hmem : i ∈ holders holds task := hold
  have hcard := Set.encard_sdiff_singleton_add_one hmem
  rw [Balanced, hdiff, Nat.cast_add, Nat.cast_one, add_comm (free : ℕ∞), ← add_assoc, hcard]
  exact h

end Updates

end Permits
