import Mathlib

/-! The exponential moving average of a list of samples: where it can be, and how fast it forgets
where it began. -/
namespace MovingAverage

section Module

variable {𝕜 E : Type*} [CommRing 𝕜] [AddCommGroup E] [Module 𝕜 E] {a : 𝕜} {avg avg' x : E}
  {xs : List E}

/-- The average with one more sample, which has the weight `a`. -/
def step (a : 𝕜) (avg x : E) : E := (1 - a) • avg + a • x

def average (a : 𝕜) (avg : E) (xs : List E) : E := xs.foldl (step a) avg

@[simp] theorem average_nil : average a avg [] = avg := rfl

theorem average_cons : average a avg (x :: xs) = average a (step a avg x) xs := rfl

theorem average_append (ys : List E) :
    average a avg (xs ++ ys) = average a (average a avg xs) ys := List.foldl_append

theorem step_sub (a : 𝕜) (avg avg' x : E) :
    step a avg x - step a avg' x = (1 - a) • (avg - avg') := by
  rw [step, step, add_sub_add_right_eq_sub, smul_sub]

/-- Two averages of the same samples differ by their beginnings, less with every sample. -/
theorem average_sub (a : 𝕜) (avg avg' : E) (xs : List E) :
    average a avg xs - average a avg' xs = (1 - a) ^ xs.length • (avg - avg') := by
  induction xs generalizing avg avg' with
  | nil => simp
  | cons x xs ih =>
    rw [average_cons, average_cons, ih, step_sub, smul_smul, List.length_cons, pow_succ]

theorem step_self (a : 𝕜) (x : E) : step a x x = x := by
  rw [step, ← add_smul, sub_add_cancel, one_smul]

theorem average_replicate (a : 𝕜) (x : E) (k : ℕ) : average a x (List.replicate k x) = x := by
  induction k with
  | zero => rfl
  | succ k ih => rw [List.replicate_succ, average_cons, step_self, ih]

/-- Samples that are all the same draw the average towards them. -/
theorem average_replicate_sub (a : 𝕜) (avg x : E) (k : ℕ) :
    average a avg (List.replicate k x) - x = (1 - a) ^ k • (avg - x) := by
  have hsub := average_sub a avg x (List.replicate k x)
  rwa [average_replicate, List.length_replicate] at hsub

/-- The average does not leave a convex set that has its beginning and the samples. -/
theorem average_mem [PartialOrder 𝕜] [IsOrderedRing 𝕜] {S : Set E} (hS : Convex 𝕜 S)
    (ha : a ∈ Set.Icc 0 1) (havg : avg ∈ S) (hxs : ∀ x ∈ xs, x ∈ S) : average a avg xs ∈ S := by
  induction xs generalizing avg with
  | nil => exact havg
  | cons x xs ih =>
    obtain ⟨hx, hxs⟩ := List.forall_mem_cons.mp hxs
    exact ih (hS havg hx (sub_nonneg.mpr ha.2) ha.1 (sub_add_cancel 1 a)) hxs

end Module

section Ordered

variable {𝕜 : Type*} [Field 𝕜] [LinearOrder 𝕜] [IsStrictOrderedRing 𝕜] {a : 𝕜}

theorem average_mem_Icc (ha : a ∈ Set.Icc 0 1) (avg : 𝕜) (xs : List 𝕜) :
    average a avg xs ∈ Set.Icc ((avg :: xs).min (List.cons_ne_nil _ _))
      ((avg :: xs).max (List.cons_ne_nil _ _)) := by
  have hall : ∀ x ∈ avg :: xs, x ∈ Set.Icc ((avg :: xs).min (List.cons_ne_nil _ _))
      ((avg :: xs).max (List.cons_ne_nil _ _)) := fun x hx =>
    ⟨List.min_le_of_mem hx, List.le_max_of_mem hx⟩
  obtain ⟨havg, hxs⟩ := List.forall_mem_cons.mp hall
  exact average_mem (convex_Icc _ _) ha havg hxs

theorem abs_average_replicate_sub (ha : a ≤ 1) (avg x : 𝕜) (k : ℕ) :
    |average a avg (List.replicate k x) - x| = (1 - a) ^ k * |avg - x| := by
  rw [average_replicate_sub, smul_eq_mul, abs_mul, abs_pow, abs_of_nonneg (sub_nonneg.mpr ha)]

end Ordered

end MovingAverage
