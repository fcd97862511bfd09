import VpnGateway.Core.Runs

/-! What the steps of a run book, added up, against what its states hold. -/
namespace Runs

variable {σ ι M N : Type*} [AddCommMonoid M] [AddCommMonoid N]

/-- A run with the sum of what its steps book. -/
inductive Booked (Step : σ → ι → σ → Prop) (entry : σ → ι → M) : σ → List ι → σ → M → Prop where
  | nil (s : σ) : Booked Step entry s [] s 0
  | cons {s t u : σ} {a : ι} {as : List ι} {m : M} (head : Step s a t)
      (tail : Booked Step entry t as u m) : Booked Step entry s (a :: as) u (entry s a + m)

variable {Step : σ → ι → σ → Prop} {entry : σ → ι → M} {s t : σ} {as : List ι} {m : M}

/-- Any run can be booked. -/
theorem Run.booked (h : Run Step s as t) (entry : σ → ι → M) : ∃ m, Booked Step entry s as t m := by
  induction h with
  | nil s => exact ⟨0, .nil s⟩
  | cons head _ ih =>
    obtain ⟨m, hm⟩ := ih
    exact ⟨_, .cons head hm⟩

theorem Booked.run (h : Booked Step entry s as t m) : Run Step s as t := by
  induction h with
  | nil s => exact .nil s
  | cons head _ ih => exact .cons head ih

/-- Where each step moves the holdings by what it books, so does the run. -/
theorem Booked.balance {held : σ → N} {earned spent : M →+ N}
    (hstep : ∀ s a t, Step s a t → held t + spent (entry s a) = held s + earned (entry s a))
    (h : Booked Step entry s as t m) : held t + spent m = held s + earned m := by
  induction h with
  | nil s => rw [map_zero, map_zero]
  | @cons s t u a as m head _ ih =>
    calc held u + spent (entry s a + m) = held u + spent m + spent (entry s a) := by
          rw [map_add, add_comm (spent _), add_assoc]
      _ = held t + spent (entry s a) + earned m := by rw [ih, add_right_comm]
      _ = held s + earned (entry s a + m) := by rw [hstep s a t head, map_add, add_assoc]

/-- What no step books does not come up in the sum. -/
theorem Booked.eq_zero {part : M →+ N} (hstep : ∀ s a t, Step s a t → part (entry s a) = 0)
    (h : Booked Step entry s as t m) : part m = 0 := by
  induction h with
  | nil => exact map_zero part
  | cons head _ ih => rw [map_add, hstep _ _ _ head, ih, add_zero]

end Runs
