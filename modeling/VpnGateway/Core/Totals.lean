import VpnGateway.Core.FinMap

/-! What the entries of a finite map come to altogether. -/
namespace FinMap

variable {κ ν M : Type*} [AddCommMonoid M]

def total (m : FinMap κ ν) (f : ν → M) : M := ∑ k ∈ m.keys, (m.get k).elim 0 f

@[simp] theorem total_empty (f : ν → M) : (empty : FinMap κ ν).total f = 0 := rfl

/-- What is kept and what is dropped come to the whole. -/
theorem total_retain_add (m : FinMap κ ν) (P : ν → Bool) (f : ν → M) :
    (m.retain P).total f + (m.retain (!P ·)).total f = m.total f := by
  have hpart : ∀ Q : ν → Bool, (m.retain Q).total f =
      ∑ k ∈ m.keys, ((m.get k).filter Q).elim 0 f := fun Q => by
    refine Finset.sum_subset (Finset.filter_subset _ _) fun k hk hout => ?_
    have hany : ¬ (m.get k).any Q := fun h => hout (Finset.mem_filter.mpr ⟨hk, h⟩)
    show ((m.get k).filter Q).elim 0 f = 0
    cases hget : m.get k with
    | none => rfl
    | some v =>
      rw [hget] at hany
      simp only [Option.any_some] at hany
      simp [Option.filter, hany]
  rw [hpart, hpart, ← Finset.sum_add_distrib]
  refine Finset.sum_congr rfl fun k _ => ?_
  cases m.get k with
  | none => exact add_zero 0
  | some v => by_cases hv : P v <;> simp [Option.filter, hv]

variable [DecidableEq κ] {m : FinMap κ ν} {k : κ} {v : ν}

theorem total_insert_of_notMem (h : k ∉ m) (v : ν) (f : ν → M) :
    (m.insert k v).total f = f v + m.total f := by
  have hrest : ∀ j ∈ m.keys, ((m.insert k v).get j).elim 0 f = (m.get j).elim 0 f := by
    intro j hj
    have hne : j ≠ k := by
      rintro rfl
      exact h hj
    rw [get_insert_of_ne m v hne]
  calc (m.insert k v).total f = ∑ j ∈ Insert.insert k m.keys, ((m.insert k v).get j).elim 0 f := rfl
    _ = ((m.insert k v).get k).elim 0 f + ∑ j ∈ m.keys, ((m.insert k v).get j).elim 0 f :=
      Finset.sum_insert h
    _ = f v + m.total f := by rw [get_insert_self, Finset.sum_congr rfl hrest]; rfl

theorem total_remove (h : m.get k = some v) (f : ν → M) :
    (m.remove k).total f + f v = m.total f := by
  have hrest : ∀ j ∈ m.keys.erase k, ((m.remove k).get j).elim 0 f = (m.get j).elim 0 f :=
    fun j hj => by rw [get_remove, if_neg (Finset.ne_of_mem_erase hj)]
  calc (m.remove k).total f + f v
      = ∑ j ∈ m.keys.erase k, (m.get j).elim 0 f + (m.get k).elim 0 f := by
        rw [h, ← Finset.sum_congr rfl hrest]; rfl
    _ = m.total f := Finset.sum_erase_add _ _ (mem_of_get h)

theorem total_modify (h : m.get k = some v) (g : ν → ν) (f : ν → M) :
    (m.modify k g).total f + f v = m.total f + f (g v) := by
  have hnew : (m.modify k g).get k = some (g v) := by
    rw [get_modify, if_pos rfl, h, Option.map_some]
  have hsame : (m.modify k g).remove k = m.remove k := FinMap.ext fun j => by
    rw [get_remove, get_remove, get_modify]
    split_ifs <;> rfl
  rw [← total_remove hnew, ← total_remove h, hsame, add_right_comm]

/-- The new value counts, and the one it replaces no longer. -/
theorem total_insert (m : FinMap κ ν) (k : κ) (v : ν) (f : ν → M) :
    (m.insert k v).total f + (m.get k).elim 0 f = m.total f + f v := by
  cases hk : m.get k with
  | none =>
    rw [total_insert_of_notMem (notMem_iff.mpr hk)]
    exact (add_zero _).trans (add_comm _ _)
  | some w =>
    have hsame : m.insert k v = m.modify k fun _ => v := FinMap.ext fun j => by
      rw [get_insert, get_modify]
      split_ifs with hj
      · subst hj
        rw [hk, Option.map_some]
      · rfl
    rw [hsame]
    exact total_modify hk _ f

section Ordered

variable [PartialOrder M] [IsOrderedCancelAddMonoid M] {f : ν → M}

theorem total_modify_le (h : m.get k = some v) {g : ν → ν} (hle : f (g v) ≤ f v) :
    (m.modify k g).total f ≤ m.total f := by
  have heq := total_modify h g f
  exact le_of_add_le_add_right (heq.trans_le (add_le_add_right hle _))

/-- What the value gives up counts beside the total. -/
theorem add_total_modify (h : m.get k = some v) {g : ν → ν} {spent : M}
    (hspent : f v = spent + f (g v)) (a : M) :
    spent + a + (m.modify k g).total f = a + m.total f := by
  have heq := total_modify h g f
  rw [hspent, add_left_comm, ← add_assoc] at heq
  rw [add_comm spent, add_assoc, add_right_cancel (b := f (g v)) heq]

theorem total_remove_le (h : m.get k = some v) (hpos : 0 ≤ f v) :
    (m.remove k).total f ≤ m.total f := by
  rw [← total_remove h f]
  exact le_add_of_nonneg_right hpos

end Ordered

end FinMap
