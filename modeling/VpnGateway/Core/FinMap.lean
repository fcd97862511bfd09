import Mathlib

/-! Finite maps whose iteration order is unspecified. A map is its lookup function
together with the finite set of its keys; an enumeration of the entries is a separate
value, so that a result about a scan is a result about every order of it. -/

structure FinMap (κ ν : Type*) where
  get : κ → Option ν
  keys : Finset κ
  mem_keys : ∀ k, k ∈ keys ↔ (get k).isSome

namespace FinMap

variable {κ ν : Type*}

@[ext] theorem ext {m m' : FinMap κ ν} (h : ∀ k, m.get k = m'.get k) : m = m' := by
  have hg : m.get = m'.get := funext h
  have hk : m.keys = m'.keys := Finset.ext fun k => by rw [m.mem_keys, m'.mem_keys, h k]
  cases m
  cases m'
  simp only [mk.injEq]
  exact ⟨hg, hk⟩

instance : Membership κ (FinMap κ ν) := ⟨fun m k => k ∈ m.keys⟩

instance [DecidableEq κ] (k : κ) (m : FinMap κ ν) : Decidable (k ∈ m) :=
  inferInstanceAs (Decidable (k ∈ m.keys))

theorem mem_iff {m : FinMap κ ν} {k : κ} : k ∈ m ↔ ∃ v, m.get k = some v :=
  (m.mem_keys k).trans Option.isSome_iff_exists

theorem mem_of_get {m : FinMap κ ν} {k : κ} {v : ν} (h : m.get k = some v) : k ∈ m :=
  mem_iff.mpr ⟨v, h⟩

theorem notMem_iff {m : FinMap κ ν} {k : κ} : k ∉ m ↔ m.get k = none := by
  rw [mem_iff, ← Option.isSome_iff_exists, Option.not_isSome_iff_eq_none]

def empty : FinMap κ ν := ⟨fun _ => none, ∅, by simp⟩

@[simp] theorem get_empty (k : κ) : (empty : FinMap κ ν).get k = none := rfl

@[simp] theorem notMem_empty (k : κ) : k ∉ (empty : FinMap κ ν) := by simp [notMem_iff]

def len (m : FinMap κ ν) : ℕ := m.keys.card

theorem len_le_of_subset {m m' : FinMap κ ν} (h : ∀ k ∈ m, k ∈ m') : m.len ≤ m'.len :=
  Finset.card_le_card h

/-- The number of entries whose value satisfies `P`. -/
def countP (m : FinMap κ ν) (P : ν → Bool) : ℕ := (m.keys.filter fun k => (m.get k).any P).card

theorem countP_le_len (m : FinMap κ ν) (P : ν → Bool) : m.countP P ≤ m.len :=
  Finset.card_filter_le _ _

theorem countP_eq_zero {m : FinMap κ ν} {P : ν → Bool} :
    m.countP P = 0 ↔ ∀ k v, m.get k = some v → ¬ P v := by
  rw [countP, Finset.card_eq_zero, Finset.filter_eq_empty_iff]
  constructor
  · intro h k v hv
    simpa [hv] using h (mem_of_get hv)
  · intro h k _
    cases hv : m.get k with
    | none => simp
    | some v => simpa using h k v hv

section Updates

variable [DecidableEq κ]

def insert (m : FinMap κ ν) (k : κ) (v : ν) : FinMap κ ν where
  get j := if j = k then some v else m.get j
  keys := Insert.insert k m.keys
  mem_keys j := by by_cases h : j = k <;> simp [h, m.mem_keys]

theorem get_insert (m : FinMap κ ν) (k j : κ) (v : ν) :
    (m.insert k v).get j = if j = k then some v else m.get j := rfl

@[simp] theorem get_insert_self (m : FinMap κ ν) (k : κ) (v : ν) :
    (m.insert k v).get k = some v := by simp [get_insert]

theorem get_insert_of_ne (m : FinMap κ ν) {k j : κ} (v : ν) (h : j ≠ k) :
    (m.insert k v).get j = m.get j := by simp [get_insert, h]

@[simp] theorem mem_insert {m : FinMap κ ν} {k j : κ} {v : ν} :
    j ∈ m.insert k v ↔ j = k ∨ j ∈ m := by
  by_cases h : j = k <;> simp [mem_iff, get_insert, h]

theorem forall_insert {m : FinMap κ ν} {P : κ → ν → Prop} {k : κ} {v : ν}
    (h : ∀ j w, m.get j = some w → P j w) (hv : P k v) :
    ∀ j w, (m.insert k v).get j = some w → P j w := by
  intro j w hw
  rw [get_insert] at hw
  split_ifs at hw with hj
  · rw [hj, ← Option.some.inj hw]
    exact hv
  · exact h j w hw

theorem len_insert_le (m : FinMap κ ν) (k : κ) (v : ν) : (m.insert k v).len ≤ m.len + 1 :=
  Finset.card_insert_le _ _

theorem len_insert_of_mem {m : FinMap κ ν} {k : κ} (h : k ∈ m) (v : ν) :
    (m.insert k v).len = m.len := congrArg Finset.card (Finset.insert_eq_of_mem h)

theorem len_insert_of_notMem {m : FinMap κ ν} {k : κ} (h : k ∉ m) (v : ν) :
    (m.insert k v).len = m.len + 1 := Finset.card_insert_of_notMem h

def remove (m : FinMap κ ν) (k : κ) : FinMap κ ν where
  get j := if j = k then none else m.get j
  keys := m.keys.erase k
  mem_keys j := by by_cases h : j = k <;> simp [h, m.mem_keys]

theorem get_remove (m : FinMap κ ν) (k j : κ) :
    (m.remove k).get j = if j = k then none else m.get j := rfl

@[simp] theorem mem_remove {m : FinMap κ ν} {k j : κ} : j ∈ m.remove k ↔ j ≠ k ∧ j ∈ m := by
  by_cases h : j = k <;> simp [mem_iff, get_remove, h]

theorem forall_remove {m : FinMap κ ν} {P : κ → ν → Prop} {k : κ}
    (h : ∀ j w, m.get j = some w → P j w) : ∀ j w, (m.remove k).get j = some w → P j w := by
  intro j w hw
  rw [get_remove] at hw
  split_ifs at hw
  exact h j w hw

/-- Rewrite the value stored under `k`, if there is one. -/
def modify (m : FinMap κ ν) (k : κ) (f : ν → ν) : FinMap κ ν where
  get j := if j = k then (m.get j).map f else m.get j
  keys := m.keys
  mem_keys j := by by_cases h : j = k <;> simp [h, m.mem_keys]

theorem get_modify (m : FinMap κ ν) (k j : κ) (f : ν → ν) :
    (m.modify k f).get j = if j = k then (m.get j).map f else m.get j := rfl

@[simp] theorem mem_modify {m : FinMap κ ν} {k j : κ} {f : ν → ν} :
    j ∈ m.modify k f ↔ j ∈ m := Iff.rfl

/-- A modified entry comes from the entry it replaces. -/
theorem get_modify_some {m : FinMap κ ν} {k j : κ} {f : ν → ν} {v : ν}
    (h : (m.modify k f).get j = some v) :
    ∃ u, m.get j = some u ∧ (v = u ∨ j = k ∧ v = f u) := by
  rw [get_modify] at h
  split at h
  next hj =>
    obtain ⟨u, hu, rfl⟩ := Option.map_eq_some_iff.mp h
    exact ⟨u, hu, Or.inr ⟨hj, rfl⟩⟩
  next => exact ⟨v, h, Or.inl rfl⟩

/-- Store `v` under `k` unless something is stored there. -/
def orInsert (m : FinMap κ ν) (k : κ) (v : ν) : FinMap κ ν := if k ∈ m then m else m.insert k v

theorem get_orInsert (m : FinMap κ ν) (k j : κ) (v : ν) :
    (m.orInsert k v).get j = if j = k ∧ k ∉ m then some v else m.get j := by
  unfold orInsert
  split_ifs with hk hj hj
  · exact absurd hk hj.2
  · rfl
  · rw [hj.1, get_insert_self]
  · exact get_insert_of_ne m v fun h => hj ⟨h, hk⟩

theorem mem_orInsert {m : FinMap κ ν} {k j : κ} {v : ν} : j ∈ m.orInsert k v ↔ j = k ∨ j ∈ m := by
  unfold orInsert
  split_ifs with hk
  · exact ⟨.inr, fun h => h.elim (fun hj => hj ▸ hk) id⟩
  · exact mem_insert

/-- Store each value under its own key, in this order, unless something is stored there. -/
def insertAll (m : FinMap κ ν) (key : ν → κ) (vs : List ν) : FinMap κ ν :=
  vs.foldl (fun m v => m.orInsert (key v) v) m

/-- The first value of a key stays. -/
theorem get_insertAll (m : FinMap κ ν) (key : ν → κ) (vs : List ν) (k : κ) :
    (m.insertAll key vs).get k = (m.get k).or (vs.find? fun v => key v = k) := by
  unfold insertAll
  induction vs generalizing m with
  | nil => simp
  | cons v vs ih =>
    rw [List.foldl_cons, ih, get_orInsert, List.find?_cons]
    by_cases hk : k = key v
    · subst hk
      cases hm : m.get (key v) with
      | none => simp [notMem_iff, hm]
      | some w => simp [mem_of_get hm]
    · simp [hk, Ne.symm hk]

theorem mem_insertAll {m : FinMap κ ν} {key : ν → κ} {vs : List ν} {k : κ} :
    k ∈ m.insertAll key vs ↔ k ∈ m ∨ ∃ v ∈ vs, key v = k := by
  rw [← not_iff_not, notMem_iff, get_insertAll, Option.or_eq_none_iff, ← notMem_iff, not_or]
  simp

/-- Values with keys of their own are all stored. -/
theorem get_insertAll_of_nodup {m : FinMap κ ν} {key : ν → κ} {vs : List ν}
    (hnodup : (vs.map key).Nodup) {v : ν} (hv : v ∈ vs) (hnew : key v ∉ m) :
    (m.insertAll key vs).get (key v) = some v := by
  have hsome : (vs.find? fun w => key w = key v).isSome :=
    List.find?_isSome.mpr ⟨v, hv, by simp⟩
  obtain ⟨w, hw⟩ := Option.isSome_iff_exists.mp hsome
  have hwv : key w = key v := by simpa using List.find?_some hw
  have heq : w = v := List.inj_on_of_nodup_map hnodup (List.mem_of_find?_eq_some hw) hv hwv
  rw [get_insertAll, notMem_iff.mp hnew, Option.none_or, hw, heq]

theorem len_orInsert_le (m : FinMap κ ν) (k : κ) (v : ν) : (m.orInsert k v).len ≤ m.len + 1 := by
  unfold orInsert
  split_ifs
  · exact Nat.le_succ _
  · exact len_insert_le m k v

theorem len_insertAll_le (m : FinMap κ ν) (key : ν → κ) (vs : List ν) :
    (m.insertAll key vs).len ≤ m.len + vs.length := by
  induction vs generalizing m with
  | nil => exact le_rfl
  | cons v vs ih =>
    have hstep := m.len_orInsert_le (key v) v
    have hrest := ih (m.orInsert (key v) v)
    rw [List.length_cons]
    exact hrest.trans (by omega)

/-- What is stored under a key does not depend on the order, if only one value has it. -/
theorem get_insertAll_of_perm (m : FinMap κ ν) (key : ν → κ) {vs vs' : List ν}
    (h : vs.Perm vs') {k : κ}
    (hk : k ∈ m ∨ ∀ v ∈ vs, ∀ w ∈ vs, key v = k → key w = k → v = w) :
    (m.insertAll key vs).get k = (m.insertAll key vs').get k := by
  rw [get_insertAll, get_insertAll]
  rcases hk with hk | hone
  · obtain ⟨v, hv⟩ := mem_iff.mp hk
    rw [hv, Option.some_or, Option.some_or]
  · congr 1
    cases hfind : vs.find? fun v => key v = k with
    | none =>
      rw [List.find?_eq_none] at hfind
      exact (List.find?_eq_none.mpr fun v hv => hfind v (h.mem_iff.mpr hv)).symm
    | some v =>
      have hv := List.mem_of_find?_eq_some hfind
      have hkv : key v = k := by simpa using List.find?_some hfind
      have hsome : (vs'.find? fun v => key v = k).isSome :=
        List.find?_isSome.mpr ⟨v, h.mem_iff.mp hv, by simpa using hkv⟩
      obtain ⟨w, hw⟩ := Option.isSome_iff_exists.mp hsome
      have hkw : key w = k := by simpa using List.find?_some hw
      rw [hw, hone v hv w (h.mem_iff.mpr (List.mem_of_find?_eq_some hw)) hkv hkw]

/-- Which keys are stored does not depend on the order of the values. -/
theorem len_insertAll_of_perm (m : FinMap κ ν) (key : ν → κ) {vs vs' : List ν}
    (h : vs.Perm vs') : (m.insertAll key vs).len = (m.insertAll key vs').len :=
  le_antisymm
    (len_le_of_subset fun k hk => by
      rw [mem_insertAll] at hk ⊢
      simpa only [h.mem_iff] using hk)
    (len_le_of_subset fun k hk => by
      rw [mem_insertAll] at hk ⊢
      simpa only [h.mem_iff] using hk)

theorem len_le_insertAll (m : FinMap κ ν) (key : ν → κ) (vs : List ν) :
    m.len ≤ (m.insertAll key vs).len :=
  len_le_of_subset fun _ hk => mem_insertAll.mpr (Or.inl hk)

end Updates

/-- Keep the entries whose key satisfies `P`. -/
def retainKeys (m : FinMap κ ν) (P : κ → Bool) : FinMap κ ν where
  get k := if P k then m.get k else none
  keys := m.keys.filter fun k => P k
  mem_keys k := by by_cases h : P k <;> simp [h, m.mem_keys]

theorem get_retainKeys (m : FinMap κ ν) (P : κ → Bool) (k : κ) :
    (m.retainKeys P).get k = if P k then m.get k else none := rfl

theorem mem_retainKeys {m : FinMap κ ν} {P : κ → Bool} {k : κ} :
    k ∈ m.retainKeys P ↔ k ∈ m ∧ P k := Finset.mem_filter

/-- Rewrite every value. -/
def mapValues {ν' : Type*} (m : FinMap κ ν) (f : ν → ν') : FinMap κ ν' where
  get k := (m.get k).map f
  keys := m.keys
  mem_keys k := by rw [m.mem_keys, Option.isSome_map]

theorem get_mapValues {ν' : Type*} (m : FinMap κ ν) (f : ν → ν') (k : κ) :
    (m.mapValues f).get k = (m.get k).map f := rfl

/-- Keep the entries whose value satisfies `P`. -/
def retain (m : FinMap κ ν) (P : ν → Bool) : FinMap κ ν where
  get k := (m.get k).filter P
  keys := m.keys.filter fun k => (m.get k).any P
  mem_keys k := by
    rw [Finset.mem_filter, m.mem_keys]
    cases m.get k with
    | none => simp
    | some v => by_cases hv : P v <;> simp [Option.filter, hv]

theorem get_retain_some {m : FinMap κ ν} {P : ν → Bool} {k : κ} {v : ν} :
    (m.retain P).get k = some v ↔ m.get k = some v ∧ P v := by
  simp [retain, Option.filter_eq_some_iff]

/-- One order in which the entries of `m` are met by a scan. -/
structure Iteration (m : FinMap κ ν) where
  order : List κ
  nodup : order.Nodup
  complete : ∀ k, k ∈ order ↔ k ∈ m

namespace Iteration

variable {m : FinMap κ ν}

def values (it : m.Iteration) : List ν := it.order.filterMap m.get

theorem mem_values {it : m.Iteration} {v : ν} : v ∈ it.values ↔ ∃ k, m.get k = some v := by
  simp only [values, List.mem_filterMap, it.complete]
  exact ⟨fun ⟨k, _, h⟩ => ⟨k, h⟩, fun ⟨k, h⟩ => ⟨k, mem_of_get h, h⟩⟩

/-- The entries in the order of the scan. -/
def entries (it : m.Iteration) : List (κ × ν) :=
  it.order.filterMap fun k => (m.get k).map fun v => (k, v)

theorem mem_entries {it : m.Iteration} {e : κ × ν} : e ∈ it.entries ↔ m.get e.1 = some e.2 := by
  simp only [entries, List.mem_filterMap, Option.map_eq_some_iff, it.complete]
  constructor
  · rintro ⟨k, -, v, hv, rfl⟩
    exact hv
  · intro h
    exact ⟨e.1, mem_of_get h, e.2, h, rfl⟩

theorem map_snd_entries (it : m.Iteration) : it.entries.map Prod.snd = it.values := by
  rw [entries, values, List.map_filterMap]
  congr 1
  funext k
  cases m.get k <;> rfl

theorem map_fst_entries (it : m.Iteration) : it.entries.map Prod.fst = it.order := by
  rw [entries, List.map_filterMap]
  have hall : ∀ k ∈ it.order, ((m.get k).map fun v => (k, v)).map Prod.fst = some k := by
    intro k hk
    obtain ⟨v, hv⟩ := mem_iff.mp ((it.complete k).mp hk)
    rw [hv, Option.map_some, Option.map_some]
  rw [List.filterMap_congr hall]
  exact List.filterMap_some

theorem nodup_entries (it : m.Iteration) : it.entries.Nodup :=
  List.Nodup.of_map Prod.fst (it.map_fst_entries ▸ it.nodup)

/-- Two scans meet the same entries. -/
theorem entries_perm (it it' : m.Iteration) : it.entries.Perm it'.entries :=
  (List.perm_ext_iff_of_nodup it.nodup_entries it'.nodup_entries).mpr fun e => by
    rw [mem_entries, mem_entries]

/-- Where the values name their own keys, a scan meets every key once. -/
theorem map_values {f : ν → κ} (h : ∀ k v, m.get k = some v → f v = k) (it : m.Iteration) :
    it.values.map f = it.order := by
  rw [values, List.map_filterMap]
  have hall : ∀ k ∈ it.order, (m.get k).map f = some k := by
    intro k hk
    obtain ⟨v, hv⟩ := mem_iff.mp ((it.complete k).mp hk)
    rw [hv, Option.map_some, h k v hv]
  rw [List.filterMap_congr hall]
  exact List.filterMap_some

/-- Counting along any scan counts the entries of the map. -/
theorem countP_values (it : m.Iteration) (P : ν → Bool) : it.values.countP P = m.countP P := by
  classical
  have hlist : it.values.countP P = (it.order.filter fun k => (m.get k).any P).length := by
    rw [values, List.countP_filterMap, List.countP_eq_length_filter]
    congr 2
    funext k
    cases m.get k <;> rfl
  have hset : (it.order.filter fun k => (m.get k).any P).toFinset =
      m.keys.filter fun k => (m.get k).any P := Finset.ext fun k => by
    simp only [List.mem_toFinset, List.mem_filter, it.complete, Finset.mem_filter]
    rfl
  rw [hlist, countP, ← hset, List.toFinset_card_of_nodup (it.nodup.filter _)]

/-- Any rearrangement of a scan is a scan. -/
def permute (it : m.Iteration) (order : List κ) (h : order.Perm it.order) : m.Iteration where
  order := order
  nodup := h.nodup_iff.mpr it.nodup
  complete k := h.mem_iff.trans (it.complete k)

private theorem values_forall₂ (ks : List κ) (h : ∀ k ∈ ks, k ∈ m) :
    List.Forall₂ (fun v k => m.get k = some v) (ks.filterMap m.get) ks := by
  induction ks with
  | nil => exact .nil
  | cons k ks ih =>
    obtain ⟨v, hv⟩ := mem_iff.mp (h k (by simp))
    rw [List.filterMap_cons_some hv]
    exact .cons hv (ih fun j hj => h j (by simp [hj]))

private theorem filterMap_of_forall₂ {vs : List ν} {ks : List κ}
    (h : List.Forall₂ (fun v k => m.get k = some v) vs ks) : ks.filterMap m.get = vs := by
  induction h with
  | nil => rfl
  | cons hv _ ih => rw [List.filterMap_cons_some hv, ih]

/-- Every rearrangement of the values is met by some scan. -/
theorem exists_values_of_perm (it : m.Iteration) {vs : List ν} (h : vs.Perm it.values) :
    ∃ it' : m.Iteration, it'.values = vs := by
  have hall := values_forall₂ it.order fun k hk => (it.complete k).mp hk
  obtain ⟨order, horder, hperm⟩ := List.perm_comp_forall₂ h hall
  exact ⟨it.permute order hperm, filterMap_of_forall₂ horder⟩

/-- Every rearrangement of the entries is met by some scan. -/
theorem exists_entries_of_perm (it : m.Iteration) {es : List (κ × ν)} (h : es.Perm it.entries) :
    ∃ it' : m.Iteration, it'.entries = es := by
  refine ⟨it.permute (es.map Prod.fst) (it.map_fst_entries ▸ h.map Prod.fst), ?_⟩
  have hall : ∀ e ∈ es, (m.get e.1).map (fun v => (e.1, v)) = some e := by
    intro e he
    rw [mem_entries.mp (h.mem_iff.mp he), Option.map_some]
  change (es.map Prod.fst).filterMap _ = es
  rw [List.filterMap_map]
  exact (List.filterMap_congr hall).trans List.filterMap_some

theorem nonempty (m : FinMap κ ν) : Nonempty m.Iteration :=
  ⟨⟨m.keys.toList, m.keys.nodup_toList, fun _ => Finset.mem_toList⟩⟩

end Iteration

end FinMap
