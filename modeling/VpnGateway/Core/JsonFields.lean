import VpnGateway.Core.Json

/-! Decoders that accept one document for each value, and the fields of a struct read with them. -/
namespace Json

variable {α β : Type}

/-- The decoder accepts exactly what the encoder writes. -/
def Exact (encode : α → Json) (decode : Json → Option α) : Prop :=
  ∀ j a, decode j = some a ↔ j = encode a

theorem Exact.injective {encode : α → Json} {decode : Json → Option α} (h : Exact encode decode)
    {a b : α} : encode a = encode b ↔ a = b := by
  refine ⟨fun hab => ?_, fun hab => by rw [hab]⟩
  have ha : decode (encode a) = some a := (h _ _).mpr rfl
  rw [hab, (h _ _).mpr rfl] at ha
  exact (Option.some.inj ha).symm

theorem exact_bool : Exact bool decodeBool := by
  intro j b
  cases j <;> simp [decodeBool]

theorem exact_string : Exact str decodeString := by
  intro j s
  cases j <;> simp [decodeString]

/-- A fixed-width type that is read through the naturals below its bound. -/
theorem exact_uint {bound : ℕ} {toNat : α → ℕ} {ofNat : ℕ → α} (hlt : ∀ a, toNat a < bound)
    (hto : ∀ a, ofNat (toNat a) = a) (hof : ∀ n, n < bound → toNat (ofNat n) = n) :
    Exact (fun a => int (toNat a)) fun j => (decodeUint bound j).map ofNat := by
  intro j a
  constructor
  · intro h
    obtain ⟨n, hn, rfl⟩ := Option.map_eq_some_iff.mp h
    cases j with
    | int m =>
      obtain ⟨⟨hpos, hm⟩, hnat⟩ := Option.ite_none_right_eq_some.mp hn
      obtain rfl := Option.some.inj hnat
      have hnat : toNat (ofNat m.toNat) = m.toNat := hof _ (by omega)
      show int m = int (toNat (ofNat m.toNat))
      rw [hnat, Int.toNat_of_nonneg hpos]
    | _ => cases hn
  · rintro rfl
    simp only [decodeUint_int (hlt a), Option.map_some, hto]

theorem exact_vec {encode : α → Json} {decode : Json → Option α} (h : Exact encode decode) :
    Exact (fun items => arr (items.map encode)) (decodeVec decode) := by
  have hitems : ∀ js as, List.mapM decode js = some as ↔ js = as.map encode := by
    intro js
    induction js with
    | nil =>
      intro as
      cases as <;> simp
    | cons j js ih =>
      intro as
      rw [List.mapM_cons]
      constructor
      · intro hall
        obtain ⟨a, ha, hrest⟩ := Option.bind_eq_some_iff.mp hall
        obtain ⟨bs, hbs, hcons⟩ := Option.bind_eq_some_iff.mp hrest
        obtain rfl := Option.some.inj hcons
        rw [List.map_cons, (h j a).mp ha, (ih bs).mp hbs]
      · intro hall
        cases as with
        | nil => cases hall
        | cons a as =>
          obtain ⟨hj, hjs⟩ := List.cons.inj hall
          rw [(h j a).mpr hj, (ih as).mpr hjs]
          rfl
  intro j as
  cases j with
  | arr items => rw [decodeVec, hitems, arr.injEq]
  | _ => simp [decodeVec]

theorem exact_option {encode : α → Json} {decode : Json → Option α} (h : Exact encode decode)
    (hne : ∀ a, encode a ≠ null) : Exact (encodeOption encode) (decodeOption decode) := by
  intro j x
  have hother : j ≠ null → (decodeOption decode j = some x ↔ j = encodeOption encode x) := by
    intro hj
    have hmap : decodeOption decode j = (decode j).map some := by
      cases j <;> first | rfl | exact absurd rfl hj
    rw [hmap, Option.map_eq_some_iff]
    cases x with
    | none => simpa [encodeOption] using hj
    | some a =>
      rw [encodeOption, ← h j a]
      simp
  by_cases hj : j = null
  · subst hj
    cases x with
    | none => simp [decodeOption, encodeOption]
    | some a => simpa [decodeOption, encodeOption] using (hne a).symm
  · exact hother hj

/-- A field with a default is its one member, or is missing and has the default. -/
theorem field_eq_some_iff {encode : α → Json} {decode : Json → Option α}
    (h : Exact encode decode) {name : String} {missing a : α} {j : Json} :
    field name decode (some missing) j = some a ↔
      j.valuesOf name = [encode a] ∨
        j.valuesOf name = [] ∧ (name, encode a) = (name, encode missing) := by
  rw [Prod.mk.injEq, and_iff_right rfl, h.injective, eq_comm (a := a)]
  unfold field
  cases hvalues : j.valuesOf name with
  | nil => simp
  | cons value rest =>
    cases rest with
    | nil => simp [h value a]
    | cons value' rest => simp

theorem valuesOf_cons (name : String) (member : String × Json) (members : List (String × Json)) :
    (obj (member :: members)).valuesOf name =
      if member.1 = name then member.2 :: (obj members).valuesOf name
      else (obj members).valuesOf name := by
  unfold valuesOf
  by_cases h : member.1 = name <;> simp [h]

theorem valuesOf_of_notMem {name : String} {members : List (String × Json)}
    (h : name ∉ members.map Prod.fst) : (obj members).valuesOf name = [] := by
  rw [valuesOf, List.map_eq_nil_iff, List.filter_eq_nil_iff]
  exact fun member hmem heq => h (of_decide_eq_true heq ▸ List.mem_map_of_mem hmem)

/-- Named by position, a document has the members that its items reach. -/
theorem valuesOf_zip {names : List String} (h : names.Nodup) (items : List Json) {i : ℕ}
    (hi : i < names.length) : (obj (names.zip items)).valuesOf names[i] = items[i]?.toList := by
  induction names generalizing items i with
  | nil => exact absurd hi (Nat.not_lt_zero i)
  | cons name names ih =>
    obtain ⟨hnotin, hnodup⟩ := List.nodup_cons.mp h
    cases items with
    | nil => simp [valuesOf]
    | cons item items =>
      rw [List.zip_cons_cons, valuesOf_cons]
      cases i with
      | zero =>
        have hrest : name ∉ (names.zip items).map Prod.fst := by
          intro hmem
          obtain ⟨⟨name, value⟩, hpair, rfl⟩ := List.mem_map.mp hmem
          exact hnotin (List.of_mem_zip hpair).1
        simp [valuesOf_of_notMem hrest]
      | succ i =>
        have hi' : i < names.length := by simpa using hi
        have hne : name ≠ names[i] := fun heq => hnotin (heq ▸ List.getElem_mem hi')
        simpa [hne] using ih hnodup items hi'

end Json
