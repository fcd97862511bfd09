import Mathlib

/-! JSON documents, and decoding them the way serde's derived code does: members are found by
name, unknown ones are skipped, and a name that occurs twice is an error. -/

inductive Json where
  | null
  | bool (b : Bool)
  | int (n : ℤ)
  | float (q : ℚ)
  | str (s : String)
  | arr (items : List Json)
  | obj (members : List (String × Json))

namespace Json

variable {α : Type}

def decodeBool : Json → Option Bool
  | bool b => some b
  | _ => none

def decodeString : Json → Option String
  | str s => some s
  | _ => none

/-- An unsigned integer below the bound of its type. -/
def decodeUint (bound : ℕ) : Json → Option ℕ
  | int n => if 0 ≤ n ∧ n < bound then some n.toNat else none
  | _ => none

def decodeNat : Json → Option ℕ
  | int n => if 0 ≤ n then some n.toNat else none
  | _ => none

/-- The largest finite `f64`. -/
def f64Max : ℚ := (2 ^ 53 - 1) * 2 ^ 971

/-- A float is a number, unless it is too large to be finite: then it is written as null. -/
def encodeFloat (q : ℚ) : Json := if |q| ≤ f64Max then float q else null

def decodeFloat : Json → Option ℚ
  | float q => if |q| ≤ f64Max then some q else none
  | int n => if |(n : ℚ)| ≤ f64Max then some n else none
  | _ => none

def encodeOption (encode : α → Json) : Option α → Json
  | none => null
  | some a => encode a

def decodeOption (decode : Json → Option α) : Json → Option (Option α)
  | null => some none
  | j => (decode j).map some

def decodeVec (decode : Json → Option α) : Json → Option (List α)
  | arr items => items.mapM decode
  | _ => none

/-- The values of the members with this name. -/
def valuesOf (name : String) : Json → List Json
  | obj members => (members.filter fun member => member.1 = name).map Prod.snd
  | _ => []

/-- A field of a struct, with the value that stands for a missing one if there is any. -/
def field (name : String) (decode : Json → Option α) (missing : Option α) (j : Json) : Option α :=
  match j.valuesOf name with
  | [] => missing
  | [value] => decode value
  | _ => none

theorem field_of_valuesOf {name : String} {decode : Json → Option α} {missing : Option α}
    {j value : Json} (h : j.valuesOf name = [value]) :
    field name decode missing j = decode value := by
  simp only [field, h]

theorem field_missing {name : String} {decode : Json → Option α} {missing : Option α} {j : Json}
    (h : j.valuesOf name = []) : field name decode missing j = missing := by
  simp only [field, h]

theorem exists_of_field {name : String} {decode : Json → Option α} {j : Json} {a : α}
    (h : field name decode none j = some a) : ∃ value, decode value = some a := by
  unfold field at h
  split at h
  · cases h
  · exact ⟨_, h⟩
  · cases h

theorem le_f64Max {q : ℚ} (h : q ≤ 2 ^ 53 - 1) : q ≤ f64Max :=
  h.trans (le_mul_of_one_le_right (by norm_num) (one_le_pow₀ (by norm_num)))

theorem decodeUint_int {bound n : ℕ} (h : n < bound) : decodeUint bound (int n) = some n := by
  simp [decodeUint, h]

@[simp] theorem decodeNat_int (n : ℕ) : decodeNat (int n) = some n := by simp [decodeNat]

/-- Exactly the finite floats survive. -/
theorem decodeFloat_encodeFloat (q : ℚ) :
    decodeFloat (encodeFloat q) = if |q| ≤ f64Max then some q else none := by
  unfold encodeFloat
  split_ifs with h
  · simp only [decodeFloat, if_pos h]
  · rfl

theorem le_f64Max_of_decodeFloat {j : Json} {q : ℚ} (h : decodeFloat j = some q) :
    |q| ≤ f64Max := by
  cases j with
  | float r =>
    obtain ⟨hle, hr⟩ := Option.ite_none_right_eq_some.mp h
    rwa [← Option.some.inj hr]
  | int n =>
    obtain ⟨hle, hr⟩ := Option.ite_none_right_eq_some.mp h
    rwa [← Option.some.inj hr]
  | _ => cases h

theorem decodeOption_encodeOption {encode : α → Json} {decode : Json → Option α} {x : Option α}
    (hne : ∀ a, encode a ≠ null) (h : ∀ a ∈ x, decode (encode a) = some a) :
    decodeOption decode (encodeOption encode x) = some x := by
  cases x with
  | none => rfl
  | some a =>
    have hsome : decodeOption decode (encode a) = (decode (encode a)).map some := by
      cases hj : encode a <;> first | rfl | exact absurd hj (hne a)
    rw [encodeOption, hsome, h a rfl, Option.map_some]

theorem decodeVec_map {β : Type} {encode : β → Json} {decode : Json → Option α} {f : β → α}
    {items : List β} (h : ∀ b ∈ items, decode (encode b) = some (f b)) :
    decodeVec decode (arr (items.map encode)) = some (items.map f) := by
  induction items with
  | nil => rfl
  | cons b items ih =>
    obtain ⟨hb, hitems⟩ := List.forall_mem_cons.mp h
    have hrest : (items.map encode).mapM decode = some (items.map f) := ih hitems
    show ((b :: items).map encode).mapM decode = _
    rw [List.map_cons, List.mapM_cons, hb, hrest]
    rfl

end Json
