import VpnGateway.Core.Text

/-! Decimal numerals: which texts the number parsers accept, and for which numbers. -/
namespace Text

/-- The decimal numeral of a number, without zeros in front. -/
def numeral (n : ℕ) : List Char := Nat.toDigits 10 n

theorem toList_toString (n : ℕ) : (toString n).toList = numeral n := by
  rw [Nat.toString_eq_repr, Nat.toList_repr, numeral]

theorem numeral_injective {m n : ℕ} (h : numeral m = numeral n) : m = n := by
  rw [← toList_toString, ← toList_toString] at h
  exact toString_nat_injective (String.toList_inj.mp h)

theorem isDigit_of_mem_numeral {c : Char} {n : ℕ} (h : c ∈ numeral n) : c.isDigit :=
  Nat.isDigit_of_mem_toDigits (by norm_num) (by norm_num) h

theorem numeral_ne_nil (n : ℕ) : numeral n ≠ [] := Nat.toDigits_ne_nil

theorem notMem_numeral {c : Char} (hc : c.isDigit = false) (n : ℕ) : c ∉ numeral n := by
  intro hmem
  rw [isDigit_of_mem_numeral hmem] at hc
  cases hc

theorem numeral_of_digit {c : Char} {d : ℕ} (h : digit c = some d) : d < 10 ∧ numeral d = [c] := by
  unfold digit at h
  split_ifs at h with hc
  obtain rfl := Option.some.inj h
  have hlow : 48 ≤ c.toNat := UInt32.le_iff_toNat_le.mp hc.1
  have hhigh : c.toNat ≤ 57 := UInt32.le_iff_toNat_le.mp hc.2
  have hlt : c.toNat - 48 < 10 := by omega
  have hchar : (c.toNat - 48).digitChar = c := by
    rw [← Char.toNat_inj, Nat.toNat_digitChar_of_lt_ten hlt]
    omega
  exact ⟨hlt, by rw [numeral, Nat.toDigits_of_lt_base hlt, hchar]⟩

theorem pushDigit_eq_some {bound n m : ℕ} {c : Char} (h : pushDigit bound n c = some m) :
    ∃ d, digit c = some d ∧ m = n * 10 + d ∧ m < bound := by
  obtain ⟨d, hd, hm⟩ := Option.bind_eq_some_iff.mp h
  rw [Option.ite_none_right_eq_some, Option.some.injEq] at hm
  exact ⟨d, hd, hm.2.symm, hm.2 ▸ hm.1⟩

/-- A positive number's digits go on with those that are read after it. -/
theorem numeral_of_pushDigits {bound n v : ℕ} {digits : List Char} (hn : 0 < n)
    (h : digits.foldlM (pushDigit bound) n = some v) : numeral v = numeral n ++ digits := by
  induction digits generalizing n with
  | nil =>
    obtain rfl := Option.some.inj h
    exact (List.append_nil _).symm
  | cons c digits ih =>
    rw [List.foldlM_cons] at h
    obtain ⟨m, hpush, hrest⟩ := Option.bind_eq_some_iff.mp h
    obtain ⟨d, hd, rfl, -⟩ := pushDigit_eq_some hpush
    obtain ⟨hlt, hc⟩ := numeral_of_digit hd
    have hnext : numeral (n * 10 + d) = numeral n ++ [c] := by
      rw [← hc, Nat.mul_comm, numeral, numeral, numeral,
        Nat.toDigits_append_toDigits (by norm_num) hn hlt]
    rw [ih (by omega) hrest, hnext, List.append_assoc, List.singleton_append]

theorem lt_of_pushDigits {bound n v : ℕ} {digits : List Char} (hn : n < bound)
    (h : digits.foldlM (pushDigit bound) n = some v) : v < bound := by
  induction digits generalizing n with
  | nil => exact Option.some.inj h ▸ hn
  | cons c digits ih =>
    rw [List.foldlM_cons] at h
    obtain ⟨m, hpush, hrest⟩ := Option.bind_eq_some_iff.mp h
    obtain ⟨d, -, -, hm⟩ := pushDigit_eq_some hpush
    exact ih hm hrest

theorem foldlM_numeral {bound v : ℕ} (hv : v < bound) :
    (numeral v).foldlM (pushDigit bound) 0 = some v := by
  have hdigits : ∀ c ∈ numeral v, c.isDigit := fun _ hc => isDigit_of_mem_numeral hc
  have hvalue : Nat.ofDigitChars 10 (numeral v) 0 = v := Nat.ofDigitChars_ten_toDigits
  rw [foldlM_pushDigit hdigits (by rwa [hvalue]), hvalue]

theorem foldlM_zeros {bound : ℕ} (hbound : 0 < bound) (zeros : ℕ) (digits : List Char) :
    (List.replicate zeros '0' ++ digits).foldlM (pushDigit bound) 0 =
      digits.foldlM (pushDigit bound) 0 := by
  induction zeros with
  | zero => rfl
  | succ zeros ih =>
    have hzero : pushDigit bound 0 '0' = some 0 := by simp [pushDigit, digit, hbound]
    rw [List.replicate_succ, List.cons_append, List.foldlM_cons, hzero]
    exact ih

/-- The digits that are read as a number are its numeral behind any number of zeros. -/
theorem foldlM_pushDigit_iff {bound v : ℕ} (hbound : 0 < bound) {digits : List Char}
    (hne : digits ≠ []) : digits.foldlM (pushDigit bound) 0 = some v ↔
      v < bound ∧ ∃ zeros, digits = List.replicate zeros '0' ++ numeral v := by
  constructor
  · intro h
    refine ⟨lt_of_pushDigits hbound h, ?_⟩
    induction digits with
    | nil => exact absurd rfl hne
    | cons c digits ih =>
      rw [List.foldlM_cons] at h
      obtain ⟨m, hpush, hrest⟩ := Option.bind_eq_some_iff.mp h
      obtain ⟨d, hd, hm, -⟩ := pushDigit_eq_some hpush
      obtain rfl : m = d := by omega
      have hc := (numeral_of_digit hd).2
      rcases Nat.eq_zero_or_pos m with rfl | hpos
      · -- a zero in front
        have hzero : c = '0' := (List.cons.inj hc).1.symm
        by_cases hdigits : digits = []
        · subst hdigits
          obtain rfl := Option.some.inj hrest
          exact ⟨0, by rw [hc]; rfl⟩
        · obtain ⟨zeros, htail⟩ := ih hdigits hrest
          exact ⟨zeros + 1, by rw [htail, hzero, List.replicate_succ, List.cons_append]⟩
      · exact ⟨0, by rw [numeral_of_pushDigits hpos hrest, hc]; rfl⟩
  · rintro ⟨hv, zeros, rfl⟩
    rw [foldlM_zeros hbound, foldlM_numeral hv]

/-- A port is read from its numeral, behind any number of zeros and perhaps a plus sign. -/
theorem parseU16_iff {s : List Char} {n : ℕ} : parseU16 s = some n ↔
    n < 65536 ∧ ∃ sign zeros, (sign = [] ∨ sign = ['+']) ∧
      s = sign ++ List.replicate zeros '0' ++ numeral n := by
  have hplus : ∀ digits : List Char, digits ≠ [] → parseU16 ('+' :: digits) =
      digits.foldlM (pushDigit 65536) 0 := by
    intro digits hne
    cases digits with
    | nil => exact absurd rfl hne
    | cons c digits => rfl
  have hbare : ∀ digits : List Char, digits ≠ [] → digits.head? ≠ some '+' → parseU16 digits =
      digits.foldlM (pushDigit 65536) 0 := by
    intro digits hne hhead
    unfold parseU16
    split
    · exact absurd rfl hne
    · exact absurd rfl hhead
    · exact absurd rfl hhead
    · rfl
  constructor
  · intro h
    by_cases hne : s = []
    · subst hne
      cases h
    by_cases hhead : s.head? = some '+'
    · obtain ⟨digits, rfl⟩ : ∃ digits, s = '+' :: digits := List.head?_eq_some_iff.mp hhead
      by_cases hdigits : digits = []
      · subst hdigits
        cases h
      · rw [hplus digits hdigits, foldlM_pushDigit_iff (by norm_num) hdigits] at h
        obtain ⟨hn, zeros, rfl⟩ := h
        exact ⟨hn, ['+'], zeros, Or.inr rfl, rfl⟩
    · rw [hbare s hne hhead, foldlM_pushDigit_iff (by norm_num) hne] at h
      obtain ⟨hn, zeros, rfl⟩ := h
      exact ⟨hn, [], zeros, Or.inl rfl, rfl⟩
  · rintro ⟨hn, sign, zeros, hsign, rfl⟩
    have hne : List.replicate zeros '0' ++ numeral n ≠ [] := by simp [numeral_ne_nil]
    have hfold := (foldlM_pushDigit_iff (by norm_num) hne).mpr ⟨hn, zeros, rfl⟩
    rcases hsign with rfl | rfl
    · rw [List.nil_append, hbare _ hne, hfold]
      intro hhead
      have hmem := List.mem_of_mem_head? hhead
      rw [List.mem_append] at hmem
      rcases hmem with hmem | hmem
      · exact absurd (List.eq_of_mem_replicate hmem) (by decide)
      · exact notMem_numeral rfl n hmem
    · rw [List.append_assoc, List.singleton_append, hplus _ hne, hfold]

end Text
