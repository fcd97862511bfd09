import Mathlib

/-! UTF-8 as a machine that takes one byte at a time. What is no part of a character is
reported once for every maximal prefix of one, as the Unicode standard recommends. -/
namespace Utf8

/-- Between characters, or inside one: how many bytes follow the next one, the range the next
one must be in, and the bits so far. -/
inductive State where
  | start
  | tail (remaining low high acc : ℕ)

/-- The first byte of a character; `none` stands for a malformed sequence. -/
def first (b : ℕ) : List (Option Char) × State :=
  if b < 0x80 then ([some (Char.ofNat b)], .start)
  else if b < 0xC2 then ([none], .start)
  else if b < 0xE0 then ([], .tail 0 0x80 0xBF (b - 0xC0))
  else if b = 0xE0 then ([], .tail 1 0xA0 0xBF 0)
  else if b = 0xED then ([], .tail 1 0x80 0x9F 0xD)
  else if b < 0xF0 then ([], .tail 1 0x80 0xBF (b - 0xE0))
  else if b = 0xF0 then ([], .tail 2 0x90 0xBF 0)
  else if b < 0xF4 then ([], .tail 2 0x80 0xBF (b - 0xF0))
  else if b = 0xF4 then ([], .tail 2 0x80 0x8F 4)
  else ([none], .start)

def step : State → ℕ → List (Option Char) × State
  | .start, b => first b
  | .tail remaining low high acc, b =>
    if low ≤ b ∧ b ≤ high then
      match remaining with
      | 0 => ([some (Char.ofNat (acc * 64 + (b - 0x80)))], .start)
      | n + 1 => ([], .tail n 0x80 0xBF (acc * 64 + (b - 0x80)))
    else (none :: (first b).1, (first b).2)

def decodeFrom : State → List UInt8 → List (Option Char)
  | .start, [] => []
  | .tail _ _ _ _, [] => [none]
  | s, b :: bs => (step s b.toNat).1 ++ decodeFrom (step s b.toNat).2 bs

/-- `String::from_utf8`. -/
def decode (bs : List UInt8) : Option (List Char) := (decodeFrom .start bs).mapM id

/-- `String::from_utf8_lossy`. -/
def decodeLossy (bs : List UInt8) : List Char :=
  (decodeFrom .start bs).map fun c => c.getD (Char.ofNat 0xFFFD)

/-- `str::as_bytes`. -/
def encode (s : String) : List UInt8 := s.toList.flatMap String.utf8EncodeChar

theorem encode_append (s t : String) : encode (s ++ t) = encode s ++ encode t := by
  simp [encode, String.toList_append]

/-! What the machine keeps: a character it assembles is valid, and no ASCII character. -/

/-- The characters that the next bytes can still complete. -/
def State.Valid : State → Prop
  | .start => True
  | .tail remaining low high acc =>
    0x80 ≤ low ∧ ∀ v, (acc * 64 + (low - 0x80)) * 64 ^ remaining ≤ v →
      v < (acc * 64 + (high - 0x80) + 1) * 64 ^ remaining → v.isValidChar ∧ 0x80 ≤ v

theorem start_valid : State.start.Valid := True.intro

theorem first_valid {b : ℕ} : (first b).2.Valid := by
  unfold first
  split_ifs
  all_goals first
    | exact True.intro
    | refine ⟨by omega, fun v hlow hhigh => ?_⟩
      norm_num only at hlow hhigh
      unfold Nat.isValidChar
      omega

/-- What one byte completes is a character of at least two bytes, or the byte itself. -/
theorem mem_step {s : State} (h : s.Valid) {b : ℕ} {c : Char} (hc : c.toNat < 0x80)
    (hmem : some c ∈ (step s b).1) : b = c.toNat := by
  have hfirst : some c ∈ (first b).1 → b = c.toNat := by
    unfold first
    split_ifs with hb
    · intro hin
      rw [List.mem_singleton, Option.some.injEq] at hin
      rw [hin, Char.toNat_ofNat, if_pos (by unfold Nat.isValidChar; omega)]
    all_goals simp
  cases s with
  | start => exact hfirst hmem
  | tail remaining low high acc =>
    unfold step at hmem
    dsimp only at hmem
    split_ifs at hmem with hb
    · cases remaining with
      | zero =>
        obtain ⟨hvalid, hge⟩ := h.2 (acc * 64 + (b - 0x80)) (by simp; omega) (by simp; omega)
        rw [List.mem_singleton, Option.some.injEq] at hmem
        rw [hmem, Char.toNat_ofNat, if_pos hvalid] at hc
        omega
      | succ n => cases hmem
    · exact hfirst (by simpa using hmem)

theorem step_valid {s : State} (h : s.Valid) (b : ℕ) : (step s b).2.Valid := by
  cases s with
  | start => exact first_valid
  | tail remaining low high acc =>
    obtain ⟨hlow, hchar⟩ := h
    unfold step
    dsimp only
    split_ifs with hb
    · cases remaining with
      | zero => trivial
      | succ n =>
        refine ⟨le_rfl, fun v hv hv' => hchar v ?_ ?_⟩
        · calc (acc * 64 + (low - 0x80)) * 64 ^ (n + 1)
              ≤ (acc * 64 + (b - 0x80)) * 64 ^ (n + 1) := by gcongr; exact hb.1
            _ = ((acc * 64 + (b - 0x80)) * 64 + (0x80 - 0x80)) * 64 ^ n := by ring
            _ ≤ v := hv
        · calc v < ((acc * 64 + (b - 0x80)) * 64 + (0xBF - 0x80) + 1) * 64 ^ n := hv'
            _ = (acc * 64 + (b - 0x80) + 1) * 64 ^ (n + 1) := by norm_num; ring
            _ ≤ (acc * 64 + (high - 0x80) + 1) * 64 ^ (n + 1) := by gcongr; exact hb.2
    · exact first_valid

/-- The characters that are complete, and the state behind them. -/
def run : State → List UInt8 → List (Option Char) × State
  | s, [] => ([], s)
  | s, b :: bs =>
    ((step s b.toNat).1 ++ (run (step s b.toNat).2 bs).1, (run (step s b.toNat).2 bs).2)

theorem decodeFrom_cons (s : State) (b : UInt8) (bs : List UInt8) :
    decodeFrom s (b :: bs) = (step s b.toNat).1 ++ decodeFrom (step s b.toNat).2 bs := by
  cases s <;> rfl

theorem decodeFrom_append (s : State) (a b : List UInt8) :
    decodeFrom s (a ++ b) = (run s a).1 ++ decodeFrom (run s a).2 b := by
  induction a generalizing s with
  | nil => rfl
  | cons x a ih =>
    rw [List.cons_append, decodeFrom_cons, ih, run, List.append_assoc]

theorem run_valid {s : State} (h : s.Valid) (a : List UInt8) : (run s a).2.Valid := by
  induction a generalizing s with
  | nil => exact h
  | cons x a ih => exact ih (step_valid h x.toNat)

theorem mapM_id_eq_some {α : Type} {l : List (Option α)} {x : List α} :
    l.mapM id = some x ↔ l = x.map some := by
  induction l generalizing x with
  | nil => cases x <;> simp
  | cons o l ih =>
    cases o with
    | none => cases x <;> simp
    | some a =>
      cases x with
      | nil => simp [Option.bind_eq_some_iff]
      | cons b x => simp [Option.bind_eq_some_iff, ih, and_comm]

theorem decode_eq_some_iff {bs : List UInt8} {x : List Char} :
    decode bs = some x ↔ decodeFrom .start bs = x.map some :=
  mapM_id_eq_some

/-- A text that decodes ends between characters. -/
theorem run_of_decode {a : List UInt8} {x : List Char} (h : decode a = some x) :
    run .start a = (x.map some, .start) := by
  have hall := decode_eq_some_iff.mp h
  have happ := decodeFrom_append .start a []
  rw [List.append_nil, hall] at happ
  cases hend : (run .start a).2 with
  | start =>
    rw [hend] at happ
    exact Prod.ext (by simpa [decodeFrom] using happ.symm) hend
  | tail remaining low high acc =>
    rw [hend] at happ
    have hmem : (none : Option Char) ∈ x.map some := by
      rw [happ]
      simp [decodeFrom]
    simp at hmem

theorem decode_append {a : List UInt8} {x : List Char} (h : decode a = some x)
    (b : List UInt8) : decode (a ++ b) = (decode b).map (x ++ ·) := by
  have hsplit : decodeFrom .start (a ++ b) = x.map some ++ decodeFrom .start b := by
    rw [decodeFrom_append, run_of_decode h]
  have hx : (x.map some).mapM id = some x := mapM_id_eq_some.mpr rfl
  rw [decode, decode, hsplit, List.mapM_append, hx]
  cases (decodeFrom .start b).mapM id <;> rfl

/-- An ASCII byte is a character by itself, whatever comes before it. -/
theorem decodeFrom_ascii {s : State} (h : s.Valid) (a : List UInt8) {c : UInt8}
    (hc : c.toNat < 0x80) (b : List UInt8) : decodeFrom s (a ++ c :: b) =
      decodeFrom s a ++ some (Char.ofNat c.toNat) :: decodeFrom .start b := by
  have hfirst : first c.toNat = ([some (Char.ofNat c.toNat)], .start) := if_pos hc
  have hend := decodeFrom_append s a []
  rw [List.append_nil] at hend
  rw [decodeFrom_append, hend, List.append_assoc]
  congr 1
  cases hs : (run s a).2 with
  | start =>
    rw [decodeFrom_cons, step, hfirst]
    rfl
  | tail remaining low high acc =>
    have hlow := run_valid h a
    rw [hs] at hlow
    have hout : ¬(low ≤ c.toNat ∧ c.toNat ≤ high) := fun hin => by
      have := hlow.1
      omega
    rw [decodeFrom_cons]
    simp only [step, if_neg hout, hfirst, decodeFrom, List.cons_append, List.nil_append]

/-- A text that decodes together with an ASCII byte behind it. -/
theorem decode_ascii {a : List UInt8} {c : UInt8} (hc : c.toNat < 0x80) {x : List Char}
    (h : decode (a ++ [c]) = some x) :
    ∃ y, decode a = some y ∧ x = y ++ [Char.ofNat c.toNat] := by
  have hall := decode_eq_some_iff.mp h
  rw [decodeFrom_ascii start_valid a hc] at hall
  obtain ⟨y, z, rfl, hy, hz⟩ := List.append_eq_map_iff.mp hall
  have hz' : z = [Char.ofNat c.toNat] := by
    cases z with
    | nil => cases hz
    | cons d z => cases z <;> simp_all [decodeFrom]
  exact ⟨y, decode_eq_some_iff.mpr hy.symm, by rw [hz']⟩

/-- An ASCII character of a decoded text is one of its bytes. -/
theorem ascii_of_mem_decodeFrom {s : State} (h : s.Valid) {a : List UInt8} {c : Char}
    (hc : c.toNat < 0x80) (hmem : some c ∈ decodeFrom s a) :
    ∃ b ∈ a, b.toNat = c.toNat := by
  induction a generalizing s with
  | nil => cases s <;> simp [decodeFrom] at hmem
  | cons x a ih =>
    rw [decodeFrom_cons, List.mem_append] at hmem
    rcases hmem with hmem | hmem
    · exact ⟨x, List.mem_cons_self, mem_step h hc hmem⟩
    · obtain ⟨b, hb, heq⟩ := ih (step_valid h x.toNat) hmem
      exact ⟨b, List.mem_cons_of_mem _ hb, heq⟩

/-- A decoded text has no line feed that its bytes have not. -/
theorem lf_notMem_of_decode {a : List UInt8} {x : List Char} (h : decode a = some x)
    (hlf : 10 ∉ a) : '\n' ∉ x := by
  intro hmem
  have hin : some '\n' ∈ decodeFrom .start a := by
    rw [decode_eq_some_iff.mp h]
    exact List.mem_map_of_mem hmem
  obtain ⟨b, hb, hb10⟩ := ascii_of_mem_decodeFrom start_valid (by decide) hin
  exact hlf ((UInt8.toNat_inj.mp hb10 : b = 10) ▸ hb)

/-- A byte that continues a character. -/
theorem step_continue {n low high acc v : ℕ} (h : low ≤ v % 64 + 0x80 ∧ v % 64 + 0x80 ≤ high) :
    step (.tail (n + 1) low high acc) (UInt8.ofNat (v % 64 + 0x80)).toNat =
      ([], .tail n 0x80 0xBF (acc * 64 + v % 64)) := by
  have hb : (UInt8.ofNat (v % 64 + 0x80)).toNat = v % 64 + 0x80 := by
    rw [UInt8.toNat_ofNat', Nat.mod_eq_of_lt (by omega)]
  rw [hb, step, if_pos h, Nat.add_sub_cancel]

/-- The byte that completes a character. -/
theorem step_complete {low high acc v : ℕ} (h : low ≤ v % 64 + 0x80 ∧ v % 64 + 0x80 ≤ high) :
    step (.tail 0 low high acc) (UInt8.ofNat (v % 64 + 0x80)).toNat =
      ([some (Char.ofNat (acc * 64 + v % 64))], .start) := by
  have hb : (UInt8.ofNat (v % 64 + 0x80)).toNat = v % 64 + 0x80 := by
    rw [UInt8.toNat_ofNat', Nat.mod_eq_of_lt (by omega)]
  rw [hb, step, if_pos h, Nat.add_sub_cancel]

/-- The first byte of a character of three bytes. -/
theorem first_three {k : ℕ} (h : k < 16) : ∃ low high,
    first (UInt8.ofNat (k + 0xE0)).toNat = ([], .tail 1 low high k) ∧
      low = (if k = 0 then 0xA0 else 0x80) ∧ high = (if k = 13 then 0x9F else 0xBF) := by
  interval_cases k <;> exact ⟨_, _, rfl, rfl, rfl⟩

/-- The first byte of a character of four bytes. -/
theorem first_four {k : ℕ} (h : k < 5) : ∃ low high,
    first (UInt8.ofNat (k + 0xF0)).toNat = ([], .tail 2 low high k) ∧
      low = (if k = 0 then 0x90 else 0x80) ∧ high = (if k = 4 then 0x8F else 0xBF) := by
  interval_cases k <;> exact ⟨_, _, rfl, rfl, rfl⟩

theorem first_two {k : ℕ} (hlow : 2 ≤ k) (h : k < 32) :
    first (UInt8.ofNat (k + 0xC0)).toNat = ([], .tail 0 0x80 0xBF k) := by
  interval_cases k <;> rfl

/-- An encoded character is decoded whatever follows it. -/
theorem decodeFrom_encodeChar (c : Char) (bs : List UInt8) :
    decodeFrom .start (String.utf8EncodeChar c ++ bs) = some c :: decodeFrom .start bs := by
  have hvalid : c.toNat.isValidChar := c.valid
  have hself : Char.ofNat c.toNat = c := Char.ofNat_toNat c
  unfold Nat.isValidChar at hvalid
  unfold String.utf8EncodeChar
  dsimp only
  rw [show c.val.toNat = c.toNat from rfl]
  generalize c.toNat = v at hvalid hself
  split_ifs with h1 h2 h3
  · have hb : (UInt8.ofNat v).toNat = v := by rw [UInt8.toNat_ofNat', Nat.mod_eq_of_lt (by omega)]
    have hfirst := decodeFrom_ascii start_valid [] (c := UInt8.ofNat v)
      (by rw [hb]; omega) bs
    rwa [hb, hself] at hfirst
  · have hacc : v / 64 * 64 + v % 64 = v := by omega
    rw [Nat.mod_eq_of_lt (show v / 64 < 0x20 by omega)]
    simp only [List.cons_append, List.nil_append, decodeFrom_cons]
    rw [step, first_two (by omega) (by omega), step_complete (by omega), hacc, hself]
    rfl
  · have hacc : (v / 4096 * 64 + v / 64 % 64) * 64 + v % 64 = v := by omega
    rw [Nat.mod_eq_of_lt (show v / 4096 < 0x10 by omega)]
    obtain ⟨low, high, hfirst, hlow, hhigh⟩ := first_three (show v / 4096 < 16 by omega)
    have hrange : low ≤ v / 64 % 64 + 0x80 ∧ v / 64 % 64 + 0x80 ≤ high := by
      split_ifs at hlow hhigh <;> omega
    simp only [List.cons_append, List.nil_append, decodeFrom_cons]
    rw [step, hfirst, step_continue hrange, step_complete (by omega), hacc, hself]
    rfl
  · have hacc : ((v / 262144 * 64 + v / 4096 % 64) * 64 + v / 64 % 64) * 64 + v % 64 = v := by
      omega
    rw [Nat.mod_eq_of_lt (show v / 262144 < 8 by omega)]
    obtain ⟨low, high, hfirst, hlow, hhigh⟩ := first_four (show v / 262144 < 5 by omega)
    have hrange : low ≤ v / 4096 % 64 + 0x80 ∧ v / 4096 % 64 + 0x80 ≤ high := by
      split_ifs at hlow hhigh <;> omega
    simp only [List.cons_append, List.nil_append, decodeFrom_cons]
    rw [step, hfirst, step_continue hrange, step_continue (by omega), step_complete (by omega),
      hacc, hself]
    rfl

theorem decode_encode (s : String) : decode (encode s) = some s.toList := by
  rw [decode_eq_some_iff, encode]
  induction s.toList with
  | nil => rfl
  | cons c cs ih => rw [List.flatMap_cons, decodeFrom_encodeChar, ih, List.map_cons]

/-! ASCII. -/

/-- Bytes of ASCII as characters. -/
def chars (bs : List UInt8) : List Char := bs.map fun b => Char.ofNat b.toNat

theorem chars_append (a b : List UInt8) : chars (a ++ b) = chars a ++ chars b := List.map_append

theorem chars_cons (b : UInt8) (bs : List UInt8) :
    chars (b :: bs) = Char.ofNat b.toNat :: chars bs := rfl

theorem toNat_char (b : UInt8) : (Char.ofNat b.toNat).toNat = b.toNat := by
  have := b.toNat_lt
  rw [Char.toNat_ofNat, if_pos (by unfold Nat.isValidChar; omega)]

theorem char_inj {a b : UInt8} : Char.ofNat a.toNat = Char.ofNat b.toNat ↔ a = b := by
  constructor
  · intro h
    have hnat := congrArg Char.toNat h
    rw [toNat_char, toNat_char] at hnat
    exact UInt8.toNat_inj.mp hnat
  · rintro rfl
    rfl

theorem mem_chars {b : UInt8} {bs : List UInt8} : Char.ofNat b.toNat ∈ chars bs ↔ b ∈ bs :=
  List.mem_map_of_injective fun _ _ h => char_inj.mp h

theorem chars_inj {a b : List UInt8} : chars a = chars b ↔ a = b :=
  (List.map_injective_iff.mpr fun _ _ h => char_inj.mp h).eq_iff

theorem decodeFrom_chars {bs : List UInt8} (h : ∀ b ∈ bs, b.toNat < 128) :
    decodeFrom .start bs = (chars bs).map some := by
  induction bs with
  | nil => rfl
  | cons b bs ih =>
    obtain ⟨hb, hbs⟩ := List.forall_mem_cons.mp h
    have hsplit := decodeFrom_ascii start_valid [] hb bs
    rw [List.nil_append] at hsplit
    rw [hsplit, ih hbs]
    rfl

theorem decode_chars {bs : List UInt8} (h : ∀ b ∈ bs, b.toNat < 128) :
    decode bs = some (chars bs) := decode_eq_some_iff.mpr (decodeFrom_chars h)

theorem encode_char {b : UInt8} (h : b.toNat < 128) :
    String.utf8EncodeChar (Char.ofNat b.toNat) = [b] := by
  have hval : (Char.ofNat b.toNat).val.toNat = b.toNat := toNat_char b
  have hsize : (Char.ofNat b.toNat).utf8Size = 1 := by
    rw [Char.utf8Size_eq_one_iff, UInt32.le_iff_toNat_le, hval]
    exact Nat.le_of_lt_succ h
  rw [String.utf8EncodeChar_eq_singleton hsize, List.cons.injEq, ← UInt8.toNat_inj]
  refine ⟨?_, rfl⟩
  rw [UInt32.toNat_toUInt8, hval]
  exact Nat.mod_eq_of_lt b.toNat_lt

theorem encode_chars {bs : List UInt8} (h : ∀ b ∈ bs, b.toNat < 128) :
    encode (String.ofList (chars bs)) = bs := by
  rw [encode, String.toList_ofList]
  induction bs with
  | nil => rfl
  | cons b bs ih =>
    obtain ⟨hb, hbs⟩ := List.forall_mem_cons.mp h
    rw [chars_cons, List.flatMap_cons, encode_char hb, ih hbs, List.singleton_append]

/-- A text is what is decoded before and behind an ASCII byte. -/
theorem decode_split {c : UInt8} (hc : c.toNat < 128) {a b : List UInt8} {x : List Char} :
    decode (a ++ c :: b) = some x ↔ ∃ y z, decode a = some y ∧ decode b = some z ∧
      x = y ++ Char.ofNat c.toNat :: z := by
  simp only [decode_eq_some_iff]
  rw [decodeFrom_ascii start_valid a hc]
  constructor
  · intro h
    obtain ⟨y, w, rfl, hy, hw⟩ := List.append_eq_map_iff.mp h
    obtain ⟨d, z, rfl, hd, hz⟩ := List.map_eq_cons_iff.mp hw
    obtain rfl := Option.some.inj hd
    exact ⟨y, z, hy.symm, hz.symm, rfl⟩
  · rintro ⟨y, z, hy, hz, rfl⟩
    rw [hy, hz, List.map_append, List.map_cons]

example : decode (encode "aé€𐍈") = some "aé€𐍈".toList := by decide

example : decodeLossy [0x61, 0xE2, 0x82, 0x41, 0xFF] =
    ['a', Char.ofNat 0xFFFD, 'A', Char.ofNat 0xFFFD] := by decide

end Utf8
