import Mathlib

/-! The string operations the gateway parses with, on lists of characters: splitting at a
separator and at whitespace, lines, and decimal numbers. -/
namespace Text

/-- The value of a decimal digit. -/
def digit (c : Char) : Option ℕ := if '0' ≤ c ∧ c ≤ '9' then some (c.toNat - 48) else none

/-- Append a digit to a number that must stay below `bound`. -/
def pushDigit (bound : ℕ) (n : ℕ) (c : Char) : Option ℕ :=
  (digit c).bind fun d => if n * 10 + d < bound then some (n * 10 + d) else none

/-- `str::parse::<u16>`: an optional plus sign and at least one decimal digit. -/
def parseU16 (s : List Char) : Option ℕ :=
  match s with
  | [] => none
  | ['+'] => none
  | '+' :: digits => digits.foldlM (pushDigit 65536) 0
  | digits => digits.foldlM (pushDigit 65536) 0

/-- The characters with the Unicode property `White_Space`. -/
def isWhitespace (c : Char) : Bool :=
  (9 ≤ c.toNat && c.toNat ≤ 13) || c.toNat == 32 || c.toNat == 0x85 || c.toNat == 0xA0 ||
    c.toNat == 0x1680 || (0x2000 ≤ c.toNat && c.toNat ≤ 0x200A) || c.toNat == 0x2028 ||
    c.toNat == 0x2029 || c.toNat == 0x202F || c.toNat == 0x205F || c.toNat == 0x3000

/-- `str::split_whitespace`. -/
def splitWhitespace (s : List Char) : List (List Char) :=
  (s.splitOnP isWhitespace).filter fun word => !word.isEmpty

/-- The first item of `str::lines`, empty for an empty text: the line break is dropped, and
a carriage return right before it. -/
def firstLine (s : List Char) : List Char :=
  match s.span (· ≠ '\n') with
  | (line, []) => line
  | (line, _ :: _) => if line.getLast? = some '\r' then line.dropLast else line

/-- A line without the carriage return at its end. -/
def stripCr (line : List Char) : List Char :=
  if line.getLast? = some '\r' then line.dropLast else line

/-- The lines of a text of which `line` has been read since the last line feed. -/
def linesFrom (line : List Char) : List Char → List (List Char)
  | [] => if line = [] then [] else [line]
  | c :: cs => if c = '\n' then stripCr line :: linesFrom [] cs else linesFrom (line ++ [c]) cs

/-- `str::lines`: a line feed ends a line and is dropped, with a carriage return right before it.
What follows the last line feed is a line unless it is empty. -/
def lines (s : List Char) : List (List Char) := linesFrom [] s

/-- `str::trim`. -/
def trim (s : List Char) : List Char := (s.dropWhile isWhitespace).rdropWhile isWhitespace

example : lines "a\r\n\nb\r".toList = ["a".toList, [], "b\r".toList] := by decide

example : parseU16 "+0080".toList = some 80 := by decide

example : parseU16 "65536".toList = none := by decide

/-! Lists that are cut at an element. -/

theorem forall_ne_of_notMem {α : Type} [DecidableEq α] {a : α} {l : List α} (h : a ∉ l) :
    ∀ x ∈ l, decide (x ≠ a) = true := by
  intro x hx
  rw [decide_eq_true_iff]
  rintro rfl
  exact h hx

theorem takeWhile_append_cons {α : Type} [DecidableEq α] {c : α} {start : List α} (h : c ∉ start)
    (rest : List α) : (start ++ c :: rest).takeWhile (· ≠ c) = start := by
  rw [List.takeWhile_append_of_pos (forall_ne_of_notMem h),
    List.takeWhile_cons_of_neg (by simp), List.append_nil]

/-- A separator that occurs in neither end marks where the end begins. -/
theorem append_cons_inj {α : Type} {c : α} {start start' rest rest' : List α} (h : c ∉ rest)
    (h' : c ∉ rest') (heq : start ++ c :: rest = start' ++ c :: rest') :
    start = start' ∧ rest = rest' := by
  rcases List.append_eq_append_iff.mp heq with ⟨mid, rfl, hrest⟩ | ⟨mid, rfl, hrest⟩
  · cases mid with
    | nil => simpa using hrest
    | cons d mid =>
      obtain ⟨rfl, rfl⟩ := List.cons.inj hrest
      simp at h
  · cases mid with
    | nil => simpa [eq_comm] using hrest
    | cons d mid =>
      obtain ⟨rfl, rfl⟩ := List.cons.inj hrest
      simp at h'

theorem takeWhile_append_eq_iff {α : Type} (p : α → Bool) (a b : List α) :
    (a ++ b).takeWhile p = a.takeWhile p ↔ (∃ x ∈ a, p x = false) ∨ ∀ x ∈ b.head?, p x = false := by
  induction a with
  | nil =>
    cases b with
    | nil => simp
    | cons x b => cases hx : p x <;> simp [hx]
  | cons x a ih =>
    cases hx : p x with
    | true => simp [hx, ih]
    | false => simp [hx]

theorem rdropWhile_append_cons {α : Type} (p : α → Bool) {x : α} (hx : p x = false)
    (a b : List α) : (a ++ x :: b).rdropWhile p = a ++ x :: b.rdropWhile p := by
  have hne : (b.reverse ++ [x]).dropWhile p = b.reverse.dropWhile p ++ [x] := by
    rw [List.dropWhile_append]
    split_ifs with hall
    · rw [List.isEmpty_iff.mp hall, List.dropWhile_cons_of_neg (by simp [hx]), List.nil_append]
    · rfl
  have hsplit : (a ++ x :: b).reverse = b.reverse ++ [x] ++ a.reverse := by simp
  rw [List.rdropWhile, List.rdropWhile, hsplit, List.dropWhile_append, hne, if_neg (by simp)]
  simp

theorem splitOn_two {sep : Char} {first last : List Char} (hfirst : sep ∉ first)
    (hlast : sep ∉ last) : (first ++ sep :: last).splitOn sep = [first, last] := by
  rw [List.splitOn_append_cons_self, List.splitOn_eq_singleton hfirst,
    List.splitOn_eq_singleton hlast]
  rfl

/-- A text of two parts has no second separator. -/
theorem notMem_of_splitOn {sep : Char} {start last first second : List Char}
    (h : (start ++ sep :: last).splitOn sep = [first, second]) : sep ∉ start := by
  intro hmem
  obtain ⟨before, after, rfl⟩ := List.append_of_mem hmem
  rw [List.splitOn_append_cons_self, List.splitOn_append_cons_self] at h
  have hlen := congrArg List.length h
  have hbefore := List.length_pos_iff.mpr (List.splitOn_ne_nil sep before)
  have hafter := List.length_pos_iff.mpr (List.splitOn_ne_nil sep after)
  have hlast := List.length_pos_iff.mpr (List.splitOn_ne_nil sep last)
  simp only [List.length_append, List.length_cons, List.length_nil] at hlen
  omega

theorem toNat_lt_of_isAlpha {c : Char} (h : c.isAlpha) : c.toNat < 128 := by
  simp only [Char.isAlpha, Char.isUpper, Char.isLower, Bool.or_eq_true, Bool.and_eq_true,
    decide_eq_true_eq, UInt32.le_iff_toNat_le] at h
  rcases h with ⟨-, h⟩ | ⟨-, h⟩ <;> exact h.trans_lt (by decide)

/-- Lower case in ASCII leaves every other character as it is. -/
theorem toNat_lt_of_toLower {c : Char} (h : c.toLower.toNat < 128) : c.toNat < 128 := by
  by_cases hupper : c.val ≥ 'A'.val ∧ c.val ≤ 'Z'.val
  · have hle := UInt32.le_iff_toNat_le.mp hupper.2
    exact hle.trans_lt (by decide)
  · rwa [Char.toLower, dif_neg hupper] at h

theorem eq_colon_of_toLower {c : Char} (h : c.toLower = ':') : c = ':' := by
  by_cases hupper : c.val ≥ 'A'.val ∧ c.val ≤ 'Z'.val
  · have hle : 65 ≤ c.val.toNat := UInt32.le_iff_toNat_le.mp hupper.1
    have hge : c.val.toNat ≤ 90 := UInt32.le_iff_toNat_le.mp hupper.2
    have hval := congrArg (fun d => d.val.toNat) h
    rw [Char.toLower, dif_pos hupper] at hval
    have hcolon : (':' : Char).val.toNat = 58 := rfl
    have hshift : ('a'.val - 'A'.val).toNat = 32 := rfl
    simp only [UInt32.toNat_add, hcolon, hshift] at hval
    omega
  · rwa [Char.toLower, dif_neg hupper] at h

/-! Numbers, words and lines. -/

/-- Decimal numerals contain digits only. -/
theorem notMem_toString {c : Char} (hc : c.isDigit = false) (n : ℕ) : c ∉ (toString n).toList := by
  intro hmem
  rw [Nat.toString_eq_repr, Nat.toList_repr] at hmem
  rw [Nat.isDigit_of_mem_toDigits (by norm_num) (by norm_num) hmem] at hc
  cases hc

theorem toString_nat_injective {m n : ℕ} (h : toString m = toString n) : m = n := by
  have hdigits : Nat.toDigits 10 m = Nat.toDigits 10 n := by
    simpa only [Nat.toString_eq_repr, Nat.toList_repr] using congrArg String.toList h
  simpa using congrArg (fun digits => Nat.ofDigitChars 10 digits 0) hdigits

theorem le_of_pushDigits {bound n m : ℕ} {digits : List Char}
    (h : digits.foldlM (pushDigit bound) n = some m) : n * 10 ^ digits.length ≤ m := by
  induction digits generalizing n with
  | nil => simpa using (Option.some.inj h).le
  | cons c digits ih =>
    rw [List.foldlM_cons] at h
    obtain ⟨next, hpush, hrest⟩ := Option.bind_eq_some_iff.mp h
    obtain ⟨d, -, hd⟩ := Option.bind_eq_some_iff.mp hpush
    rw [Option.ite_none_right_eq_some, Option.some.injEq] at hd
    calc n * 10 ^ (digits.length + 1) = n * 10 * 10 ^ digits.length := by ring
      _ ≤ next * 10 ^ digits.length := by gcongr; omega
      _ ≤ m := ih hrest

/-- The three digits make the number 200 when no fourth character follows. -/
theorem parseU16_200_iff (more : List Char) :
    parseU16 ('2' :: '0' :: '0' :: more) = some 200 ↔ more = [] := by
  have hfold : parseU16 ('2' :: '0' :: '0' :: more) = more.foldlM (pushDigit 65536) 200 := rfl
  constructor
  · intro h
    rw [hfold] at h
    have hle := le_of_pushDigits h
    by_contra hne
    have hlen := List.length_pos_iff.mpr hne
    have hpow : 10 ^ 1 ≤ 10 ^ more.length := Nat.pow_le_pow_right (by norm_num) hlen
    omega
  · rintro rfl
    rfl

theorem foldlM_pushDigit {bound n : ℕ} {digits : List Char} (h : ∀ c ∈ digits, c.isDigit)
    (hlt : Nat.ofDigitChars 10 digits n < bound) :
    digits.foldlM (pushDigit bound) n = some (Nat.ofDigitChars 10 digits n) := by
  induction digits generalizing n with
  | nil => rfl
  | cons c digits ih =>
    obtain ⟨hc, hdigits⟩ := List.forall_mem_cons.mp h
    have hvalue : digit c = some (c.toNat - 48) := by
      rw [Char.isDigit, Bool.and_eq_true, decide_eq_true_iff, decide_eq_true_iff] at hc
      exact if_pos hc
    rw [Nat.ofDigitChars_cons, Nat.mul_comm] at hlt ⊢
    have hnext : n * 10 + (c.toNat - 48) < bound := by
      rw [Nat.ofDigitChars_eq_ofDigitChars_zero] at hlt
      have hpow : 1 ≤ 10 ^ digits.length := Nat.one_le_pow _ _ (by norm_num)
      calc n * 10 + (c.toNat - 48) ≤ 10 ^ digits.length * (n * 10 + (c.toNat - 48)) :=
            Nat.le_mul_of_pos_left _ hpow
        _ < bound := by
            have hzero : '0'.toNat = 48 := rfl
            rw [hzero] at hlt
            omega
    rw [List.foldlM_cons, pushDigit, hvalue, Option.bind_some, if_pos hnext]
    exact ih hdigits hlt

/-- A port number is read back from its decimal numeral. -/
theorem parseU16_toString {n : ℕ} (h : n < 65536) : parseU16 (toString n).toList = some n := by
  rw [Nat.toString_eq_repr, Nat.toList_repr]
  have hdigits : ∀ c ∈ Nat.toDigits 10 n, c.isDigit := fun c hc =>
    Nat.isDigit_of_mem_toDigits (by norm_num) (by norm_num) hc
  have hvalue : (Nat.toDigits 10 n).foldlM (pushDigit 65536) 0 = some n := by
    rw [foldlM_pushDigit hdigits (by rwa [Nat.ofDigitChars_ten_toDigits]),
      Nat.ofDigitChars_ten_toDigits]
  unfold parseU16
  split
  next hnil => exact absurd hnil Nat.toDigits_ne_nil
  next hplus => simp [hplus] at hdigits
  next digits hplus => simp [hplus] at hdigits
  next => exact hvalue

theorem splitWhitespace_cons {word : List Char} (hne : word ≠ [])
    (hword : ∀ c ∈ word, isWhitespace c = false) {sep : Char} (hsep : isWhitespace sep = true)
    (rest : List Char) : splitWhitespace (word ++ sep :: rest) = word :: splitWhitespace rest := by
  rw [splitWhitespace, List.splitOnP_append_cons_of_forall_mem hword sep hsep rest,
    List.filter_cons_of_pos (by simp [hne])]
  rfl

/-- The first word of a text that begins inside a word. -/
theorem splitWhitespace_head {word : List Char} (hne : word ≠ [])
    (hword : ∀ c ∈ word, isWhitespace c = false) (rest : List Char) :
    (splitWhitespace (word ++ rest))[0]? =
      some (word ++ rest.takeWhile fun c => !isWhitespace c) := by
  let first := word ++ rest.takeWhile fun c => !isWhitespace c
  have hfirst : ∀ c ∈ first, isWhitespace c = false := by
    intro c hc
    rcases List.mem_append.mp hc with hc | hc
    · exact hword c hc
    · simpa using List.mem_takeWhile_imp hc
  have hnil : first ≠ [] := by simp [first, hne]
  have hsplit : word ++ rest = first ++ rest.dropWhile fun c => !isWhitespace c := by
    rw [List.append_assoc, List.takeWhile_append_dropWhile]
  rw [hsplit]
  cases hdrop : rest.dropWhile fun c => !isWhitespace c with
  | nil =>
    rw [List.append_nil, splitWhitespace, List.splitOnP_eq_singleton hfirst,
      List.filter_cons_of_pos (by simp [hnil])]
    rfl
  | cons sep more =>
    have hsep : isWhitespace sep = true := by
      have := List.head?_dropWhile_not (fun c => !isWhitespace c) rest
      rw [hdrop] at this
      simpa using this
    rw [splitWhitespace_cons hnil hfirst hsep]
    rfl

theorem splitWhitespace_dropWhile (s : List Char) :
    splitWhitespace (s.dropWhile isWhitespace) = splitWhitespace s := by
  induction s with
  | nil => rfl
  | cons c s ih =>
    cases hc : isWhitespace c with
    | false => rw [List.dropWhile_cons_of_neg (by simp [hc])]
    | true =>
      have hnil : ∀ d ∈ ([] : List Char), isWhitespace d = false := by simp
      have hsplit : (c :: s).splitOnP isWhitespace = [] :: s.splitOnP isWhitespace :=
        List.splitOnP_append_cons_of_forall_mem hnil c hc s
      rw [List.dropWhile_cons_of_pos hc, ih, splitWhitespace, splitWhitespace, hsplit,
        List.filter_cons_of_neg (by simp)]

/-- The first word is what remains of the text behind the whitespace at its start. -/
theorem splitWhitespace_first (s : List Char) :
    (splitWhitespace s)[0]? = if s.dropWhile isWhitespace = [] then none
      else some ((s.dropWhile isWhitespace).takeWhile fun c => !isWhitespace c) := by
  rw [← splitWhitespace_dropWhile]
  cases hword : s.dropWhile isWhitespace with
  | nil => rfl
  | cons c rest =>
    have hc : isWhitespace c = false := by
      have := List.head?_dropWhile_not isWhitespace s
      rw [hword] at this
      simpa using this
    have hword : ∀ d ∈ [c], isWhitespace d = false := by simpa using hc
    have hhead := splitWhitespace_head (List.cons_ne_nil c []) hword rest
    rw [if_neg (List.cons_ne_nil c rest), List.takeWhile_cons_of_pos (by simp [hc])]
    exact hhead

/-- The first line of a text whose first line ends in a line feed. -/
theorem firstLine_append {start more rest : List Char}
    (hlast : start.getLast? ≠ some '\r') (hlf : '\n' ∉ start ++ more) :
    firstLine (start ++ more ++ '\n' :: rest) =
      start ++ if more.getLast? = some '\r' then more.dropLast else more := by
  have hall := forall_ne_of_notMem hlf
  have hspan : (start ++ more ++ '\n' :: rest).span (· ≠ '\n') =
      (start ++ more, '\n' :: rest) := by
    rw [List.span_eq_takeWhile_dropWhile, List.takeWhile_append_of_pos hall,
      List.dropWhile_append_of_pos hall]
    simp
  rw [firstLine, hspan]
  cases more with
  | nil => simp [hlast]
  | cons c cs =>
    show (if (start ++ c :: cs).getLast? = some '\r' then (start ++ c :: cs).dropLast else
      start ++ c :: cs) = _
    rw [List.getLast?_append_of_ne_nil _ (List.cons_ne_nil c cs)]
    split_ifs
    · rw [List.dropLast_append_of_ne_nil (List.cons_ne_nil c cs)]
    · rfl

theorem linesFrom_append {line more rest : List Char} (hlf : '\n' ∉ more) :
    linesFrom line (more ++ '\n' :: rest) = stripCr (line ++ more) :: lines rest := by
  induction more generalizing line with
  | nil => simp [linesFrom, lines]
  | cons c more ih =>
    rw [List.mem_cons, not_or] at hlf
    obtain ⟨hc, hmore⟩ := hlf
    rw [List.cons_append, linesFrom, if_neg (Ne.symm hc), ih hmore, List.append_assoc,
      List.singleton_append]

/-- A line that its line feed ends, and the lines behind it. -/
theorem lines_append {line rest : List Char} (hlf : '\n' ∉ line) :
    lines (line ++ '\n' :: rest) = stripCr line :: lines rest :=
  linesFrom_append hlf

theorem linesFrom_of_notMem {line more : List Char} (hlf : '\n' ∉ more) :
    linesFrom line more = if line ++ more = [] then [] else [line ++ more] := by
  induction more generalizing line with
  | nil => simp [linesFrom]
  | cons c more ih =>
    rw [List.mem_cons, not_or] at hlf
    obtain ⟨hc, hmore⟩ := hlf
    rw [linesFrom, if_neg (Ne.symm hc), ih hmore, List.append_assoc, List.singleton_append]

/-- A text without a line feed is one line. -/
theorem lines_of_notMem {line : List Char} (hlf : '\n' ∉ line) :
    lines line = if line = [] then [] else [line] :=
  linesFrom_of_notMem hlf

theorem stripCr_append {start : List Char} (hlast : start.getLast? ≠ some '\r')
    (more : List Char) : stripCr (start ++ more) = start ++ stripCr more := by
  cases more with
  | nil => simp [stripCr, hlast]
  | cons c cs =>
    rw [stripCr, stripCr, List.getLast?_append_of_ne_nil _ (List.cons_ne_nil c cs)]
    split_ifs
    · rw [List.dropLast_append_of_ne_nil (List.cons_ne_nil c cs)]
    · rfl

theorem prefix_stripCr_iff {start : List Char} (hlast : start.getLast? ≠ some '\r')
    (line : List Char) : start <+: stripCr line ↔ start <+: line := by
  constructor
  · intro h
    refine h.trans ?_
    unfold stripCr
    split_ifs
    · exact List.dropLast_prefix line
    · exact List.prefix_rfl
  · rintro ⟨more, rfl⟩
    exact ⟨stripCr more, (stripCr_append hlast more).symm⟩

theorem trim_concat {c : Char} (hc : isWhitespace c = true) (s : List Char) :
    trim (s ++ [c]) = trim s := by
  rw [trim, trim, List.dropWhile_append]
  split_ifs with hall
  · rw [List.isEmpty_iff.mp hall, List.dropWhile_cons_of_pos hc, List.dropWhile_nil]
  · rw [List.rdropWhile_concat_pos _ _ _ hc]

/-- Whitespace at the end is trimmed. -/
theorem trim_append {blank : List Char} (hblank : ∀ c ∈ blank, isWhitespace c = true)
    (s : List Char) : trim (s ++ blank) = trim s := by
  induction blank generalizing s with
  | nil => rw [List.append_nil]
  | cons c blank ih =>
    obtain ⟨hc, hblank⟩ := List.forall_mem_cons.mp hblank
    rw [← List.singleton_append, ← List.append_assoc, ih hblank, trim_concat hc]

/-- What neither begins nor ends with whitespace is left when the whitespace around it is
trimmed. -/
theorem trim_surrounded {a b d : List Char} (ha : ∀ c ∈ a, isWhitespace c = true)
    (hfirst : ∀ c ∈ b.head?, isWhitespace c = false)
    (hlast : ∀ c ∈ b.getLast?, isWhitespace c = false)
    (hd : ∀ c ∈ d, isWhitespace c = true) : trim (a ++ b ++ d) = b := by
  rw [trim_append hd, trim, List.dropWhile_append_of_pos ha]
  have hstart : b.dropWhile isWhitespace = b := by
    cases b with
    | nil => rfl
    | cons c b => rw [List.dropWhile_cons_of_neg (by simp [hfirst c rfl])]
  rw [hstart, List.rdropWhile_eq_self_iff]
  intro hne
  simp [hlast _ (List.getLast?_eq_some_getLast hne)]

theorem trim_between {a b d : List Char} (ha : ∀ c ∈ a, isWhitespace c = true)
    (hb : ∀ c ∈ b, isWhitespace c = false) (hd : ∀ c ∈ d, isWhitespace c = true) :
    trim (a ++ b ++ d) = b :=
  trim_surrounded ha (fun c hc => hb c (List.mem_of_mem_head? hc))
    (fun c hc => hb c (List.mem_of_getLast? hc)) hd

/-- Only whitespace is trimmed. -/
theorem exists_trim (s : List Char) : ∃ a d, (∀ c ∈ a, isWhitespace c = true) ∧
    (∀ c ∈ d, isWhitespace c = true) ∧ s = a ++ trim s ++ d := by
  refine ⟨s.takeWhile isWhitespace, (s.dropWhile isWhitespace).rtakeWhile isWhitespace,
    fun c hc => List.mem_takeWhile_imp hc, fun c hc => List.mem_rtakeWhile_imp hc, ?_⟩
  rw [List.append_assoc, trim, List.rdropWhile_append_rtakeWhile, List.takeWhile_append_dropWhile]

theorem trim_stripCr (line : List Char) : trim (stripCr line) = trim line := by
  unfold stripCr
  split_ifs with hcr
  · obtain ⟨start, rfl⟩ := List.getLast?_eq_some_iff.mp hcr
    rw [List.dropLast_concat, trim_concat rfl]
  · rfl

theorem filter_dropWhile {α : Type} (p : α → Bool) (l : List α) :
    (l.dropWhile p).filter (fun x => !p x) = l.filter fun x => !p x := by
  induction l with
  | nil => rfl
  | cons x l ih =>
    cases hx : p x with
    | true => rw [List.dropWhile_cons_of_pos hx, ih, List.filter_cons_of_neg (by simp [hx])]
    | false => rw [List.dropWhile_cons_of_neg (by simp [hx])]

/-- Trimming keeps what is no whitespace. -/
theorem filter_trim (s : List Char) :
    (trim s).filter (fun c => !isWhitespace c) = s.filter fun c => !isWhitespace c := by
  rw [trim, List.rdropWhile, List.filter_reverse, filter_dropWhile, ← List.filter_reverse,
    List.reverse_reverse, filter_dropWhile]

theorem trim_append_eq_iff (s more : List Char) :
    trim (s ++ more) = trim s ↔ ∀ c ∈ more, isWhitespace c = true := by
  constructor
  · intro h c hc
    have hfilter := congrArg (List.filter fun c => !isWhitespace c) h
    rw [filter_trim, filter_trim, List.filter_append, List.append_right_eq_self,
      List.filter_eq_nil_iff] at hfilter
    simpa using hfilter c hc
  · intro h
    exact trim_append h s

theorem mem_of_mem_trim {c : Char} {s : List Char} (h : c ∈ trim s) : c ∈ s :=
  List.dropWhile_subset _ ((List.rdropWhile_prefix _ _).subset h)

/-- Where a word has begun, skipped whitespace does not depend on what follows. -/
theorem dropWhile_append_of_word {s : List Char} (h : ∃ c ∈ s, isWhitespace c = false)
    (more : List Char) :
    (s ++ more).dropWhile isWhitespace = s.dropWhile isWhitespace ++ more := by
  rw [List.dropWhile_append, if_neg]
  intro hall
  obtain ⟨c, hc, hspace⟩ := h
  have := List.dropWhile_eq_nil_iff.mp (List.isEmpty_iff.mp hall) c hc
  rw [hspace] at this
  cases this

theorem dropWhile_eq_nil_iff_not_word (s : List Char) :
    s.dropWhile isWhitespace = [] ↔ ¬∃ c ∈ s, isWhitespace c = false := by
  rw [List.dropWhile_eq_nil_iff]
  simp

theorem word_stripCr (line : List Char) : (∃ c ∈ stripCr line, isWhitespace c = false) ↔
    ∃ c ∈ line, isWhitespace c = false := by
  rw [← not_iff_not, ← dropWhile_eq_nil_iff_not_word, ← dropWhile_eq_nil_iff_not_word]
  unfold stripCr
  split_ifs with hcr
  · obtain ⟨start, rfl⟩ := List.getLast?_eq_some_iff.mp hcr
    rw [List.dropLast_concat, List.dropWhile_eq_nil_iff, List.dropWhile_eq_nil_iff,
      List.forall_mem_append]
    exact (and_iff_left (by simp [isWhitespace])).symm
  · rfl

/-- A text is one line that is not ended, or begins with a line that a line feed ends. -/
theorem line_cases (s : List Char) :
    '\n' ∉ s ∨ ∃ line rest, '\n' ∉ line ∧ s = line ++ '\n' :: rest := by
  by_cases h : '\n' ∈ s
  · obtain ⟨line, rest, hsplit, hline⟩ := List.eq_append_cons_of_mem h
    exact .inr ⟨line, rest, hline, hsplit⟩
  · exact .inl h

theorem takeWhile_line {line : List Char} (h : '\n' ∉ line) (rest : List Char) :
    (line ++ '\n' :: rest).takeWhile (· ≠ '\n') = line ∧ line.takeWhile (· ≠ '\n') = line := by
  exact ⟨takeWhile_append_cons h rest, List.takeWhile_eq_self_iff.mpr (forall_ne_of_notMem h)⟩

theorem stripCr_eq_nil_iff (line : List Char) :
    stripCr line = [] ↔ line = [] ∨ line = ['\r'] := by
  unfold stripCr
  split_ifs with hcr
  · obtain ⟨start, rfl⟩ := List.getLast?_eq_some_iff.mp hcr
    rw [List.dropLast_concat]
    cases start <;> simp
  · refine ⟨.inl, ?_⟩
    rintro (h | rfl)
    · exact h
    · exact absurd rfl hcr

end Text
