import VpnGateway.Core.Numerals
import VpnGateway.Core.Utf8

/-! The text format of metrics: lines of help, type and samples. A writer that escapes no label
value is read back where none needs an escape, and only there. -/
namespace Exposition

open Text

inductive Kind where
  | counter | gauge | histogram | summary | untyped
  deriving DecidableEq

/-- What the number of a sample stands for, exactly. -/
inductive Value where
  | finite (q : ℚ)
  | infinite (negative : Bool)
  | nan
  deriving DecidableEq

structure Sample where
  name : List Char
  labels : List (List Char × List Char)
  value : Value
  deriving DecidableEq

/-- What one line says. -/
inductive Item where
  | help (name : List Char)
  | type (name : List Char) (kind : Kind)
  | sample (s : Sample)
  /-- A blank line, or a comment for people. -/
  | other
  deriving DecidableEq

def Kind.text : Kind → List Char
  | counter => "counter".toList
  | gauge => "gauge".toList
  | histogram => "histogram".toList
  | summary => "summary".toList
  | untyped => "untyped".toList

def readKind (word : List Char) : Option Kind :=
  [Kind.counter, .gauge, .histogram, .summary, .untyped].find? fun kind => kind.text = word

def isBlank (c : Char) : Bool := c = ' ' || c = '\t'

def isLabelChar (c : Char) : Bool := c.isAlphanum || c = '_'

def isNameChar (c : Char) : Bool := isLabelChar c || c = ':'

def isLabel (word : List Char) : Bool :=
  !word.isEmpty && word.all isLabelChar && !word.head?.any Char.isDigit

def isName (word : List Char) : Bool :=
  !word.isEmpty && word.all isNameChar && !word.head?.any Char.isDigit

def skip (text : List Char) : List Char := text.dropWhile isBlank

def words (text : List Char) : List (List Char) :=
  (text.splitOnP isBlank).filter fun word => !word.isEmpty

/-! Numbers. -/

def readDigits (word : List Char) : Option ℕ :=
  if word ≠ [] ∧ word.all Char.isDigit then some (Nat.ofDigitChars 10 word 0) else none

def readSigned : List Char → Option ℤ
  | '-' :: digits => (readDigits digits).map fun n => -(n : ℤ)
  | '+' :: digits => (readDigits digits).map fun n => (n : ℤ)
  | digits => (readDigits digits).map fun n => (n : ℤ)

def readExponent : List Char → Option ℤ
  | [] => some 0
  | c :: rest => if c = 'e' ∨ c = 'E' then readSigned rest else none

def readDecimal (word : List Char) : Option ℚ :=
  let whole := word.takeWhile Char.isDigit
  let point := word.dropWhile Char.isDigit
  let tail := if point.head? = some '.' then point.tail else []
  let exponent := if point.head? = some '.' then tail.dropWhile Char.isDigit else point
  let fraction := tail.takeWhile Char.isDigit
  (readDigits (whole ++ fraction)).bind fun n =>
    (readExponent exponent).map fun e => (n : ℚ) * 10 ^ (e - (fraction.length : ℤ))

def readMagnitude (word : List Char) : Option Value :=
  let lower := word.map Char.toLower
  if lower = "inf".toList ∨ lower = "infinity".toList then some (.infinite false)
  else if lower = "nan".toList then some .nan
  else (readDecimal word).map .finite

def Value.neg : Value → Value
  | finite q => finite (-q)
  | infinite negative => infinite !negative
  | nan => nan

def readValue : List Char → Option Value
  | '-' :: word => (readMagnitude word).map Value.neg
  | '+' :: word => readMagnitude word
  | word => readMagnitude word

/-! Lines. -/

/-- A label value up to its closing quote, and what follows. -/
def unquote : List Char → Option (List Char × List Char)
  | [] => none
  | '"' :: rest => some ([], rest)
  | '\\' :: '\\' :: rest => (unquote rest).map fun read => ('\\' :: read.1, read.2)
  | '\\' :: '"' :: rest => (unquote rest).map fun read => ('"' :: read.1, read.2)
  | '\\' :: 'n' :: rest => (unquote rest).map fun read => ('\n' :: read.1, read.2)
  | c :: rest => if c = '\\' then none else (unquote rest).map fun read => (c :: read.1, read.2)

/-- A label and its value, and what follows. -/
def readLabel (text : List Char) : Option ((List Char × List Char) × List Char) :=
  let label := text.takeWhile isLabelChar
  if isLabel label then
    match skip (text.dropWhile isLabelChar) with
    | '=' :: rest =>
      match skip rest with
      | '"' :: rest => (unquote rest).map fun read => ((label, read.1), read.2)
      | _ => none
    | _ => none
  else none

/-- The labels up to the closing brace, and what follows. Each takes one unit of fuel. -/
def readLabels : ℕ → List Char → Option (List (List Char × List Char) × List Char)
  | 0, _ => none
  | fuel + 1, text =>
    match skip text with
    | '}' :: rest => some ([], rest)
    | text =>
      (readLabel text).bind fun (label, rest) =>
        match skip rest with
        | ',' :: rest => (readLabels fuel rest).map fun read => (label :: read.1, read.2)
        | '}' :: rest => some ([label], rest)
        | _ => none

/-- The value of a sample, and perhaps a time. -/
def readSample (name : List Char) (labels : List (List Char × List Char)) (rest : List Char) :
    Option Sample :=
  match words rest with
  | [value] => (readValue value).map fun value => ⟨name, labels, value⟩
  | [value, time] => (readSigned time).bind fun _ =>
      (readValue value).map fun value => ⟨name, labels, value⟩
  | _ => none

def parseSample (line : List Char) : Option Sample :=
  let name := line.takeWhile isNameChar
  if isName name then
    match skip (line.dropWhile isNameChar) with
    | '{' :: rest =>
      (readLabels (rest.length + 1) rest).bind fun read => readSample name read.1 read.2
    | rest => readSample name [] rest
  else none

def parseComment (text : List Char) : Option Item :=
  match words text with
  | [] => some .other
  | keyword :: more =>
    if keyword = "HELP".toList then
      more.head?.bind fun name => if isName name then some (.help name) else none
    else if keyword = "TYPE".toList then
      match more with
      | [name, kind] => if isName name then (readKind kind).map (.type name) else none
      | _ => none
    else some .other

def parseLine (line : List Char) : Option Item :=
  match skip line with
  | [] => some .other
  | '#' :: text => parseComment text
  | line => (parseSample line).map .sample

/-- The items of a text; `none` where a line does not have the format. -/
def parse (text : List Char) : Option (List Item) :=
  ((text.splitOn '\n').map parseLine).mapM id

/-- Every series stands behind the help and the type of its metric, and none stands twice. -/
structure Valid (items : List Item) : Prop where
  described : ∀ before s after, items = before ++ .sample s :: after →
    .help s.name ∈ before ∧ ∃ kind, .type s.name kind ∈ before
  nodup : items.Pairwise fun i j => ∀ s t, i = .sample s → j = .sample t →
    ¬(s.name = t.name ∧ s.labels.Perm t.labels)

example : parse
    "# HELP up a\n# TYPE up gauge\nup\x7bjob=\"a\\nb\", x=\"1\"\x7d -1.5e1 12\n".toList =
    some [.help "up".toList, .type "up".toList .gauge,
      .sample ⟨"up".toList, [("job".toList, "a\nb".toList), ("x".toList, ['1'])], .finite (-15)⟩,
      .other] := by decide +kernel

/-- The characters that a label value holds only behind a backslash. -/
def specials : List Char := ['"', '\\', '\n']

theorem mem_specials {c : Char} : c ∈ specials ↔ c = '"' ∨ c = '\\' ∨ c = '\n' := by
  simp [specials]

/-- The text between two quotes of a line stands for this value: with a backslash for each
special character it is longer. -/
structure Quotes (raw value : List Char) : Prop where
  length_le : value.length ≤ raw.length
  of_special : (∃ c ∈ value, c ∈ specials) → '\\' ∈ raw ∧ value.length < raw.length

namespace Quotes

variable {raw value : List Char}

theorem nil : Quotes [] [] := ⟨le_rfl, by simp⟩

theorem escape (h : Quotes raw value) (escaped c : Char) :
    Quotes ('\\' :: escaped :: raw) (c :: value) :=
  ⟨by have := h.length_le; simp only [List.length_cons]; omega,
    fun _ => ⟨List.mem_cons_self, by have := h.length_le; simp only [List.length_cons]; omega⟩⟩

theorem cons (h : Quotes raw value) {c : Char} (hc : c ∉ specials) :
    Quotes (c :: raw) (c :: value) := by
  refine ⟨Nat.succ_le_succ h.length_le, ?_⟩
  rintro ⟨d, hd, hspecial⟩
  have hmem : d ∈ value := (List.mem_cons.mp hd).resolve_left fun heq => hc (heq ▸ hspecial)
  obtain ⟨hback, hlt⟩ := h.of_special ⟨d, hmem, hspecial⟩
  exact ⟨List.mem_cons_of_mem _ hback, Nat.succ_lt_succ hlt⟩

end Quotes

section Reading

variable {text rest line value : List Char}

theorem quotes_of_unquote (hlf : '\n' ∉ text) (h : unquote text = some (value, rest)) :
    ∃ raw, text = raw ++ '"' :: rest ∧ Quotes raw value := by
  fun_induction unquote text generalizing value with
  | case1 => cases h
  | case2 rest' =>
    obtain ⟨rfl, rfl⟩ := Prod.mk.inj (Option.some.inj h)
    exact ⟨[], rfl, .nil⟩
  | case3 rest' ih | case4 rest' ih | case5 rest' ih =>
    obtain ⟨⟨value', after⟩, hread, heq⟩ := Option.map_eq_some_iff.mp h
    obtain ⟨rfl, rfl⟩ := Prod.mk.inj heq
    have hrest : '\n' ∉ rest' := fun hmem =>
      hlf (List.mem_cons_of_mem _ (List.mem_cons_of_mem _ hmem))
    obtain ⟨raw, rfl, hraw⟩ := ih hrest hread
    exact ⟨_ :: _ :: raw, rfl, hraw.escape _ _⟩
  | case6 rest' => cases h
  | case7 c rest' hquote hback hback' hback'' hc ih =>
    obtain ⟨⟨value', after⟩, hread, heq⟩ := Option.map_eq_some_iff.mp h
    obtain ⟨rfl, rfl⟩ := Prod.mk.inj heq
    obtain ⟨hne, hrest⟩ := not_or.mp (List.mem_cons.not.mp hlf)
    obtain ⟨raw, rfl, hraw⟩ := ih hrest hread
    refine ⟨c :: raw, rfl, hraw.cons ?_⟩
    rw [mem_specials, not_or, not_or]
    exact ⟨fun heq => hquote heq, hc, fun heq => hne heq.symm⟩

/-- The text has the value between two quotes. -/
def Holds (text value : List Char) : Prop :=
  ∃ before raw after, text = before ++ '"' :: raw ++ '"' :: after ∧ Quotes raw value

theorem Holds.of_suffix (h : Holds rest value) (hsuffix : rest <:+ text) : Holds text value := by
  obtain ⟨before, raw, after, rfl, hraw⟩ := h
  obtain ⟨start, rfl⟩ := hsuffix
  exact ⟨start ++ before, raw, after, by simp, hraw⟩

theorem skip_suffix (text : List Char) : skip text <:+ text := List.dropWhile_suffix _

theorem notMem_of_suffix {c : Char} (h : rest <:+ text) (hc : c ∉ text) : c ∉ rest :=
  fun hmem => hc (h.subset hmem)

theorem holds_of_readLabel {label : List Char × List Char} (hlf : '\n' ∉ text)
    (h : readLabel text = some (label, rest)) : Holds text label.2 ∧ rest <:+ text := by
  simp only [readLabel] at h
  split_ifs at h
  split at h
  next after hafter =>
    have hsuffix : after <:+ text :=
      (List.suffix_cons '=' after).trans
        (hafter ▸ (skip_suffix _).trans (List.dropWhile_suffix _))
    split at h
    next quoted hquoted =>
      have hquote : '"' :: quoted <:+ text := (hquoted ▸ skip_suffix after).trans hsuffix
      obtain ⟨⟨value, after'⟩, hread, heq⟩ := Option.map_eq_some_iff.mp h
      obtain ⟨rfl, rfl⟩ := Prod.mk.inj heq
      have hlf' := notMem_of_suffix ((List.suffix_cons _ _).trans hquote) hlf
      obtain ⟨raw, rfl, hraw⟩ := quotes_of_unquote hlf' hread
      refine ⟨Holds.of_suffix ⟨[], raw, after', rfl, hraw⟩ hquote, ?_⟩
      exact (List.suffix_cons '"' after').trans ((List.suffix_append ('"' :: raw) _).trans hquote)
    next => cases h
  next => cases h

theorem holds_of_readLabels {fuel : ℕ} {labels : List (List Char × List Char)}
    (hlf : '\n' ∉ text) (h : readLabels fuel text = some (labels, rest)) :
    ∀ label ∈ labels, Holds text label.2 := by
  induction fuel generalizing text rest labels with
  | zero => cases h
  | succ fuel ih =>
    have hskip := skip_suffix text
    simp only [readLabels] at h
    split at h
    next =>
      obtain ⟨rfl, -⟩ := Prod.mk.inj (Option.some.inj h)
      nofun
    next after hafter =>
      obtain ⟨⟨label, more⟩, hread, h⟩ := Option.bind_eq_some_iff.mp h
      obtain ⟨hlabel, hmore⟩ := holds_of_readLabel (notMem_of_suffix hskip hlf) hread
      have hlabel := hlabel.of_suffix hskip
      split at h
      next tail htail =>
        obtain ⟨⟨labels', after'⟩, hrest, heq⟩ := Option.map_eq_some_iff.mp h
        obtain ⟨rfl, -⟩ := Prod.mk.inj heq
        have hsuffix : tail <:+ text := (List.suffix_cons ',' tail).trans
          ((htail ▸ skip_suffix more).trans (hmore.trans hskip))
        rw [List.forall_mem_cons]
        exact ⟨hlabel, fun l hl =>
          (ih (notMem_of_suffix hsuffix hlf) hrest l hl).of_suffix hsuffix⟩
      next =>
        obtain ⟨rfl, -⟩ := Prod.mk.inj (Option.some.inj h)
        exact List.forall_mem_singleton.mpr hlabel
      next => cases h

theorem readSample_eq_some {name : List Char} {labels : List (List Char × List Char)} {s : Sample}
    (h : readSample name labels rest = some s) : s.name = name ∧ s.labels = labels := by
  unfold readSample at h
  split at h
  · obtain ⟨v, -, rfl⟩ := Option.map_eq_some_iff.mp h
    exact ⟨rfl, rfl⟩
  · obtain ⟨-, -, h⟩ := Option.bind_eq_some_iff.mp h
    obtain ⟨v, -, rfl⟩ := Option.map_eq_some_iff.mp h
    exact ⟨rfl, rfl⟩
  · cases h

theorem holds_of_parseSample {s : Sample} (hlf : '\n' ∉ line) (h : parseSample line = some s) :
    ∀ label ∈ s.labels, Holds line label.2 := by
  simp only [parseSample] at h
  split_ifs at h
  have hskip := (skip_suffix (line.dropWhile isNameChar)).trans (List.dropWhile_suffix _)
  split at h
  next after hafter =>
    obtain ⟨⟨labels, more⟩, hread, h⟩ := Option.bind_eq_some_iff.mp h
    have hsuffix : after <:+ line := (List.suffix_cons '{' after).trans (hafter ▸ hskip)
    rw [(readSample_eq_some h).2]
    exact fun label hlabel =>
      (holds_of_readLabels (notMem_of_suffix hsuffix hlf) hread label hlabel).of_suffix hsuffix
  next =>
    rw [(readSample_eq_some h).2]
    nofun

theorem not_sample_of_parseComment {s : Sample} : parseComment text ≠ some (.sample s) := by
  intro h
  unfold parseComment at h
  split at h
  next => cases h
  next keyword more =>
    split_ifs at h
    · obtain ⟨name, -, h⟩ := Option.bind_eq_some_iff.mp h
      split_ifs at h
      cases h
    · split at h
      next =>
        split_ifs at h
        obtain ⟨kind, -, h⟩ := Option.map_eq_some_iff.mp h
        cases h
      next => cases h
    · cases h

theorem holds_of_parseLine {s : Sample} (hlf : '\n' ∉ line)
    (h : parseLine line = some (.sample s)) : ∀ label ∈ s.labels, Holds line label.2 := by
  unfold parseLine at h
  have hskip := skip_suffix line
  split at h
  next => cases h
  next => exact absurd h not_sample_of_parseComment
  next =>
    obtain ⟨s', hparse, heq⟩ := Option.map_eq_some_iff.mp h
    obtain rfl := Item.sample.inj heq
    exact fun label hlabel =>
      (holds_of_parseSample (notMem_of_suffix hskip hlf) hparse label hlabel).of_suffix hskip

/-- The pieces between the separators. -/
theorem piece_of_mem_splitOn {c : Char} (h : line ∈ text.splitOn c) :
    c ∉ line ∧ line <:+: text := by
  induction hn : text.length using Nat.strong_induction_on generalizing text with
  | _ n ih =>
    by_cases hc : c ∈ text
    · obtain ⟨first, more, rfl, hfirst⟩ := List.eq_append_cons_of_mem hc
      rw [List.splitOn_append_cons_self_of_not_mem hfirst, List.mem_cons] at h
      rcases h with rfl | h
      · exact ⟨hfirst, (List.prefix_append line _).isInfix⟩
      · obtain ⟨hline, hinfix⟩ := ih more.length (by simp at hn; omega) h rfl
        refine ⟨hline, hinfix.trans ?_⟩
        exact ((List.suffix_cons c more).trans (List.suffix_append first _)).isInfix
    · rw [List.splitOn_eq_singleton hc, List.mem_singleton] at h
      subst h
      exact ⟨hc, List.infix_rfl⟩

/-- Every label value that is read stands between two quotes in some line. -/
theorem holds_of_parse {items : List Item} {s : Sample} (h : parse text = some items)
    (hs : .sample s ∈ items) :
    ∃ line ∈ text.splitOn '\n', ∀ label ∈ s.labels, Holds line label.2 := by
  have hitems := Utf8.mapM_id_eq_some.mp h
  have hmem : some (Item.sample s) ∈ (text.splitOn '\n').map parseLine := by
    rw [hitems]
    exact List.mem_map_of_mem hs
  obtain ⟨line, hline, hparse⟩ := List.mem_map.mp hmem
  exact ⟨line, hline, holds_of_parseLine (piece_of_mem_splitOn hline).1 hparse⟩

theorem mem_splitOn_intercalate {c : Char} {pieces : List (List Char)} (hne : pieces ≠ [])
    (h : line ∈ ([c].intercalate pieces).splitOn c) : ∃ piece ∈ pieces, line ∈ piece.splitOn c := by
  induction pieces with
  | nil => exact absurd rfl hne
  | cons piece pieces ih =>
    cases pieces with
    | nil =>
      rw [List.intercalate_singleton] at h
      exact ⟨piece, List.mem_cons_self, h⟩
    | cons next pieces =>
      rw [List.intercalate_cons_cons, List.append_assoc, List.singleton_append,
        List.splitOn_append_cons_self, List.mem_append] at h
      rcases h with h | h
      · exact ⟨piece, List.mem_cons_self, h⟩
      · obtain ⟨found, hfound, h⟩ := ih (List.cons_ne_nil _ _) h
        exact ⟨found, List.mem_cons_of_mem _ hfound, h⟩

end Reading

/-! A writer that escapes nothing. -/

/-- A sample with the text of its number. -/
structure Point where
  label : Option (List Char × List Char)
  text : List Char

/-- A metric with its samples. -/
structure Family where
  name : List Char
  help : List Char
  kind : Kind
  points : List Point

namespace Point

/-- What stands before the value of the label. -/
def opening (name label : List Char) : List Char := name ++ '{' :: label ++ ['=']

/-- What stands behind the value of the label. -/
def closing (p : Point) : List Char := '}' :: ' ' :: p.text

def line (name : List Char) (p : Point) : List Char :=
  match p.label with
  | none => name ++ ' ' :: p.text
  | some (label, value) => opening name label ++ '"' :: value ++ '"' :: p.closing

def sample (name : List Char) (p : Point) : Sample :=
  ⟨name, p.label.toList, (readValue p.text).getD .nan⟩

end Point

namespace Family

def helpLine (f : Family) : List Char := "# HELP ".toList ++ f.name ++ ' ' :: f.help

def typeLine (f : Family) : List Char := "# TYPE ".toList ++ f.name ++ ' ' :: f.kind.text

def lines (f : Family) : List (List Char) :=
  f.helpLine :: f.typeLine :: f.points.map (Point.line f.name)

def items (f : Family) : List Item :=
  .help f.name :: .type f.name f.kind :: f.points.map fun p => .sample (p.sample f.name)

end Family

def render (families : List Family) : List Char :=
  ['\n'].intercalate (families.flatMap Family.lines)

/-- The characters of numbers. -/
def isNumberChar (c : Char) : Bool := c.isAlphanum || c ∈ ['.', '+', '-']

/-- A family that is written as the format wants it, but for the values of its labels. -/
structure Family.WellFormed (f : Family) : Prop where
  name : isName f.name
  help : ∀ c ∈ specials, c ∉ f.help
  label : ∀ p ∈ f.points, ∀ label ∈ p.label, isLabel label.1
  number : ∀ p ∈ f.points, (readValue p.text).isSome ∧ ∀ c ∈ p.text, isNumberChar c

/-- No value of a label needs an escape. -/
def Family.Plain (f : Family) : Prop :=
  ∀ p ∈ f.points, ∀ label ∈ p.label, ∀ c ∈ specials, c ∉ label.2

variable {f : Family} {families : List Family} {p : Point}

/-! Where a value that needs an escape is read. -/

theorem length_le_of_notMem {c : Char} {a b u v : List Char} (ha : c ∉ a)
    (h : a ++ b = u ++ c :: v) : a.length ≤ u.length := by
  by_contra hlt
  have hget := congrArg (fun l => l[u.length]?) h
  simp only [List.getElem?_append_left (show u.length < a.length by omega),
    List.getElem?_append_right le_rfl, Nat.sub_self, List.getElem?_cons_zero] at hget
  exact ha (List.mem_of_getElem? hget)

/-- What stands between two quotes of a line with one label is not longer than its value. -/
theorem length_le_of_quotes {a b value u raw v : List Char} (ha : '"' ∉ a) (hb : '"' ∉ b)
    (h : a ++ '"' :: value ++ '"' :: b = u ++ '"' :: raw ++ '"' :: v) :
    raw.length ≤ value.length := by
  have hstart : a.length ≤ u.length := by
    refine length_le_of_notMem ha (b := '"' :: value ++ '"' :: b) (v := raw ++ '"' :: v) ?_
    simpa using h
  have hend : b.length ≤ v.length := by
    have hrev := congrArg List.reverse h
    have hb' : '"' ∉ b.reverse := by simpa using hb
    have hle := length_le_of_notMem hb' (b := '"' :: (a ++ '"' :: value).reverse)
      (u := v.reverse) (v := (u ++ '"' :: raw).reverse) (by simpa using hrev)
    simpa using hle
  have hlength := congrArg List.length h
  simp only [List.length_append, List.length_cons] at hlength
  omega

theorem isNameChar_of_isName {name : List Char} (h : isName name) :
    ∀ c ∈ name, isNameChar c = true := by
  simp only [isName, Bool.and_eq_true] at h
  exact List.all_eq_true.mp h.1.2

theorem isLabelChar_of_isLabel {label : List Char} (h : isLabel label) :
    ∀ c ∈ label, isLabelChar c = true := by
  simp only [isLabel, Bool.and_eq_true] at h
  exact List.all_eq_true.mp h.1.2

theorem notMem_of_forall {P : Char → Bool} {word : List Char} (h : ∀ c ∈ word, P c = true)
    {c : Char} (hc : P c = false) : c ∉ word := by
  intro hmem
  rw [h c hmem] at hc
  cases hc

theorem not_isNameChar_of_special {c : Char} (h : c ∈ specials) : isNameChar c = false := by
  rcases mem_specials.mp h with rfl | rfl | rfl <;> decide

theorem not_isNumberChar_of_special {c : Char} (h : c ∈ specials) : isNumberChar c = false := by
  rcases mem_specials.mp h with rfl | rfl | rfl <;> decide

theorem Kind.notMem_text (kind : Kind) {c : Char} (h : c ∈ specials) : c ∉ kind.text := by
  rcases mem_specials.mp h with rfl | rfl | rfl <;> cases kind <;> decide

theorem notMem_comment {c : Char} {keyword name rest : List Char} (hc : c ∈ specials)
    (hkeyword : c ∉ keyword) (hname : c ∉ name) (hrest : c ∉ rest) :
    c ∉ keyword ++ name ++ ' ' :: rest := by
  have hblank : c ≠ ' ' := by
    rcases mem_specials.mp hc with rfl | rfl | rfl <;> decide
  rw [List.mem_append, List.mem_append, List.mem_cons, not_or, not_or, not_or]
  exact ⟨⟨hkeyword, hname⟩, hblank, hrest⟩

namespace Family.WellFormed

variable {c : Char}

theorem notMem_name (hf : f.WellFormed) (hc : c ∈ specials) : c ∉ f.name :=
  notMem_of_forall (isNameChar_of_isName hf.name) (not_isNameChar_of_special hc)

theorem notMem_helpLine (hf : f.WellFormed) (hc : c ∈ specials) : c ∉ f.helpLine := by
  have hkeyword : c ∉ "# HELP ".toList := by
    rcases mem_specials.mp hc with rfl | rfl | rfl <;> simp
  exact notMem_comment hc hkeyword (hf.notMem_name hc) (hf.help c hc)

theorem notMem_typeLine (hf : f.WellFormed) (hc : c ∈ specials) : c ∉ f.typeLine := by
  have hkeyword : c ∉ "# TYPE ".toList := by
    rcases mem_specials.mp hc with rfl | rfl | rfl <;> simp
  exact notMem_comment hc hkeyword (hf.notMem_name hc) (f.kind.notMem_text hc)

theorem notMem_text (hf : f.WellFormed) (hp : p ∈ f.points) (hc : c ∈ specials) : c ∉ p.text :=
  notMem_of_forall (hf.number p hp).2 (not_isNumberChar_of_special hc)

theorem notMem_opening (hf : f.WellFormed) (hp : p ∈ f.points) {label : List Char × List Char}
    (hlabel : label ∈ p.label) (hc : c ∈ specials) : c ∉ Point.opening f.name label.1 := by
  have hne : c ≠ '{' ∧ c ≠ '=' := by
    rcases mem_specials.mp hc with rfl | rfl | rfl <;> decide
  have hlabel := notMem_of_forall (isLabelChar_of_isLabel (hf.label p hp label hlabel))
    (Bool.or_eq_false_iff.mp (not_isNameChar_of_special hc)).1
  simp only [Point.opening, List.mem_append, List.mem_cons, List.not_mem_nil, or_false, not_or]
  exact ⟨⟨hf.notMem_name hc, hne.1, hlabel⟩, hne.2⟩

theorem notMem_closing (hf : f.WellFormed) (hp : p ∈ f.points) (hc : c ∈ specials) :
    c ∉ p.closing := by
  have hne : c ≠ '}' ∧ c ≠ ' ' := by
    rcases mem_specials.mp hc with rfl | rfl | rfl <;> decide
  simp only [Point.closing, List.mem_cons, not_or]
  exact ⟨hne.1, hne.2, hf.notMem_text hp hc⟩

end Family.WellFormed

/-- A value that needs an escape is only ever read inside a longer one that needs one too. -/
theorem exists_longer {items : List Item} {s : Sample} {label : List Char × List Char}
    (hf : ∀ f ∈ families, f.WellFormed) (h : parse (render families) = some items)
    (hs : .sample s ∈ items) (hlabel : label ∈ s.labels)
    (hspecial : ∃ c ∈ label.2, c ∈ specials) :
    ∃ f ∈ families, ∃ p ∈ f.points, ∃ longer ∈ p.label,
      (∃ c ∈ longer.2, c ∈ specials) ∧ label.2.length < longer.2.length := by
  obtain ⟨line, hline, hholds⟩ := holds_of_parse h hs
  obtain ⟨before, raw, after, hquoted, hraw⟩ := hholds label hlabel
  obtain ⟨hback, hlt⟩ := hraw.of_special hspecial
  have hpieces : families.flatMap Family.lines ≠ [] := by
    intro hnil
    rw [render, hnil, List.intercalate_nil, List.splitOn_nil, List.mem_singleton, hquoted] at hline
    simp at hline
  obtain ⟨piece, hpiece, hline⟩ := mem_splitOn_intercalate hpieces hline
  obtain ⟨start, rest, hinfix⟩ := (piece_of_mem_splitOn hline).2
  have hsplit : piece = (start ++ before) ++ '"' :: raw ++ '"' :: (after ++ rest) := by
    rw [← hinfix, hquoted]
    simp
  have hmem : '\\' ∈ piece := by
    rw [hsplit]
    simp [hback]
  have hspecials : '\\' ∈ specials ∧ '"' ∈ specials := by decide
  obtain ⟨f, hfamily, hpiece⟩ := List.mem_flatMap.mp hpiece
  have hwf := hf f hfamily
  rw [Family.lines, List.mem_cons, List.mem_cons, List.mem_map] at hpiece
  rcases hpiece with rfl | rfl | ⟨p, hp, rfl⟩
  · exact absurd hmem (hwf.notMem_helpLine hspecials.1)
  · exact absurd hmem (hwf.notMem_typeLine hspecials.1)
  refine ⟨f, hfamily, p, hp, ?_⟩
  have htext := hwf.notMem_text hp hspecials.1
  have hname := hwf.notMem_name hspecials.1
  rw [Point.line] at hsplit hmem
  split at hsplit
  next hnone => simp [hnone, hname, htext] at hmem
  next name value hsome =>
    simp only [hsome] at hmem
    have hlabel' : (name, value) ∈ p.label := hsome
    have hopening := fun {c} hc => hwf.notMem_opening (c := c) hp hlabel' hc
    have hclosing := fun {c} hc => hwf.notMem_closing (c := c) hp hc
    have hle := length_le_of_quotes (hopening hspecials.2) (hclosing hspecials.2) hsplit
    refine ⟨(name, value), hlabel', ⟨'\\', ?_, hspecials.1⟩, hlt.trans_le hle⟩
    have hopening := hopening hspecials.1
    have hclosing := hclosing hspecials.1
    simpa [hopening, hclosing] using hmem

/-! Reading back what is written, where no value needs an escape. -/

theorem words_blank (text : List Char) : words (' ' :: text) = words text := by
  have hsplit : ([] ++ ' ' :: text).splitOnP isBlank = [] :: text.splitOnP isBlank :=
    List.splitOnP_append_cons_of_forall_mem (by simp) ' ' rfl text
  rw [words, ← List.nil_append (' ' :: text), hsplit, List.filter_cons_of_neg (by simp), words]

theorem words_cons {word : List Char} (hne : word ≠ []) (hword : ∀ c ∈ word, isBlank c = false)
    (text : List Char) : words (word ++ ' ' :: text) = word :: words text := by
  rw [words, List.splitOnP_append_cons_of_forall_mem hword ' ' rfl,
    List.filter_cons_of_pos (by simp [hne]), words]

theorem words_singleton {word : List Char} (hne : word ≠ [])
    (hword : ∀ c ∈ word, isBlank c = false) : words word = [word] := by
  rw [words, List.splitOnP_eq_singleton hword, List.filter_cons_of_pos (by simp [hne]),
    List.filter_nil]

theorem skip_cons {c : Char} (hc : isBlank c = false) (text : List Char) :
    skip (c :: text) = c :: text := List.dropWhile_cons_of_neg (by simp [hc])

theorem not_isBlank {P : Char → Bool} (hP : P ' ' = false ∧ P '\t' = false) {c : Char}
    (hc : P c = true) : isBlank c = false := by
  by_contra hblank
  simp only [isBlank, Bool.not_eq_false, Bool.or_eq_true, decide_eq_true_eq] at hblank
  rcases hblank with rfl | rfl
  · rw [hP.1] at hc
    cases hc
  · rw [hP.2] at hc
    cases hc

theorem exists_cons_of_isName {name : List Char} (h : isName name) :
    ∃ c more, name = c :: more ∧ isNameChar c = true := by
  have hne : name ≠ [] := by
    rintro rfl
    cases h
  obtain ⟨c, more, rfl⟩ := List.exists_cons_of_ne_nil hne
  exact ⟨c, more, rfl, isNameChar_of_isName h c List.mem_cons_self⟩

theorem exists_cons_of_isLabel {label : List Char} (h : isLabel label) :
    ∃ c more, label = c :: more ∧ isLabelChar c = true := by
  have hne : label ≠ [] := by
    rintro rfl
    cases h
  obtain ⟨c, more, rfl⟩ := List.exists_cons_of_ne_nil hne
  exact ⟨c, more, rfl, isLabelChar_of_isLabel h c List.mem_cons_self⟩

/-- The word with these characters ends where another one comes. -/
theorem takeWhile_word {P : Char → Bool} {word : List Char} (hword : ∀ c ∈ word, P c = true)
    {c : Char} (hc : P c = false) (text : List Char) :
    (word ++ c :: text).takeWhile P = word ∧ (word ++ c :: text).dropWhile P = c :: text := by
  rw [List.takeWhile_append_of_pos hword, List.dropWhile_append_of_pos hword,
    List.takeWhile_cons_of_neg (by simp [hc]), List.dropWhile_cons_of_neg (by simp [hc]),
    List.append_nil]
  exact ⟨rfl, rfl⟩

theorem readKind_text (kind : Kind) : readKind kind.text = some kind := by
  cases kind <;> decide

theorem Kind.text_ne_nil (kind : Kind) : kind.text ≠ [] := by
  cases kind <;> decide

theorem Kind.not_isBlank_text (kind : Kind) : ∀ c ∈ kind.text, isBlank c = false := by
  have hall : (kind.text.all fun c => !isBlank c) = true := by cases kind <;> decide
  simpa using hall

theorem unquote_plain {value : List Char} (h : ∀ c ∈ specials, c ∉ value) (rest : List Char) :
    unquote (value ++ '"' :: rest) = some (value, rest) := by
  induction value with
  | nil => rfl
  | cons c value ih =>
    have hc : c ∉ specials := fun hmem => h c hmem List.mem_cons_self
    have hvalue := ih fun d hd hmem => h d hd (List.mem_cons_of_mem _ hmem)
    rw [mem_specials, not_or, not_or] at hc
    rw [List.cons_append, unquote, if_neg hc.2.1, hvalue]
    · rfl
    · exact hc.1
    · rintro _ rfl
      exact absurd rfl hc.2.1
    · rintro _ rfl
      exact absurd rfl hc.2.1
    · rintro _ rfl
      exact absurd rfl hc.2.1

theorem words_comment {keyword name : List Char} (hne : keyword ≠ [])
    (hkeyword : ∀ c ∈ keyword, isBlank c = false) (hname : isName name) (rest : List Char) :
    words (' ' :: (keyword ++ ' ' :: (name ++ ' ' :: rest))) = keyword :: name :: words rest := by
  obtain ⟨c, more, hcons, -⟩ := exists_cons_of_isName hname
  have hblank := fun c hc => not_isBlank ⟨rfl, rfl⟩ (isNameChar_of_isName hname c hc)
  rw [words_blank, words_cons hne hkeyword, words_cons (by simp [hcons]) hblank]

theorem readLabel_plain {label value : List Char} (hlabel : isLabel label)
    (hvalue : ∀ c ∈ specials, c ∉ value) (rest : List Char) :
    readLabel (label ++ '=' :: '"' :: (value ++ '"' :: rest)) = some ((label, value), rest) := by
  obtain ⟨htake, hdrop⟩ := takeWhile_word (isLabelChar_of_isLabel hlabel)
    (show isLabelChar '=' = false by decide) ('"' :: (value ++ '"' :: rest))
  unfold readLabel
  simp only [htake, hdrop, hlabel, if_true, skip_cons (show isBlank '=' = false from rfl),
    skip_cons (show isBlank '"' = false from rfl), unquote_plain hvalue, Option.map_some]

/-- One label is read up to the closing brace. -/
theorem readLabels_plain {label value : List Char} (hlabel : isLabel label)
    (hvalue : ∀ c ∈ specials, c ∉ value) (rest : List Char) (fuel : ℕ) :
    readLabels (fuel + 1) (label ++ '=' :: '"' :: (value ++ '"' :: '}' :: rest)) =
      some ([(label, value)], rest) := by
  obtain ⟨c, more, hcons, hchar⟩ := exists_cons_of_isLabel hlabel
  have hskip : skip (label ++ '=' :: '"' :: (value ++ '"' :: '}' :: rest)) =
      label ++ '=' :: '"' :: (value ++ '"' :: '}' :: rest) := by
    rw [hcons, List.cons_append, skip_cons (not_isBlank ⟨rfl, rfl⟩ hchar)]
  rw [readLabels, hskip]
  split
  next tail hbrace =>
    rw [hcons, List.cons_append] at hbrace
    obtain ⟨rfl, -⟩ := List.cons.inj hbrace
    exact absurd hchar (by decide)
  next =>
    rw [readLabel_plain hlabel hvalue, Option.bind_some]
    simp only [skip_cons (show isBlank '}' = false from rfl)]

namespace Family.WellFormed

theorem parseLine_helpLine (hf : f.WellFormed) : parseLine f.helpLine = some (.help f.name) := by
  have hline : f.helpLine = '#' :: ' ' :: ("HELP".toList ++ ' ' :: (f.name ++ ' ' :: f.help)) := by
    delta Family.helpLine
    simp
  have hwords : words (' ' :: ("HELP".toList ++ ' ' :: (f.name ++ ' ' :: f.help))) =
      "HELP".toList :: f.name :: words f.help :=
    words_comment (by simp) (by simp [isBlank]) hf.name f.help
  rw [hline, parseLine, skip_cons rfl]
  unfold parseComment
  simp only [hwords]
  simp [hf.name]

theorem parseLine_typeLine (hf : f.WellFormed) :
    parseLine f.typeLine = some (.type f.name f.kind) := by
  have hline : f.typeLine =
      '#' :: ' ' :: ("TYPE".toList ++ ' ' :: (f.name ++ ' ' :: f.kind.text)) := by
    delta Family.typeLine
    simp
  have hwords : words (' ' :: ("TYPE".toList ++ ' ' :: (f.name ++ ' ' :: f.kind.text))) =
      ["TYPE".toList, f.name, f.kind.text] := by
    rw [words_comment (by simp) (by simp [isBlank]) hf.name,
      words_singleton f.kind.text_ne_nil f.kind.not_isBlank_text]
  rw [hline, parseLine, skip_cons rfl]
  unfold parseComment
  simp only [hwords]
  simp [hf.name, readKind_text]

theorem number_spec (hf : f.WellFormed) (hp : p ∈ f.points) :
    p.text ≠ [] ∧ (∀ c ∈ p.text, isBlank c = false) ∧
      readValue p.text = some ((readValue p.text).getD .nan) := by
  obtain ⟨hsome, hchars⟩ := hf.number p hp
  refine ⟨?_, fun c hc => not_isBlank ⟨rfl, rfl⟩ (hchars c hc), ?_⟩
  · intro hnil
    rw [hnil] at hsome
    cases hsome
  · obtain ⟨value, hvalue⟩ := Option.isSome_iff_exists.mp hsome
    rw [hvalue, Option.getD_some]

theorem readSample_text (hf : f.WellFormed) (hp : p ∈ f.points)
    (labels : List (List Char × List Char)) {rest : List Char} (hrest : words rest = words p.text) :
    readSample f.name labels rest = some ⟨f.name, labels, (readValue p.text).getD .nan⟩ := by
  obtain ⟨hne, hblank, hvalue⟩ := hf.number_spec hp
  unfold readSample
  rw [hrest, words_singleton hne hblank]
  simp only
  rw [hvalue]
  rfl

/-- Behind a name and a blank or a brace, the sample is read. -/
theorem parseLine_name (hf : f.WellFormed) {c : Char} (hc : isNameChar c = false)
    (text : List Char) : parseLine (f.name ++ c :: text) =
      (match skip (c :: text) with
        | '{' :: rest =>
          (readLabels (rest.length + 1) rest).bind fun read => readSample f.name read.1 read.2
        | rest => readSample f.name [] rest).map .sample := by
  obtain ⟨first, more, hcons, hchar⟩ := exists_cons_of_isName hf.name
  have hskip : skip (f.name ++ c :: text) = f.name ++ c :: text := by
    rw [hcons, List.cons_append, skip_cons (not_isBlank ⟨rfl, rfl⟩ hchar)]
  have hne : first ≠ '#' := by
    rintro rfl
    exact absurd hchar (by decide)
  obtain ⟨htake, hdrop⟩ := takeWhile_word (isNameChar_of_isName hf.name) hc text
  unfold parseLine
  rw [hskip]
  split
  next hnil => simp at hnil
  next rest hhash =>
    rw [hcons, List.cons_append] at hhash
    exact absurd (List.cons.inj hhash).1 hne
  next =>
    unfold parseSample
    simp only [htake, hdrop, hf.name, if_true]

theorem parseLine_line (hf : f.WellFormed) (hplain : f.Plain) (hp : p ∈ f.points) :
    parseLine (p.line f.name) = some (.sample (p.sample f.name)) := by
  obtain ⟨hne, hblank, -⟩ := hf.number_spec hp
  obtain ⟨first, text, htext⟩ := List.exists_cons_of_ne_nil hne
  have hfirst : first ∈ p.text := htext ▸ List.mem_cons_self
  unfold Point.line
  split
  next hnone =>
    have hbrace : first ≠ '{' := by
      rintro rfl
      exact absurd ((hf.number p hp).2 _ hfirst) (by decide)
    have hskip : skip (' ' :: p.text) = p.text := by
      rw [skip, List.dropWhile_cons_of_pos rfl, htext]
      exact skip_cons (hblank first hfirst) text
    rw [hf.parseLine_name rfl, hskip]
    split
    next rest hrest =>
      rw [htext] at hrest
      exact absurd (List.cons.inj hrest).1 hbrace
    next =>
      rw [hf.readSample_text hp [] rfl, Option.map_some, Point.sample, hnone]
      rfl
  next label value hsome =>
    have hlabel : isLabel label := hf.label p hp (label, value) hsome
    have hvalue : ∀ c ∈ specials, c ∉ value := hplain p hp (label, value) hsome
    have hsplit : Point.opening f.name label ++ '"' :: value ++ '"' :: p.closing =
        f.name ++ '{' :: (label ++ '=' :: '"' :: (value ++ '"' :: '}' :: ' ' :: p.text)) := by
      simp [Point.opening, Point.closing]
    rw [hsplit, hf.parseLine_name (by decide), skip_cons rfl]
    simp only
    rw [readLabels_plain hlabel hvalue, Option.bind_some,
      hf.readSample_text hp _ (words_blank p.text), Option.map_some, Point.sample, hsome]
    rfl

theorem notMem_lines (hf : f.WellFormed) (hplain : f.Plain) :
    ∀ line ∈ f.lines, '\n' ∉ line := by
  have hlf : '\n' ∈ specials := by decide
  rw [Family.lines, List.forall_mem_cons, List.forall_mem_cons, List.forall_mem_map]
  refine ⟨hf.notMem_helpLine hlf, hf.notMem_typeLine hlf, fun p hp => ?_⟩
  unfold Point.line
  split
  next => simp [hf.notMem_name hlf, hf.notMem_text hp hlf]
  next label value hsome =>
    have hopening := hf.notMem_opening hp (show (label, value) ∈ p.label from hsome) hlf
    have hvalue := hplain p hp (label, value) hsome _ hlf
    simp [hopening, hvalue, hf.notMem_closing hp hlf]

end Family.WellFormed

/-- Where no value needs an escape, the items are read that were written. -/
theorem parse_render (hne : families ≠ []) (hf : ∀ f ∈ families, f.WellFormed)
    (hplain : ∀ f ∈ families, f.Plain) :
    parse (render families) = some (families.flatMap Family.items) := by
  have hlines : families.flatMap Family.lines ≠ [] := by
    obtain ⟨f, rest, rfl⟩ := List.exists_cons_of_ne_nil hne
    simp [Family.lines]
  have hlf : ∀ line ∈ families.flatMap Family.lines, '\n' ∉ line := by
    intro line hline
    obtain ⟨f, hfamily, hline⟩ := List.mem_flatMap.mp hline
    exact (hf f hfamily).notMem_lines (hplain f hfamily) line hline
  have hmap : (families.flatMap Family.lines).map parseLine =
      (families.flatMap Family.items).map some := by
    rw [List.map_flatMap, List.map_flatMap]
    refine List.flatMap_congr fun f hfamily => ?_
    have hwf := hf f hfamily
    have hpoints : ∀ p ∈ f.points, parseLine (p.line f.name) = some (.sample (p.sample f.name)) :=
      fun p hp => hwf.parseLine_line (hplain f hfamily) hp
    simp only [Family.lines, Family.items, List.map_cons, List.map_map, hwf.parseLine_helpLine,
      hwf.parseLine_typeLine]
    congr 2
    exact List.map_congr_left fun p hp => hpoints p hp
  rw [parse, render, List.splitOn_intercalate _ hlf hlines, hmap]
  exact Utf8.mapM_id_eq_some.mpr rfl

theorem sample_mem_items {s : Sample} :
    .sample s ∈ f.items ↔ ∃ p ∈ f.points, p.sample f.name = s := by
  simp [Family.items]

theorem described_items {s : Sample} {before after : List Item}
    (h : f.items = before ++ .sample s :: after) :
    .help s.name ∈ before ∧ ∃ kind, .type s.name kind ∈ before := by
  have hmem : .sample s ∈ f.items := by
    rw [h]
    simp
  obtain ⟨p, -, rfl⟩ := sample_mem_items.mp hmem
  rw [Family.items] at h
  match before with
  | [] => cases (List.cons.inj h).1
  | [_] => cases (List.cons.inj (List.cons.inj h).2).1
  | first :: second :: more =>
    obtain ⟨rfl, htail⟩ := List.cons.inj h
    obtain ⟨rfl, -⟩ := List.cons.inj htail
    exact ⟨List.mem_cons_self, f.kind, List.mem_cons_of_mem _ List.mem_cons_self⟩

theorem eq_of_toList_perm {α : Type} {a b : Option α} (h : a.toList.Perm b.toList) : a = b := by
  have hlength := h.length_eq
  cases a with
  | none =>
    cases b with
    | none => rfl
    | some b => simp at hlength
  | some a =>
    cases b with
    | none => simp at hlength
    | some b => simpa using h

/-- Families with different names, and points with different labels, make a valid text. -/
theorem valid_items (hnames : (families.map Family.name).Nodup)
    (hlabels : ∀ f ∈ families, (f.points.map Point.label).Nodup) :
    Valid (families.flatMap Family.items) where
  described before s after heq := by
    induction families generalizing before with
    | nil => simp at heq
    | cons f families ih =>
      obtain ⟨-, hnames⟩ := List.nodup_cons.mp hnames
      obtain ⟨-, hlabels⟩ := List.forall_mem_cons.mp hlabels
      rw [List.flatMap_cons] at heq
      rcases List.append_eq_append_iff.mp heq with ⟨mid, rfl, hrest⟩ | ⟨mid, hitems, hrest⟩
      · obtain ⟨hhelp, kind, htype⟩ := ih hnames hlabels mid hrest
        exact ⟨List.mem_append_right _ hhelp, kind, List.mem_append_right _ htype⟩
      · cases mid with
        | nil =>
          -- the next family would begin with a sample
          obtain ⟨hhelp, -⟩ := ih hnames hlabels [] hrest.symm
          cases hhelp
        | cons item mid =>
          obtain ⟨rfl, -⟩ := List.cons.inj hrest
          exact described_items hitems
  nodup := by
    rw [List.pairwise_flatMap]
    constructor
    · intro f hf
      have hpoints : f.points.Pairwise fun p q => p.label ≠ q.label :=
        List.pairwise_map.mp (hlabels f hf)
      rw [Family.items, List.pairwise_cons, List.pairwise_cons, List.pairwise_map]
      refine ⟨nofun, nofun, hpoints.imp fun hne s t hs ht => ?_⟩
      obtain rfl := Item.sample.inj hs
      obtain rfl := Item.sample.inj ht
      exact fun hsame => hne (eq_of_toList_perm hsame.2)
    · have hfamilies : families.Pairwise fun f g => f.name ≠ g.name := List.pairwise_map.mp hnames
      refine hfamilies.imp ?_
      rintro f g hne _ hx _ hy s t rfl rfl hsame
      obtain ⟨p, -, rfl⟩ := sample_mem_items.mp hx
      obtain ⟨q, -, rfl⟩ := sample_mem_items.mp hy
      exact hne hsame.1

theorem sample_mem_flatMap {s : Sample} : .sample s ∈ families.flatMap Family.items ↔
    ∃ f ∈ families, ∃ p ∈ f.points, p.sample f.name = s := by
  simp only [List.mem_flatMap, sample_mem_items]

/-- Where the names differ, the samples of a metric are those of its family. -/
theorem sample_mem_iff (hnames : (families.map Family.name).Nodup) (hf : f ∈ families)
    (labels : List (List Char × List Char)) (v : Value) :
    .sample ⟨f.name, labels, v⟩ ∈ families.flatMap Family.items ↔
      ∃ p ∈ f.points, p.label.toList = labels ∧ (readValue p.text).getD .nan = v := by
  rw [sample_mem_flatMap]
  constructor
  · rintro ⟨g, hg, p, hp, heq⟩
    obtain ⟨hname, hlabel, hvalue⟩ := Sample.mk.inj heq
    obtain rfl := List.inj_on_of_nodup_map hnames hg hf hname
    exact ⟨p, hp, hlabel, hvalue⟩
  · rintro ⟨p, hp, rfl, rfl⟩
    exact ⟨f, hf, p, hp, rfl⟩

/-! The numbers that are written. -/

theorem readDigits_of_digits {word : List Char} (hne : word ≠ []) (hword : ∀ c ∈ word, c.isDigit) :
    readDigits word = some (Nat.ofDigitChars 10 word 0) :=
  if_pos ⟨hne, List.all_eq_true.mpr hword⟩

theorem readMagnitude_of_digit {c : Char} (hc : c.isDigit) (rest : List Char) :
    readMagnitude (c :: rest) = (readDecimal (c :: rest)).map .finite := by
  have hlower : c.toLower = c := by
    refine dif_neg fun hupper => ?_
    simp only [Char.isDigit, Bool.and_eq_true, decide_eq_true_eq] at hc
    have hle := UInt32.le_iff_toNat_le.mp hupper.1
    have hge := UInt32.le_iff_toNat_le.mp hc.2
    exact absurd (hle.trans hge) (by decide)
  have hne : ∀ first word, first.isDigit = false →
      (c :: rest).map Char.toLower ≠ first :: word := by
    intro first word hfirst heq
    rw [List.map_cons, hlower] at heq
    rw [(List.cons.inj heq).1, hfirst] at hc
    cases hc
  unfold readMagnitude
  rw [if_neg, if_neg]
  · exact hne 'n' _ rfl
  · exact not_or.mpr ⟨hne 'i' _ rfl, hne 'i' _ rfl⟩

theorem readValue_of_digit {c : Char} (hc : c.isDigit) (rest : List Char) :
    readValue (c :: rest) = (readDecimal (c :: rest)).map .finite := by
  unfold readValue
  split
  next word heq =>
    obtain ⟨rfl, -⟩ := List.cons.inj heq
    cases hc
  next word heq =>
    obtain ⟨rfl, -⟩ := List.cons.inj heq
    cases hc
  next => exact readMagnitude_of_digit hc rest

theorem readDecimal_digits {word : List Char} (hne : word ≠ []) (hword : ∀ c ∈ word, c.isDigit) :
    readDecimal word = some (Nat.ofDigitChars 10 word 0 : ℚ) := by
  have htake : word.takeWhile Char.isDigit = word := List.takeWhile_eq_self_iff.mpr hword
  have hdrop : word.dropWhile Char.isDigit = [] := List.dropWhile_eq_nil_iff.mpr hword
  simp [readDecimal, htake, hdrop, readDigits_of_digits hne hword, readExponent]

theorem readValue_numeral (n : ℕ) : readValue (numeral n) = some (.finite n) := by
  have hdigits : ∀ c ∈ numeral n, c.isDigit := fun _ hc => isDigit_of_mem_numeral hc
  have hvalue : Nat.ofDigitChars 10 (numeral n) 0 = n := Nat.ofDigitChars_ten_toDigits
  have hdecimal := readDecimal_digits (numeral_ne_nil n) hdigits
  obtain ⟨c, rest, hcons⟩ := List.exists_cons_of_ne_nil (numeral_ne_nil n)
  rw [hcons] at hdecimal hdigits hvalue ⊢
  rw [readValue_of_digit (hdigits c List.mem_cons_self), hdecimal, hvalue, Option.map_some]

theorem readDecimal_point {whole fraction : List Char} (hne : whole ≠ [])
    (hwhole : ∀ c ∈ whole, c.isDigit) (hfraction : ∀ c ∈ fraction, c.isDigit) :
    (readDecimal (whole ++ '.' :: fraction)).isSome := by
  obtain ⟨htake, hdrop⟩ := takeWhile_word hwhole (show Char.isDigit '.' = false from rfl) fraction
  have htake' : fraction.takeWhile Char.isDigit = fraction :=
    List.takeWhile_eq_self_iff.mpr hfraction
  have hdrop' : fraction.dropWhile Char.isDigit = [] := List.dropWhile_eq_nil_iff.mpr hfraction
  have hdigits : readDigits (whole ++ fraction) = some _ :=
    readDigits_of_digits (by simp [hne]) (List.forall_mem_append.mpr ⟨hwhole, hfraction⟩)
  simp [readDecimal, htake, hdrop, htake', hdrop', hdigits, readExponent]

end Exposition
