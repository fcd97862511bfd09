import VpnGateway.Core.Text

/-! The string methods and character classes of Python, on lists of characters. -/
namespace PyText

/-- `str.isspace` for one character, and `\s` in a pattern. -/
def isSpace (c : Char) : Bool := Text.isWhitespace c || (0x1C ≤ c.toNat && c.toNat ≤ 0x1F)

/-- The zeros of the decimal digits of all scripts; the digits of a script follow its zero. -/
def decimalZeros : List ℕ :=
  [0x30, 0x660, 0x6F0, 0x7C0, 0x966, 0x9E6, 0xA66, 0xAE6, 0xB66, 0xBE6, 0xC66, 0xCE6, 0xD66, 0xDE6,
    0xE50, 0xED0, 0xF20, 0x1040, 0x1090, 0x17E0, 0x1810, 0x1946, 0x19D0, 0x1A80, 0x1A90, 0x1B50,
    0x1BB0, 0x1C40, 0x1C50, 0xA620, 0xA8D0, 0xA900, 0xA9D0, 0xA9F0, 0xAA50, 0xABF0, 0xFF10, 0x104A0,
    0x10D30, 0x11066, 0x110F0, 0x11136, 0x111D0, 0x112F0, 0x11450, 0x114D0, 0x11650, 0x116C0,
    0x11730, 0x118E0, 0x11950, 0x11C50, 0x11D50, 0x11DA0, 0x11F50, 0x16A60, 0x16AC0, 0x16B50,
    0x1D7CE, 0x1D7D8, 0x1D7E2, 0x1D7EC, 0x1D7F6, 0x1E140, 0x1E2F0, 0x1E4F0, 0x1E950, 0x1FBF0]

/-- `\d` in a pattern. -/
def isDecimal (c : Char) : Bool :=
  decimalZeros.any fun first => first ≤ c.toNat && c.toNat < first + 10

/-- `str.strip`. -/
def strip (s : List Char) : List Char := (s.dropWhile isSpace).rdropWhile isSpace

/-- The newline translation of a file that is read as text. -/
def readText : List Char → List Char
  | [] => []
  | '\r' :: '\n' :: rest => '\n' :: readText rest
  | '\r' :: rest => '\n' :: readText rest
  | c :: rest => c :: readText rest

theorem mem_of_mem_strip {c : Char} {s : List Char} (h : c ∈ strip s) : c ∈ s :=
  List.dropWhile_subset _ ((List.rdropWhile_prefix _ _).subset h)

theorem strip_eq_nil_iff {s : List Char} : strip s = [] ↔ ∀ c ∈ s, isSpace c = true := by
  rw [strip, List.rdropWhile_eq_nil_iff]
  constructor
  · intro h c hc
    rw [← List.takeWhile_append_dropWhile (p := isSpace) (l := s), List.mem_append] at hc
    rcases hc with hc | hc
    · exact List.mem_takeWhile_imp hc
    · exact h c hc
  · intro h c hc
    exact h c (List.dropWhile_subset _ hc)

theorem strip_dropWhile (s : List Char) : strip (s.dropWhile isSpace) = strip s := by
  rw [strip, strip, List.dropWhile_idempotent]

/-- Only blanks are stripped. -/
theorem mem_strip {c : Char} {s : List Char} (hc : isSpace c = false) (h : c ∈ s) :
    c ∈ strip s := by
  have hdrop : c ∈ s.dropWhile isSpace := by
    rw [← List.takeWhile_append_dropWhile (p := isSpace) (l := s), List.mem_append] at h
    refine h.resolve_left fun htake => ?_
    rw [List.mem_takeWhile_imp htake] at hc
    cases hc
  rw [← List.rdropWhile_append_rtakeWhile (p := isSpace) (l := s.dropWhile isSpace),
    List.mem_append] at hdrop
  refine hdrop.resolve_right fun htake => ?_
  rw [List.mem_rtakeWhile_imp htake] at hc
  cases hc

theorem readText_of_notMem {s : List Char} (h : '\r' ∉ s) : readText s = s := by
  induction s with
  | nil => rfl
  | cons c s ih =>
    obtain ⟨hc, hs⟩ := not_or.mp (List.mem_cons.not.mp h)
    rw [readText, ih hs]
    · rintro rest rfl
      exact absurd rfl hc
    · rintro rfl
      exact absurd rfl hc

end PyText
