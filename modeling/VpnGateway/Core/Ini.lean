import VpnGateway.Core.Text

/-! Configuration texts of part headers, comments and `Key = value` lines. -/
namespace Ini

open Text

structure Setting where
  part : List Char
  key : List Char
  value : List Char
  deriving DecidableEq

inductive Line where
  | header (name : List Char)
  | setting (key value : List Char)
  | other
  deriving DecidableEq

/-- What stands before a comment, without the blanks around it. -/
def clean (text : List Char) : List Char := trim (text.takeWhile (· ≠ '#'))

def parseLine (line : List Char) : Line :=
  match clean line with
  | '[' :: rest => if rest.getLast? = some ']' then .header rest.dropLast else .other
  | text =>
    match text.dropWhile (· ≠ '=') with
    | [] => .other
    | _ :: value => .setting (trim (text.takeWhile (· ≠ '='))) (trim value)

/-- The settings of lines that begin inside a part. -/
def settingsFrom (part : List Char) : List (List Char) → List Setting
  | [] => []
  | line :: rest =>
    match parseLine line with
    | .header name => settingsFrom name rest
    | .setting key value => ⟨part, key, value⟩ :: settingsFrom part rest
    | .other => settingsFrom part rest

/-- The settings of a text; those before the first header have an empty part. -/
def settings (text : List Char) : List Setting := settingsFrom [] (text.splitOn '\n')

/-- A line that a program writes for a key and a value. -/
def settingLine (key value : List Char) : List Char := key ++ ' ' :: '=' :: ' ' :: value

def isKeyChar (c : Char) : Bool := !isWhitespace c && c ≠ '#' && c ≠ '=' && c ≠ '['

/-- What a program may write as a key: it is read back as it is. -/
def isKey (key : List Char) : Bool := !key.isEmpty && key.all isKeyChar

theorem ne_nil_of_isKey {key : List Char} (h : isKey key = true) : key ≠ [] := by
  rintro rfl
  cases h

theorem isKeyChar_of_isKey {key : List Char} (h : isKey key = true) {c : Char} (hc : c ∈ key) :
    isKeyChar c = true :=
  List.all_eq_true.mp (Bool.and_eq_true_iff.mp h).2 c hc

theorem isWhitespace_of_isKey {key : List Char} (h : isKey key = true) {c : Char} (hc : c ∈ key) :
    isWhitespace c = false := by
  have hchar := isKeyChar_of_isKey h hc
  simp only [isKeyChar, Bool.and_eq_true_iff, Bool.not_eq_true'] at hchar
  exact hchar.1.1.1

theorem notMem_of_isKey {key : List Char} (h : isKey key = true) {c : Char}
    (hc : isKeyChar c = false) : c ∉ key := by
  intro hmem
  rw [isKeyChar_of_isKey h hmem] at hc
  cases hc

theorem dropWhile_key {key : List Char} (h : isKey key = true) (more : List Char) :
    (key ++ more).dropWhile isWhitespace = key ++ more := by
  obtain ⟨c, rest, rfl⟩ := List.exists_cons_of_ne_nil (ne_nil_of_isKey h)
  rw [List.cons_append, List.dropWhile_cons_of_neg]
  simp [isWhitespace_of_isKey h]

theorem trim_key {key : List Char} (h : isKey key = true) : trim (key ++ [' ']) = key := by
  rw [trim_concat rfl, trim]
  have hdrop := dropWhile_key h []
  rw [List.append_nil] at hdrop
  rw [hdrop, List.rdropWhile_eq_self_iff]
  intro hne
  simp [isWhitespace_of_isKey h (List.getLast_mem hne)]

theorem trim_blank (value : List Char) : trim (' ' :: value) = trim value := by
  rw [trim, trim, List.dropWhile_cons_of_pos rfl]

theorem trim_rdropWhile (value : List Char) :
    trim (value.rdropWhile isWhitespace) = trim value := by
  conv_rhs => rw [← List.rdropWhile_append_rtakeWhile (p := isWhitespace) (l := value)]
  exact (trim_append (fun c hc => List.mem_rtakeWhile_imp hc) _).symm

/-- The comment and the blanks at the end of a line belong to the value. -/
theorem clean_settingLine {key : List Char} (h : isKey key = true) (value : List Char) :
    clean (settingLine key value) =
      key ++ ' ' :: '=' :: (' ' :: value.takeWhile (· ≠ '#')).rdropWhile isWhitespace := by
  have htake : (settingLine key value).takeWhile (· ≠ '#') =
      settingLine key (value.takeWhile (· ≠ '#')) := by
    rw [settingLine, List.takeWhile_append_of_pos (forall_ne_of_notMem (notMem_of_isKey h rfl))]
    rfl
  have hassoc : ∀ more : List Char, key ++ ' ' :: '=' :: more = (key ++ [' ']) ++ '=' :: more := by
    simp
  rw [clean, htake, settingLine, trim, dropWhile_key h, hassoc, rdropWhile_append_cons _ rfl,
    ← hassoc]

theorem parseLine_settingLine {key : List Char} (h : isKey key = true) (value : List Char) :
    parseLine (settingLine key value) = .setting key (clean value) := by
  have hclean := clean_settingLine h value
  have heq : '=' ∉ key ++ [' '] := by simp [notMem_of_isKey h (rfl : isKeyChar '=' = false)]
  let rest := (' ' :: value.takeWhile (· ≠ '#')).rdropWhile isWhitespace
  have hassoc : key ++ ' ' :: '=' :: rest = (key ++ [' ']) ++ '=' :: rest := by simp
  have htake : (key ++ ' ' :: '=' :: rest).takeWhile (· ≠ '=') = key ++ [' '] := by
    rw [hassoc, List.takeWhile_append_of_pos (forall_ne_of_notMem heq)]
    simp
  have hdrop : (key ++ ' ' :: '=' :: rest).dropWhile (· ≠ '=') = '=' :: rest := by
    rw [hassoc, List.dropWhile_append_of_pos (forall_ne_of_notMem heq)]
    simp
  have hvalue : trim rest = clean value := by
    rw [trim_rdropWhile, trim_blank]
    rfl
  unfold parseLine
  split
  next tail htail =>
    -- a key has no bracket
    obtain ⟨c, key, rfl⟩ := List.exists_cons_of_ne_nil (ne_nil_of_isKey h)
    rw [hclean] at htail
    obtain ⟨rfl, -⟩ := List.cons.inj htail
    exact absurd (List.mem_cons_self ..) (notMem_of_isKey h rfl)
  next hbracket =>
    rw [hclean]
    show (match (key ++ ' ' :: '=' :: rest).dropWhile (· ≠ '=') with
      | [] => Line.other
      | _ :: value =>
        .setting (trim ((key ++ ' ' :: '=' :: rest).takeWhile (· ≠ '='))) (trim value)) = _
    rw [hdrop, htake, trim_key h]
    exact congrArg (Line.setting key) hvalue

theorem settingsFrom_header {line name : List Char} (h : parseLine line = .header name)
    (part : List Char) (rest : List (List Char)) :
    settingsFrom part (line :: rest) = settingsFrom name rest := by
  rw [settingsFrom, h]

theorem settingsFrom_other {line : List Char} (h : parseLine line = .other) (part : List Char)
    (rest : List (List Char)) : settingsFrom part (line :: rest) = settingsFrom part rest := by
  rw [settingsFrom, h]

theorem settingsFrom_settingLine {key : List Char} (h : isKey key = true) (part value : List Char)
    (rest : List (List Char)) : settingsFrom part (settingLine key value :: rest) =
      ⟨part, key, clean value⟩ :: settingsFrom part rest := by
  rw [settingsFrom, parseLine_settingLine h]

example : settings "[Peer] # one\n A=b = c#d\n\n#X = y\n".toList =
    [⟨"Peer".toList, "A".toList, "b = c".toList⟩] := by decide

end Ini
