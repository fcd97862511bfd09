import VpnGateway.Proxy.ServerName

/-! No bytes make `sniff` panic. `parse_http_host` looks for the header in a lower-case copy of a
line, which may be longer or shorter than the line, and then cuts the line itself at a byte. -/
namespace Text

/-- `str::to_lowercase`, of which only this is used: what a character becomes may depend on the
characters around it, and a letter or the colon of `host:` comes from no character outside ASCII. -/
structure Lowercase where
  map : List Char → Char → List Char → List Char
  ne_nil : ∀ before c after, map before c after ≠ []
  ascii : ∀ before c after, c.toNat < 128 → map before c after = [c.toLower]
  letter : ∀ before c after, ∀ d ∈ map before c after, d ∈ ['h', 'o', 's', 't'] → c.isAlpha
  colon : ∀ before c after, ':' ∈ map before c after → c = ':'

/-- The lower case of the characters behind `before`. -/
def Lowercase.mapFrom (lower : Lowercase) : List Char → List Char → List Char
  | _, [] => []
  | before, c :: after => lower.map before c after ++ lower.mapFrom (before ++ [c]) after

def Lowercase.toLowercase (lower : Lowercase) (s : List Char) : List Char := lower.mapFrom [] s

/-- `&s[pos..]`, where `pos` counts bytes. Beyond the end and inside a character it panics. -/
def sliceFrom : ℕ → List Char → Option (List Char)
  | 0, s => some s
  | _ + 1, [] => none
  | pos + 1, c :: s => if c.utf8Size ≤ pos + 1 then sliceFrom (pos + 1 - c.utf8Size) s else none

theorem sliceFrom_of_ascii {n : ℕ} {s : List Char} (hn : n ≤ s.length)
    (h : ∀ c ∈ s.take n, c.toNat < 128) : sliceFrom n s = some (s.drop n) := by
  induction n generalizing s with
  | zero => cases s <;> rfl
  | succ n ih =>
    cases s with
    | nil => simp at hn
    | cons c s =>
      rw [List.take_succ_cons, List.forall_mem_cons] at h
      have hsize : c.utf8Size = 1 := by
        rw [Char.utf8Size_eq_one_iff, UInt32.le_iff_toNat_le]
        exact Nat.le_of_lt_succ h.1
      rw [sliceFrom, hsize, if_pos (by omega), List.drop_succ_cons]
      exact ih (Nat.le_of_succ_le_succ hn) h.2

/-- Where the lower case of a text begins with letters of `host:`, so does the text, in ASCII. -/
theorem Lowercase.prefix_iff (lower : Lowercase) {word : List Char}
    (hword : ∀ d ∈ word, d ∈ ['h', 'o', 's', 't'] ∨ d = ':') (before s : List Char) :
    word <+: lower.mapFrom before s ↔ (s.take word.length).map Char.toLower = word := by
  induction word generalizing before s with
  | nil => simp
  | cons d word ih =>
    obtain ⟨hd, hword⟩ := List.forall_mem_cons.mp hword
    cases s with
    | nil => simp [mapFrom]
    | cons c s =>
      rw [mapFrom, List.length_cons, List.take_succ_cons, List.map_cons, List.cons.injEq,
        ← ih hword (before ++ [c]) s]
      by_cases hascii : c.toNat < 128
      · rw [lower.ascii before c s hascii, List.singleton_append, List.cons_prefix_cons]
        exact and_congr_left' eq_comm
      · obtain ⟨first, more, hmap⟩ := List.exists_cons_of_ne_nil (lower.ne_nil before c s)
        have hmem : first ∈ lower.map before c s := by simp [hmap]
        rw [hmap, List.cons_append, List.cons_prefix_cons]
        constructor
        · rintro ⟨rfl, -⟩
          rcases hd with hletter | rfl
          · exact absurd (toNat_lt_of_isAlpha (lower.letter before c s _ hmem hletter)) hascii
          · obtain rfl := lower.colon before c s hmem
            exact absurd (by decide) hascii
        · rintro ⟨rfl, -⟩
          refine absurd (toNat_lt_of_toLower ?_) hascii
          rcases hd with hletter | hcolon
          · have hletters : ∀ d ∈ ['h', 'o', 's', 't'], d.toNat < 128 := by simp
            exact hletters _ hletter
          · rw [hcolon]
            decide

theorem isAlpha_of_toLower {c : Char} (h : c.toLower ∈ ['h', 'o', 's', 't']) : c.isAlpha := by
  by_cases hupper : c.val ≥ 'A'.val ∧ c.val ≤ 'Z'.val
  · have : c.isUpper := decide_eq_true hupper
    simp [Char.isAlpha, this]
  · rw [Char.toLower, dif_neg hupper] at h
    have hletters : ∀ d ∈ ['h', 'o', 's', 't'], d.isAlpha := by simp
    exact hletters c h

/-- ASCII, and the two characters outside it whose lower case begins inside. -/
def Lowercase.latin : Lowercase where
  map _ c _ :=
    if c.toNat < 128 then [c.toLower]
    else if c.toNat = 0x130 then ['i', '\u0307']
    else if c.toNat = 0x212A then ['k']
    else [c]
  ne_nil := by
    intro before c after
    split_ifs <;> simp
  ascii before c after h := if_pos h
  letter := by
    intro before c after d hd hletter
    split_ifs at hd with hascii
    · rw [List.mem_singleton.mp hd] at hletter
      exact isAlpha_of_toLower hletter
    · have hno : ∀ d ∈ ['i', '\u0307'], d ∉ ['h', 'o', 's', 't'] := by simp
      exact absurd hletter (hno d hd)
    · rw [List.mem_singleton.mp hd] at hletter
      simp at hletter
    · have hletters : ∀ d ∈ ['h', 'o', 's', 't'], d.toNat < 128 := by simp
      rw [List.mem_singleton.mp hd] at hletter
      exact absurd (hletters c hletter) hascii
  colon := by
    intro before c after hd
    split_ifs at hd with hascii
    · exact eq_colon_of_toLower (List.mem_singleton.mp hd).symm
    · simp at hd
    · simp at hd
    · exact (List.mem_singleton.mp hd).symm

end Text

namespace VpnGateway

open Wire Text

/-- `findHostHeader` with every operation that may panic; a panic is below the outer `none`. -/
def findHostHeaderChecked (lower : Lowercase) : List (List Char) → Option (Option (List Char))
  | [] => some none
  | line :: rest =>
    if "host:".toList <+: lower.toLowercase line then do
      let host ← sliceFrom 5 line
      return some (beforeColon (trim host))
    else if line = [] then some none
    else findHostHeaderChecked lower rest

def hostOfRequestChecked (lower : Lowercase) (text : List Char) : Option (Option (List Char)) :=
  match (lines text)[0]? with
  | none => some none
  | some firstLine =>
    if "CONNECT ".toList <+: firstLine then
      some (((splitWhitespace firstLine)[1]?).map beforeColon)
    else findHostHeaderChecked lower ((lines text).drop 1)

def parseHttpHostChecked (lower : Lowercase) (buf : Bytes) : Option (Option String) :=
  match Utf8.decode buf with
  | none => some none
  | some text => (hostOfRequestChecked lower text).map fun host => host.map String.ofList

def sniffChecked (lower : Lowercase) (buf : Bytes) : Option SniffedTarget := do
  if buf = [] then return .unknown
  let sni ← if (← buf[0]?) = 0x16 then parseTlsSni buf else pure none
  match sni with
  | some name => return .tlsSni name
  | none =>
    match ← parseHttpHostChecked lower buf with
    | some host => return .httpHost host
    | none => return .unknown

/-- The loop over the extensions goes on from the first position at the second one. -/
def GoesOn (buf : Bytes) (extensionsEnd pos next : ℕ) : Prop :=
  pos + 4 ≤ extensionsEnd ∧ ∃ extType extLen, u16At buf pos = some extType ∧ extType ≠ 0 ∧
    u16At buf (pos + 2) = some extLen ∧ next = pos + 4 + extLen

theorem scanExtensions_of_goesOn {buf : Bytes} {extensionsEnd pos next : ℕ}
    (h : GoesOn buf extensionsEnd pos next) :
    scanExtensions buf extensionsEnd pos = scanExtensions buf extensionsEnd next := by
  obtain ⟨hend, extType, extLen, htype, hne, hlen, rfl⟩ := h
  rw [scanExtensions, if_pos hend, htype, hlen]
  simp only [Option.bind_eq_bind, Option.bind_some, if_neg hne]

/-- The test on the lower-case line is one on the first five characters of the line, and then the
line can be cut behind them. -/
theorem host_prefix_iff (lower : Lowercase) (line : List Char) :
    "host:".toList <+: lower.toLowercase line ↔ isHostHeader line := by
  have hword : ∀ d ∈ "host:".toList, d ∈ ['h', 'o', 's', 't'] ∨ d = ':' := by simp
  rw [Lowercase.toLowercase, lower.prefix_iff hword, isHostHeader, beq_iff_eq]
  rfl

theorem sliceFrom_of_isHostHeader {line : List Char} (h : isHostHeader line) :
    sliceFrom 5 line = some (line.drop 5) := by
  rw [isHostHeader, beq_iff_eq] at h
  have hlen := congrArg List.length h
  simp only [List.length_map, List.length_take] at hlen
  have hfive : "host:".toList.length = 5 := rfl
  refine sliceFrom_of_ascii (by omega) fun c hc => toNat_lt_of_toLower ?_
  have hascii : ∀ d ∈ "host:".toList, d.toNat < 128 := by simp
  exact hascii _ (h ▸ List.mem_map_of_mem hc)

theorem findHostHeaderChecked_eq (lower : Lowercase) (rest : List (List Char)) :
    findHostHeaderChecked lower rest = some (findHostHeader rest) := by
  induction rest with
  | nil => rfl
  | cons line rest ih =>
    rw [findHostHeaderChecked, findHostHeader]
    by_cases hhost : isHostHeader line
    · rw [if_pos ((host_prefix_iff lower line).mpr hhost), if_pos hhost,
        sliceFrom_of_isHostHeader hhost]
      rfl
    · rw [if_neg fun h => hhost ((host_prefix_iff lower line).mp h), if_neg hhost, ih]
      split_ifs <;> rfl

theorem parseHttpHostChecked_eq (lower : Lowercase) (buf : Bytes) :
    parseHttpHostChecked lower buf = some (parseHttpHost buf) := by
  unfold parseHttpHostChecked parseHttpHost
  cases Utf8.decode buf with
  | none => rfl
  | some text =>
    have hhost : hostOfRequestChecked lower text = some (hostOfRequest text) := by
      unfold hostOfRequestChecked hostOfRequest
      cases (lines text)[0]? with
      | none => rfl
      | some firstLine =>
        simp only [Option.bind_eq_bind, Option.bind_some]
        split_ifs
        · cases (splitWhitespace firstLine)[1]? <;> rfl
        · exact findHostHeaderChecked_eq lower _
    simp only [hhost, Option.map_some, Option.bind_eq_bind, Option.bind_some]
    cases hostOfRequest text <;> rfl

theorem sniffChecked_eq (lower : Lowercase) (buf : Bytes) : sniffChecked lower buf = sniff buf := by
  unfold sniffChecked
  simp only [parseHttpHostChecked_eq, Option.bind_eq_bind, Option.bind_some]
  rfl

/-- The extension loop moves forward, and not beyond its end. -/
theorem wellFounded_goesOn (buf : Bytes) (extensionsEnd : ℕ) :
    WellFounded fun next pos => GoesOn buf extensionsEnd pos next := by
  refine Subrelation.wf ?_ (measure fun pos => extensionsEnd - pos).wf
  rintro next pos ⟨hend, extType, extLen, -, -, -, rfl⟩
  show extensionsEnd - (pos + 4 + extLen) < extensionsEnd - pos
  omega

/-- Whatever the bytes are, `sniff` comes to an answer without a panic, and its loop over the
extensions ends wherever it begins. -/
theorem sniff_safe (lower : Lowercase) (buf : Bytes) :
    (∃ target, sniffChecked lower buf = some target) ∧
      ∀ extensionsEnd, WellFounded fun next pos => GoesOn buf extensionsEnd pos next := by
  refine ⟨?_, wellFounded_goesOn buf⟩
  rw [sniffChecked_eq]
  obtain ⟨sni, hsni⟩ : ∃ sni, parseTlsSni buf = some sni := by
    rcases parseTlsSni_cases buf with ⟨start, len, -, heq⟩ | ⟨-, heq⟩
    · exact ⟨_, heq⟩
    · exact ⟨_, heq⟩
  cases buf with
  | nil => exact ⟨.unknown, rfl⟩
  | cons b rest =>
    unfold sniff
    rw [if_neg (List.cons_ne_nil b rest), hsni]
    simp only [List.getElem?_cons_zero, Option.bind_eq_bind, Option.bind_some]
    split_ifs
    · cases sni with
      | some name => exact ⟨.tlsSni name, rfl⟩
      | none =>
        dsimp only [Option.bind_some]
        cases parseHttpHost (b :: rest) with
        | some host => exact ⟨.httpHost host, rfl⟩
        | none => exact ⟨.unknown, rfl⟩
    · dsimp only [Option.pure_def, Option.bind_some]
      cases parseHttpHost (b :: rest) with
      | some host => exact ⟨.httpHost host, rfl⟩
      | none => exact ⟨.unknown, rfl⟩

/-- A request whose first header begins with a character of two bytes that has a lower case of
three. -/
def dottedRequest : Bytes := Utf8.encode "GET / HTTP/1.1\r\n\u0130hos: 1\r\nHOST: a.b:80\r\n\r\n"

theorem sniff_safe_dotted : (∃ target, sniffChecked Lowercase.latin dottedRequest = some target) ∧
    WellFounded fun next pos => GoesOn dottedRequest 0 pos next := by
  obtain ⟨hanswer, hloop⟩ := sniff_safe Lowercase.latin dottedRequest
  exact ⟨hanswer, hloop 0⟩

end VpnGateway
