import VpnGateway.Services.PeerConfigs

/-! Which values the scan reads from the configuration of a peer, line by line. -/
namespace VpnGateway.PeerConfigs

open PyText

/-- A text on one line. -/
def LineText := {text : List Char // '\n' ∉ text ∧ '\r' ∉ text}

/-- Blanks on one line. -/
def Blanks := {blanks : List Char // ('\n' ∉ blanks ∧ '\r' ∉ blanks) ∧ ∀ c ∈ blanks, isSpace c}

/-- The characters that no key holds: they begin a header or a comment, or end the key. -/
def marks : List Char := ['[', '#', '=']

def isConfKey (key : List Char) : Bool := !key.isEmpty && key.all fun c => !isSpace c && c ∉ marks

def ConfKey := {key : List Char // isConfKey key}

/-- A line of a configuration. -/
inductive ConfLine where
  | header (indent : Blanks) (name : LineText) (trailing : Blanks)
  | blank (blanks : Blanks)
  | comment (indent : Blanks) (text : LineText)
  | setting (indent : Blanks) (key : ConfKey) (gap : Blanks) (value : LineText)

namespace ConfLine

def render : ConfLine → List Char
  | header indent name trailing => indent.1 ++ '[' :: name.1 ++ ']' :: trailing.1
  | blank blanks => blanks.1
  | comment indent text => indent.1 ++ '#' :: text.1
  | setting indent key gap value => indent.1 ++ key.1 ++ gap.1 ++ '=' :: value.1

def isBlank : ConfLine → Bool
  | blank _ => true
  | _ => false

/-- What stands behind the equals sign, on a line of the key. -/
def valueOf (key : List Char) : ConfLine → Option (List Char)
  | setting _ key' _ value => if key'.1 = key then some value.1 else none
  | _ => none

end ConfLine

open ConfLine

def render (lines : List ConfLine) : List Char := ['\n'].intercalate (lines.map ConfLine.render)

/-- The value on the first line of the key, and the lines below. -/
def firstSetting (key : List Char) : List ConfLine → Option (List Char × List ConfLine)
  | [] => none
  | line :: rest =>
    match line.valueOf key with
    | some value => some (value, rest)
    | none => firstSetting key rest

/-- The value on the first line of the key, or the default where there is none to be read. -/
def expected (key default : List Char) (lines : List ConfLine) : List Char :=
  match firstSetting key lines with
  | some (value, _) => if strip value = [] then default else strip value
  | none => default

/-- If the value on the first line of the key is blank, only blank lines follow, and where the
default is not empty either, there is no blank behind the equals sign at all. -/
def BlankAtEnd (key default : List Char) (lines : List ConfLine) : Prop :=
  ∀ value rest, firstSetting key lines = some (value, rest) → strip value = [] →
    (∀ line ∈ rest, line.isBlank) ∧
      (default = [] ∨ value = [] ∧ ∀ line ∈ rest, line.render = [])

variable {key default : List Char} {line : ConfLine} {lines rest : List ConfLine}

theorem isSpace_of_isConfKey (hkey : isConfKey key) {c : Char} (hc : c ∈ key) :
    isSpace c = false := by
  have hall := List.all_eq_true.mp (Bool.and_eq_true_iff.mp hkey).2 c hc
  simpa using (Bool.and_eq_true_iff.mp hall).1

theorem notMem_of_isConfKey (hkey : isConfKey key) {c : Char} (hc : c ∈ marks) : c ∉ key := by
  intro hmem
  have hall := List.all_eq_true.mp (Bool.and_eq_true_iff.mp hkey).2 c hmem
  simpa [hc] using (Bool.and_eq_true_iff.mp hall).2

theorem exists_cons_of_isConfKey (hkey : isConfKey key) : ∃ c more, key = c :: more :=
  List.exists_cons_of_ne_nil (by rintro rfl; simp [isConfKey] at hkey)

namespace ConfLine

theorem notMem_render (line : ConfLine) : '\n' ∉ line.render ∧ '\r' ∉ line.render := by
  cases line with
  | header indent name trailing =>
    simp [render, indent.2.1, name.2, trailing.2.1]
  | blank blanks => exact blanks.2.1
  | comment indent text => simp [render, indent.2.1, text.2]
  | setting indent key gap value =>
    have hlf : '\n' ∉ key.1 := fun h => absurd (isSpace_of_isConfKey key.2 h) (by decide)
    have hcr : '\r' ∉ key.1 := fun h => absurd (isSpace_of_isConfKey key.2 h) (by decide)
    simp [render, indent.2.1, gap.2.1, value.2, hlf, hcr]

theorem isSpace_of_isBlank (h : line.isBlank) : ∀ c ∈ line.render, isSpace c := by
  cases line with
  | blank blanks => exact blanks.2.2
  | header | comment | setting => cases h

/-- A line that is not blank has a bracket, a hash or an equals sign. -/
theorem exists_mark (h : ¬ line.isBlank) : ∃ c ∈ marks, c ∈ line.render := by
  cases line with
  | blank => exact absurd rfl h
  | header => exact ⟨'[', by decide, by simp [render]⟩
  | comment => exact ⟨'#', by decide, by simp [render]⟩
  | setting => exact ⟨'=', by decide, by simp [render]⟩

end ConfLine

theorem isSpace_of_mem_marks {c : Char} (h : c ∈ marks) : isSpace c = false := by
  simp only [marks, List.mem_cons, List.not_mem_nil, or_false] at h
  rcases h with rfl | rfl | rfl <;> rfl

/-! The pattern where a line starts. -/

theorem dropWhile_word {blanks : List Char} (hblanks : ∀ c ∈ blanks, isSpace c) {c : Char}
    (hc : isSpace c = false) (more : List Char) :
    (blanks ++ c :: more).dropWhile isSpace = c :: more := by
  rw [List.dropWhile_append_of_pos hblanks, List.dropWhile_cons_of_neg (by simp [hc])]

theorem matchAt_of_ne (hkey : isConfKey key) {blanks : List Char}
    (hblanks : ∀ c ∈ blanks, isSpace c) {c : Char} (hc : c ∈ marks) (more : List Char) :
    matchAt key (blanks ++ c :: more) = none := by
  obtain ⟨first, word, rfl⟩ := exists_cons_of_isConfKey hkey
  have hne : ∀ rest, (c :: more).dropPrefix? (first :: word) ≠ some rest := by
    intro rest hdrop
    obtain ⟨start, hstart, heq⟩ := List.dropPrefix?_eq_some_iff.mp hdrop
    rw [beq_iff_eq.mp heq] at hstart
    obtain ⟨rfl, -⟩ := List.cons.inj hstart
    exact notMem_of_isConfKey hkey hc List.mem_cons_self
  rw [matchAt, dropWhile_word hblanks (isSpace_of_mem_marks hc),
    Option.eq_none_iff_forall_ne_some.mpr hne]

/-- A key followed by blanks and an equals sign is a prefix of another one's line only if they
are the same key. -/
theorem eq_of_key_append {key' gap value rest : List Char} (hkey : isConfKey key)
    (hkey' : isConfKey key') (hgap : ∀ c ∈ gap, isSpace c)
    (h : key' ++ gap ++ '=' :: value = key ++ rest)
    (hrest : ∃ blanks after, rest = blanks ++ '=' :: after ∧ ∀ c ∈ blanks, isSpace c) :
    key' = key := by
  have hword : ∀ {word blanks after : List Char}, isConfKey word → (∀ c ∈ blanks, isSpace c) →
      (word ++ blanks ++ '=' :: after).takeWhile (fun c => !isSpace c && c ≠ '=') = word := by
    intro word blanks after hword hblanks
    rw [List.append_assoc, List.takeWhile_append_of_pos]
    · cases blanks with
      | nil => simp
      | cons b blanks =>
        have hb := hblanks b List.mem_cons_self
        simp [hb]
    · intro c hc
      have heq : c ≠ '=' := by
        rintro rfl
        exact notMem_of_isConfKey hword (by decide) hc
      simp [isSpace_of_isConfKey hword hc, heq]
  obtain ⟨blanks, after, rfl, hblanks⟩ := hrest
  rw [← hword hkey' hgap, h, ← List.append_assoc, hword hkey hblanks]

theorem matchAt_setting (hkey : isConfKey key) {key' indent gap : List Char}
    (hkey' : isConfKey key') (hindent : ∀ c ∈ indent, isSpace c) (hgap : ∀ c ∈ gap, isSpace c)
    (value : List Char) : matchAt key (indent ++ key' ++ gap ++ '=' :: value) =
      if key' = key then captured value else none := by
  obtain ⟨c, word, rfl⟩ := exists_cons_of_isConfKey hkey'
  have hc : isSpace c = false := isSpace_of_isConfKey hkey' List.mem_cons_self
  have hdrop : (indent ++ (c :: word) ++ gap ++ '=' :: value).dropWhile isSpace =
      (c :: word) ++ gap ++ '=' :: value := by
    have hassoc : indent ++ (c :: word) ++ gap ++ '=' :: value =
        indent ++ c :: (word ++ gap ++ '=' :: value) := by simp
    rw [hassoc, dropWhile_word hindent hc]
    simp
  unfold matchAt
  rw [hdrop]
  split_ifs with heq
  · rw [List.append_assoc, List.dropPrefix?_append_of_beq _ (beq_iff_eq.mpr heq)]
    simp only [dropWhile_word hgap (isSpace_of_mem_marks (by decide : '=' ∈ marks))]
  · split
    next => rfl
    next rest hprefix =>
      obtain ⟨start, hstart, hbeq⟩ := List.dropPrefix?_eq_some_iff.mp hprefix
      rw [beq_iff_eq.mp hbeq] at hstart
      split
      next after hafter =>
        refine absurd (eq_of_key_append hkey hkey' hgap hstart ⟨rest.takeWhile isSpace, after, ?_,
          fun c hc => List.mem_takeWhile_imp hc⟩) heq
        rw [← hafter, List.takeWhile_append_dropWhile]
      next => rfl

/-- A line that is not blank matches if it is a line of the key. -/
theorem matchAt_render (hkey : isConfKey key) (h : ¬ line.isBlank) (more : List Char) :
    matchAt key (line.render ++ more) =
      (line.valueOf key).bind fun value => captured (value ++ more) := by
  cases line with
  | header indent name trailing =>
    rw [ConfLine.render, List.append_assoc, List.append_assoc, List.cons_append]
    exact matchAt_of_ne hkey indent.2.2 (by decide : '[' ∈ marks) _
  | blank => exact absurd rfl h
  | comment indent text =>
    rw [ConfLine.render, List.append_assoc, List.cons_append]
    exact matchAt_of_ne hkey indent.2.2 (by decide : '#' ∈ marks) _
  | setting indent key' gap value =>
    rw [ConfLine.render, List.append_assoc, List.cons_append,
      matchAt_setting hkey key'.2 indent.2.2 gap.2.2, valueOf]
    split_ifs <;> rfl

theorem matchAt_nil (hkey : isConfKey key) : matchAt key [] = none := by
  obtain ⟨c, word, rfl⟩ := exists_cons_of_isConfKey hkey
  rfl

theorem matchAt_append {blanks : List Char} (hblanks : ∀ c ∈ blanks, isSpace c)
    (more : List Char) : matchAt key (blanks ++ more) = matchAt key more := by
  rw [matchAt, List.dropWhile_append_of_pos hblanks, matchAt]

/-! The text behind a line. -/

def below : List ConfLine → List Char
  | [] => []
  | line :: rest => '\n' :: render (line :: rest)

theorem render_cons (line : ConfLine) (rest : List ConfLine) :
    render (line :: rest) = line.render ++ below rest := by
  cases rest with
  | nil => simp [render, below]
  | cons => simp [render, below, List.intercalate_cons_cons]

theorem matchAt_below (rest : List ConfLine) :
    matchAt key (below rest) = matchAt key (render rest) := by
  cases rest with
  | nil => rfl
  | cons line rest =>
    exact matchAt_append (List.forall_mem_singleton.mpr rfl) (render (line :: rest))

theorem searchFrom_inside {text : List Char} (htext : '\n' ∉ text) (rest : List ConfLine) :
    searchFrom key false (text ++ below rest) = search key (render rest) := by
  induction text with
  | nil =>
    cases rest with
    | nil => rfl
    | cons line rest => rfl
  | cons c text ih =>
    obtain ⟨hc, htext⟩ := not_or.mp (List.mem_cons.not.mp htext)
    have hne : decide (c = '\n') = false := decide_eq_false fun h => hc h.symm
    rw [List.cons_append, searchFrom, if_neg Bool.false_ne_true, hne]
    exact ih htext

/-- The search tries the line and then goes on below it. -/
theorem search_cons (hkey : isConfKey key) (line : ConfLine) (rest : List ConfLine) :
    search key (render (line :: rest)) =
      (matchAt key (render (line :: rest))).or (search key (render rest)) := by
  have hlf := line.notMem_render.1
  rw [render_cons]
  cases hline : line.render with
  | nil =>
    cases rest with
    | nil =>
      rw [List.nil_append, below, matchAt_nil hkey]
      rfl
    | cons next rest =>
      rw [List.nil_append, below, search, searchFrom, if_pos rfl]
      cases matchAt key ('\n' :: render (next :: rest)) <;> rfl
  | cons c text =>
    rw [hline] at hlf
    obtain ⟨hc, htext⟩ := not_or.mp (List.mem_cons.not.mp hlf)
    have hne : decide (c = '\n') = false := decide_eq_false fun h => hc h.symm
    rw [List.cons_append, search, searchFrom, if_pos rfl, hne, searchFrom_inside htext]
    cases matchAt key (c :: (text ++ below rest)) <;> rfl

theorem isSpace_below (h : ∀ line ∈ rest, line.isBlank) : ∀ c ∈ below rest, isSpace c := by
  induction rest with
  | nil => nofun
  | cons line rest ih =>
    obtain ⟨hline, hrest⟩ := List.forall_mem_cons.mp h
    rw [below, render_cons, List.forall_mem_cons, List.forall_mem_append]
    exact ⟨rfl, isSpace_of_isBlank hline, ih hrest⟩

theorem firstSetting_of_isBlank (h : ∀ line ∈ lines, line.isBlank) :
    firstSetting key lines = none := by
  induction lines with
  | nil => rfl
  | cons line rest ih =>
    obtain ⟨hline, hrest⟩ := List.forall_mem_cons.mp h
    cases line with
    | blank => exact ih hrest
    | header | comment | setting => cases hline

/-- What is captured is nothing only where there is nothing but line feeds. -/
theorem captured_eq_none {text : List Char} (h : captured text = none) :
    ∀ c ∈ text, c = '\n' := by
  unfold captured at h
  split at h
  next hblank =>
    rw [Option.map_eq_none_iff, List.getLast?_eq_none_iff, List.filter_eq_nil_iff] at h
    simpa using h
  next => cases h

theorem mem_below {c : Char} (h : line ∈ rest) (hc : c ∈ line.render) : c ∈ below rest := by
  induction rest with
  | nil => cases h
  | cons first rest ih =>
    rw [below, render_cons, List.mem_cons, List.mem_append]
    rcases List.mem_cons.mp h with rfl | h
    · exact .inr (.inl hc)
    · exact .inr (.inr (ih h))

theorem below_eq_lf_iff : (∀ c ∈ below rest, c = '\n') ↔ ∀ line ∈ rest, line.render = [] := by
  constructor
  · intro h line hline
    refine List.eq_nil_iff_forall_not_mem.mpr fun c hc => ?_
    obtain rfl := h c (mem_below hline hc)
    exact line.notMem_render.1 hc
  · intro h
    induction rest with
    | nil => nofun
    | cons line rest ih =>
      obtain ⟨hline, hrest⟩ := List.forall_mem_cons.mp h
      rw [below, render_cons, hline, List.nil_append, List.forall_mem_cons]
      exact ⟨rfl, ih hrest⟩

theorem isBlank_of_render (h : line.render = []) : line.isBlank := by
  by_contra hblank
  obtain ⟨c, -, hc⟩ := exists_mark hblank
  rw [h] at hc
  cases hc

/-- The search finds the first line of the key, and captures from behind its equals sign. -/
theorem search_render (hkey : isConfKey key) (lines : List ConfLine) :
    search key (render lines) =
      (firstSetting key lines).bind fun found => captured (found.1 ++ below found.2) := by
  induction lines with
  | nil => rfl
  | cons line rest ih =>
    rw [search_cons hkey, render_cons]
    by_cases hblank : line.isBlank
    · have hnone : line.valueOf key = none := by
        cases line with
        | blank => rfl
        | header | comment | setting => cases hblank
      rw [matchAt_append (isSpace_of_isBlank hblank), matchAt_below, firstSetting, hnone]
      -- what matches at the start of the rest is what the search of the rest finds
      refine Eq.trans ?_ ih
      cases rest with
      | nil => rw [show render [] = [] from rfl, matchAt_nil hkey, Option.none_or]
      | cons next rest =>
        rw [search_cons hkey]
        cases matchAt key (render (next :: rest)) <;> rfl
    · rw [matchAt_render hkey hblank, firstSetting]
      cases hvalue : line.valueOf key with
      | none => rw [Option.bind_none, Option.none_or, ih]
      | some value =>
        rw [Option.bind_some]
        cases hcaptured : captured (value ++ below rest) with
        | some group => simp [hcaptured]
        | none =>
          have hlf := captured_eq_none hcaptured
          have hrest := below_eq_lf_iff.mp fun c hc => hlf c (List.mem_append_right _ hc)
          rw [Option.none_or, ih,
            firstSetting_of_isBlank fun line hline => isBlank_of_render (hrest line hline)]
          simp [hcaptured]

/-! What is captured behind the equals sign. -/

theorem captured_word {value : List Char} (hlf : '\n' ∉ value) (hword : strip value ≠ [])
    (rest : List ConfLine) : captured (value ++ below rest) = some (value.dropWhile isSpace) := by
  have hne : value.dropWhile isSpace ≠ [] := by
    intro h
    rw [← strip_dropWhile, h] at hword
    exact hword rfl
  have hdrop : (value ++ below rest).dropWhile isSpace =
      value.dropWhile isSpace ++ below rest := by
    rw [List.dropWhile_append, if_neg (by simpa using hne)]
  have hline : '\n' ∉ value.dropWhile isSpace := fun h => hlf (List.dropWhile_subset _ h)
  obtain ⟨c, word, hcons⟩ := List.exists_cons_of_ne_nil hne
  rw [hcons] at hdrop hline ⊢
  rw [captured, hdrop]
  cases rest with
  | nil => simp only [below, List.append_nil, (Text.takeWhile_line hline []).2]
  | cons next rest => exact congrArg some (Text.takeWhile_line hline _).1

theorem captured_append {blanks : List Char} (hblanks : ∀ c ∈ blanks, isSpace c)
    {text : List Char} (htext : strip text ≠ []) : captured (blanks ++ text) = captured text := by
  have hne : text.dropWhile isSpace ≠ [] := by
    intro h
    rw [← strip_dropWhile, h] at htext
    exact htext rfl
  obtain ⟨c, word, hcons⟩ := List.exists_cons_of_ne_nil hne
  rw [captured, List.dropWhile_append_of_pos hblanks, captured, hcons]

theorem strip_ne_nil {text : List Char} {c : Char} (hc : c ∈ marks) (h : c ∈ text) :
    strip text ≠ [] := by
  intro hnil
  have hmem := mem_strip (isSpace_of_mem_marks hc) h
  rw [hnil] at hmem
  cases hmem

/-- Behind a blank value, the next line that is not blank is captured. -/
theorem captured_next {value : List Char} (hvalue : strip value = [])
    (h : ∃ line ∈ rest, ¬ line.isBlank) :
    ∃ line ∈ rest, ¬ line.isBlank ∧
      captured (value ++ below rest) = some (line.render.dropWhile isSpace) := by
  induction rest generalizing value with
  | nil => simp at h
  | cons line rest ih =>
    have hblanks : ∀ c ∈ value ++ ['\n'], isSpace c := by
      rw [List.forall_mem_append]
      exact ⟨strip_eq_nil_iff.mp hvalue, List.forall_mem_singleton.mpr rfl⟩
    have hsplit : value ++ below (line :: rest) =
        (value ++ ['\n']) ++ line.render ++ below rest := by
      rw [below, render_cons]
      simp
    rw [hsplit]
    by_cases hblank : line.isBlank
    · obtain ⟨next, hnext, hnot⟩ := h
      have hmem : next ∈ rest :=
        (List.mem_cons.mp hnext).resolve_left fun heq => hnot (heq ▸ hblank)
      have hall : strip ((value ++ ['\n']) ++ line.render) = [] := by
        rw [strip_eq_nil_iff, List.forall_mem_append]
        exact ⟨hblanks, isSpace_of_isBlank hblank⟩
      obtain ⟨found, hfound, hcaptured⟩ := ih hall ⟨next, hmem, hnot⟩
      exact ⟨found, List.mem_cons_of_mem _ hfound, hcaptured⟩
    · obtain ⟨c, hc, hmem⟩ := exists_mark hblank
      have hword : strip (line.render ++ below rest) ≠ [] :=
        strip_ne_nil hc (List.mem_append_left _ hmem)
      refine ⟨line, List.mem_cons_self, hblank, ?_⟩
      rw [List.append_assoc, captured_append hblanks hword,
        captured_word line.notMem_render.1 (strip_ne_nil hc hmem)]

/-- Behind a blank value with blank lines only, a blank is captured if there is one. -/
theorem captured_end {value : List Char} (hvalue : strip value = [])
    (h : ∀ line ∈ rest, line.isBlank) :
    (captured (value ++ below rest)).map strip =
      if ∀ c ∈ value ++ below rest, c = '\n' then none else some [] := by
  have hall : ∀ c ∈ value ++ below rest, isSpace c := by
    rw [List.forall_mem_append]
    exact ⟨strip_eq_nil_iff.mp hvalue, isSpace_below h⟩
  rw [captured, List.dropWhile_eq_nil_iff.mpr hall]
  split_ifs with hlf
  · have hfilter : (value ++ below rest).filter (fun c => c ≠ '\n') = [] := by
      rw [List.filter_eq_nil_iff]
      simpa using hlf
    rw [hfilter]
    rfl
  · have hne : (value ++ below rest).filter (fun c => c ≠ '\n') ≠ [] := by
      rw [Ne, List.filter_eq_nil_iff]
      simpa using hlf
    rw [List.getLast?_eq_some_getLast hne, Option.map_some, Option.map_some, Option.some.injEq,
      strip_eq_nil_iff]
    have hlast := List.mem_of_mem_filter (List.getLast_mem hne)
    simpa using hall _ hlast

/-! What the scan reads for one key. -/

theorem notMem_value {value : List Char} (h : firstSetting key lines = some (value, rest)) :
    '\n' ∉ value := by
  induction lines with
  | nil => cases h
  | cons line lines ih =>
    rw [firstSetting] at h
    split at h
    next value' hvalue =>
      obtain ⟨rfl, rfl⟩ := Prod.mk.inj (Option.some.inj h)
      cases line with
      | setting indent key' gap text =>
        rw [valueOf, Option.ite_none_right_eq_some] at hvalue
        obtain ⟨-, hvalue⟩ := hvalue
        exact Option.some.inj hvalue ▸ text.2.1
      | header | blank | comment => cases hvalue
    next => exact ih h

variable {text value : List Char}

theorem configured_eq (hkey : isConfKey key) (default : List Char)
    (htext : readText text = render lines) : configured key default (some text) =
      (((firstSetting key lines).bind fun found =>
        captured (found.1 ++ below found.2)).map strip).getD default := by
  rw [configured, Option.bind_some, htext, search_render hkey]

theorem configured_of_value (hkey : isConfKey key) (default : List Char)
    (htext : readText text = render lines) (hfirst : firstSetting key lines = some (value, rest))
    (hvalue : strip value ≠ []) : configured key default (some text) = strip value := by
  rw [configured_eq hkey default htext, hfirst, Option.bind_some,
    captured_word (notMem_value hfirst) hvalue]
  exact strip_dropWhile value

/-- Where the value is blank, the scan reads the next line that is not. -/
theorem configured_of_next (hkey : isConfKey key) (default : List Char)
    (htext : readText text = render lines) (hfirst : firstSetting key lines = some (value, rest))
    (hvalue : strip value = []) (hrest : ∃ line ∈ rest, ¬ line.isBlank) :
    ∃ line ∈ rest, ¬ line.isBlank ∧
      configured key default (some text) = strip line.render := by
  obtain ⟨line, hline, hblank, hcaptured⟩ := captured_next hvalue hrest
  refine ⟨line, hline, hblank, ?_⟩
  rw [configured_eq hkey default htext, hfirst, Option.bind_some, hcaptured]
  exact strip_dropWhile line.render

/-- Where only blank lines follow a blank value, the scan reads nothing or the default. -/
theorem configured_of_end (hkey : isConfKey key) (default : List Char)
    (htext : readText text = render lines) (hfirst : firstSetting key lines = some (value, rest))
    (hvalue : strip value = []) (hrest : ∀ line ∈ rest, line.isBlank) :
    configured key default (some text) = default ↔
      default = [] ∨ value = [] ∧ ∀ line ∈ rest, line.render = [] := by
  have hlf : (∀ c ∈ value ++ below rest, c = '\n') ↔
      value = [] ∧ ∀ line ∈ rest, line.render = [] := by
    rw [List.forall_mem_append, below_eq_lf_iff, and_congr_left_iff]
    intro _
    constructor
    · intro h
      refine List.eq_nil_iff_forall_not_mem.mpr fun c hc => ?_
      obtain rfl := h c hc
      exact notMem_value hfirst hc
    · rintro rfl
      nofun
  rw [configured_eq hkey default htext, hfirst, Option.bind_some, captured_end hvalue hrest, ← hlf]
  split_ifs with h
  · exact iff_of_true rfl (.inr h)
  · rw [or_iff_left h]
    exact eq_comm

/-- The scan reads the value on the first line of the key, or the default, exactly if a blank
value is the end of the text. -/
theorem configured_eq_expected_iff (hkey : isConfKey key) (hdefault : ∀ c ∈ marks, c ∉ default)
    (htext : readText text = render lines) :
    configured key default (some text) = expected key default lines ↔
      BlankAtEnd key default lines := by
  cases hfirst : firstSetting key lines with
  | none =>
    refine iff_of_true ?_ fun value rest h => ?_
    · rw [configured_eq hkey default htext, expected, hfirst]
      rfl
    · rw [hfirst] at h
      cases h
  | some found =>
    obtain ⟨value, rest⟩ := found
    have hcond : BlankAtEnd key default lines ↔ (strip value = [] →
        (∀ line ∈ rest, line.isBlank) ∧
          (default = [] ∨ value = [] ∧ ∀ line ∈ rest, line.render = [])) := by
      simp [BlankAtEnd, hfirst]
    rw [hcond, expected, hfirst]
    by_cases hvalue : strip value = []
    · simp only [hvalue, if_true, true_imp_iff]
      by_cases hrest : ∀ line ∈ rest, line.isBlank
      · rw [and_iff_right hrest]
        exact configured_of_end hkey default htext hfirst hvalue hrest
      · refine iff_of_false ?_ fun h => hrest h.1
        simp only [not_forall, exists_prop] at hrest
        obtain ⟨line, -, hblank, hread⟩ :=
          configured_of_next hkey default htext hfirst hvalue hrest
        obtain ⟨c, hc, hmem⟩ := exists_mark hblank
        rw [hread]
        rintro rfl
        exact hdefault c hc (mem_strip (isSpace_of_mem_marks hc) hmem)
    · simp only [hvalue, if_false, false_imp_iff, iff_true]
      exact configured_of_value hkey default htext hfirst hvalue

/-- A value that ends the line is read back as it is, unless it is empty or has blanks around. -/
theorem configured_eq_value_iff (hkey : isConfKey key) (default : List Char)
    (htext : readText text = render lines)
    (hfirst : firstSetting key lines = some (' ' :: value, rest))
    (hrest : ∃ line ∈ rest, ¬ line.isBlank) :
    configured key default (some text) = value ↔ value ≠ [] ∧ strip value = value := by
  have hstrip : strip (' ' :: value) = strip value := by
    rw [strip, List.dropWhile_cons_of_pos rfl, strip]
  by_cases hvalue : strip value = []
  · refine iff_of_false ?_ fun h => h.1 (h.2 ▸ hvalue)
    obtain ⟨line, -, hblank, hread⟩ :=
      configured_of_next hkey default htext hfirst (hstrip.trans hvalue) hrest
    obtain ⟨c, hc, hmem⟩ := exists_mark hblank
    rw [hread]
    rintro rfl
    have hspace := isSpace_of_mem_marks hc
    rw [strip_eq_nil_iff.mp hvalue c (mem_strip hspace hmem)] at hspace
    cases hspace
  · rw [configured_of_value hkey default htext hfirst (hstrip ▸ hvalue), hstrip]
    refine (and_iff_right ?_).symm
    rintro rfl
    exact hvalue rfl

/-! What the generator writes, read back. -/

def noBlanks : Blanks := ⟨[], by simp⟩

def oneBlank : Blanks := ⟨[' '], by simp, List.forall_mem_singleton.mpr rfl⟩

/-- A line as the generator writes it. -/
def settingWith (key : ConfKey) (value : LineText) : ConfLine :=
  .setting noBlanks key oneBlank ⟨' ' :: value.1, by simp [value.2]⟩

def template (key address dns server allowed endpoint : LineText) : List ConfLine :=
  [.header noBlanks ⟨"Interface".toList, by decide⟩ noBlanks,
    settingWith ⟨"PrivateKey".toList, by decide⟩ key,
    settingWith ⟨"Address".toList, by decide⟩ address,
    settingWith ⟨"DNS".toList, by decide⟩ dns,
    .blank noBlanks,
    .header noBlanks ⟨"Peer".toList, by decide⟩ noBlanks,
    settingWith ⟨"PublicKey".toList, by decide⟩ server,
    settingWith ⟨"AllowedIPs".toList, by decide⟩ allowed,
    settingWith ⟨"Endpoint".toList, by decide⟩ endpoint,
    settingWith ⟨"PersistentKeepalive".toList, by decide⟩ ⟨"25".toList, by decide⟩,
    .blank noBlanks]

theorem generatePeerConfig_template (name : List Char)
    (key address dns server allowed endpoint : LineText) :
    generatePeerConfig name key.1 address.1 server.1 endpoint.1 dns.1 allowed.1 =
      render (template key address dns server allowed endpoint) := by
  rw [generatePeerConfig_eq, render, template, templateLines]
  simp only [List.map_cons, List.map_nil]
  rfl

theorem notMem_render_lines (lines : List ConfLine) : '\r' ∉ render lines := by
  induction lines with
  | nil => simp [render]
  | cons line rest ih =>
    rw [render_cons, List.mem_append, not_or]
    refine ⟨line.notMem_render.2, ?_⟩
    cases rest with
    | nil => exact List.not_mem_nil
    | cons => simpa [below] using ih

/-- Every value that the scan reads is the one on the first line of its key, or the default. -/
def Peer.ReadsExpected (peer : Peer) (lines : List ConfLine) : Prop :=
  peer.address = expected "Address".toList [] lines ∧
    peer.allowedIps = expected "AllowedIPs".toList "0.0.0.0/0, ::/0".toList lines ∧
    peer.dns = expected "DNS".toList "10.13.13.1".toList lines

def BlanksAtEnd (lines : List ConfLine) : Prop :=
  BlankAtEnd "Address".toList [] lines ∧
    BlankAtEnd "AllowedIPs".toList "0.0.0.0/0, ::/0".toList lines ∧
    BlankAtEnd "DNS".toList "10.13.13.1".toList lines

theorem readsExpected_iff {configPath : Path} {entry : Entry} {peer : Peer}
    (hpeer : scanPeer configPath entry = some peer) (hconf : entry.conf = some text)
    (htext : readText text = render lines) : peer.ReadsExpected lines ↔ BlanksAtEnd lines := by
  obtain ⟨-, -, haddress, hallowed, hdns⟩ := scanPeer_eq_some hpeer
  rw [Peer.ReadsExpected, haddress, hallowed, hdns, hconf]
  refine and_congr ?_ (and_congr ?_ ?_)
  · exact configured_eq_expected_iff (by decide) (by simp) htext
  · exact configured_eq_expected_iff (by decide) (by simp [marks]) htext
  · exact configured_eq_expected_iff (by decide) (by simp [marks]) htext

/-- A text as the scan wants it: not empty, and without blanks around it. -/
def Trimmed (text : LineText) : Prop := text.1 ≠ [] ∧ strip text.1 = text.1

theorem scan_generated_iff {configPath : Path} {entry : Entry} {peer : Peer} {name : List Char}
    {key address dns server allowed endpoint : LineText}
    (hpeer : scanPeer configPath entry = some peer)
    (hconf : entry.conf = some
      (generatePeerConfig name key.1 address.1 server.1 endpoint.1 dns.1 allowed.1)) :
    peer.address = address.1 ∧ peer.dns = dns.1 ∧ peer.allowedIps = allowed.1 ↔
      Trimmed address ∧ Trimmed dns ∧ Trimmed allowed := by
  obtain ⟨-, -, haddress, hallowed, hdns⟩ := scanPeer_eq_some hpeer
  have htext := readText_of_notMem
    (notMem_render_lines (template key address dns server allowed endpoint))
  rw [haddress, hallowed, hdns, hconf, generatePeerConfig_template]
  have hkeepalive : ¬ (settingWith ⟨"PersistentKeepalive".toList, by decide⟩
      ⟨"25".toList, by decide⟩).isBlank := nofun
  refine and_congr ?_ (and_congr ?_ ?_)
  · exact configured_eq_value_iff (by decide) _ htext rfl ⟨_, by simp, hkeepalive⟩
  · exact configured_eq_value_iff (by decide) _ htext rfl ⟨_, by simp, hkeepalive⟩
  · exact configured_eq_value_iff (by decide) _ htext rfl ⟨_, by simp, hkeepalive⟩

/-- Of every text of headers, blank lines, comments and settings, the scan reads the values on the
first lines of the three keys exactly if those that are blank end the text; and of what the
generator writes, it reads back exactly the values that are not blank and have no blanks around. -/
theorem scan_reads_iff {configPath : Path} {entry : Entry} {peer : Peer}
    (hpeer : scanPeer configPath entry = some peer) :
    (∀ text lines, entry.conf = some text → readText text = render lines →
      (peer.ReadsExpected lines ↔ BlanksAtEnd lines)) ∧
    ∀ (name : List Char) (key address dns server allowed endpoint : LineText),
      entry.conf = some
        (generatePeerConfig name key.1 address.1 server.1 endpoint.1 dns.1 allowed.1) →
      (peer.address = address.1 ∧ peer.dns = dns.1 ∧ peer.allowedIps = allowed.1 ↔
        Trimmed address ∧ Trimmed dns ∧ Trimmed allowed) :=
  ⟨fun _ _ hconf htext => readsExpected_iff hpeer hconf htext,
    fun _ _ _ _ _ _ _ hconf => scan_generated_iff hpeer hconf⟩

/-- A peer directory with the configuration that the generator writes for an address. -/
def generatedEntry (address : List Char) : Entry where
  name := "peer1".toList
  isDir := true
  privateKey := some peerKey
  publicKey := none
  conf := some (generatePeerConfig "peer1".toList "k".toList address "s".toList
    "10.0.0.5:51820".toList "10.13.13.1".toList "0.0.0.0/0, ::/0".toList)

theorem scan_reads_address : ∃ peer,
    scanPeer ["config".toList] (generatedEntry "10.13.13.2/32".toList) = some peer ∧
      peer.address = "10.13.13.2/32".toList := by
  obtain ⟨peer, hpeer⟩ : ∃ peer, scanPeer ["config".toList]
    (generatedEntry "10.13.13.2/32".toList) = some peer := ⟨_, rfl⟩
  refine ⟨peer, hpeer, ?_⟩
  have hgenerated := (scan_reads_iff hpeer).2 _ ⟨"k".toList, by decide⟩
    ⟨"10.13.13.2/32".toList, by decide⟩ ⟨"10.13.13.1".toList, by decide⟩ ⟨"s".toList, by decide⟩
    ⟨"0.0.0.0/0, ::/0".toList, by decide⟩ ⟨"10.0.0.5:51820".toList, by decide⟩ rfl
  exact (hgenerated.mpr ⟨⟨by decide, by decide⟩, ⟨by decide, by decide⟩, by decide, by decide⟩).1

/-- With an empty address, the scan takes the line below for it. -/
theorem blank_address_reads_dns : ∃ peer,
    scanPeer ["config".toList] (generatedEntry []) = some peer ∧
      peer.address = "DNS = 10.13.13.1".toList := ⟨_, rfl, by decide⟩

end VpnGateway.PeerConfigs
