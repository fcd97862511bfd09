import VpnGateway.Proxy.Sniff

/-! Where `parse_http_host` takes the host from: the target of a CONNECT request, or the first Host
header of another one. -/
namespace VpnGateway

/-! The host as a function of what follows the word that announces it. -/

/-- The characters of a CONNECT target up to the port. -/
def isTargetChar (c : Char) : Bool := !Text.isWhitespace c && c != ':'

/-- A line of the header that is not its end and announces no host. -/
structure HeaderLine (line : List Char) : Prop where
  no_lf : '\n' ∉ line
  not_host : isHostHeader line = false
  not_end : line ≠ [] ∧ line ≠ ['\r']

/-- A request so far, up to the start of a line in its header: no CONNECT, and no host yet. -/
def InHeader (before : List Char) : Prop :=
  ∃ (first : List Char) (headers : List (List Char)), '\n' ∉ first ∧
    ¬"CONNECT ".toList <+: first ∧ (∀ line ∈ headers, HeaderLine line) ∧
    before = first ++ '\n' :: headers.flatMap (· ++ ['\n'])

/-- The name of the header, in any case. -/
def IsHostName (name : List Char) : Prop := name.map Char.toLower = "host:".toList

/-- The host that follows the name of the header. -/
def headerHost (value : List Char) : List Char :=
  beforeColon (Text.trim (value.takeWhile (· ≠ '\n')))

/-- The host that follows `CONNECT` and a space. -/
def targetHost (rest : List Char) : List Char :=
  (rest.dropWhile Text.isWhitespace).takeWhile isTargetChar

/-- The text names this host. -/
inductive HostIn : List Char → List Char → Prop
  | connect {rest : List Char}
      (hword : ∃ c ∈ rest.takeWhile (· ≠ '\n'), Text.isWhitespace c = false) :
      HostIn ("CONNECT ".toList ++ rest) (targetHost rest)
  | header {before name value : List Char} (hbefore : InHeader before) (hname : IsHostName name) :
      HostIn (before ++ (name ++ value)) (headerHost value)

namespace IsHostName

theorem length {name : List Char} (h : IsHostName name) : name.length = 5 := by
  have := congrArg List.length h
  simpa using this

theorem getLast_ne {name : List Char} (h : IsHostName name) : name.getLast? ≠ some '\r' := by
  intro hlast
  have hmap := congrArg List.getLast? h
  rw [List.getLast?_map, hlast] at hmap
  cases hmap

theorem no_lf {name : List Char} (h : IsHostName name) : '\n' ∉ name := by
  intro hmem
  have hlower : Char.toLower '\n' ∈ name.map Char.toLower := List.mem_map_of_mem hmem
  rw [h] at hlower
  revert hlower
  decide

end IsHostName

theorem isHostHeader_iff (line : List Char) :
    isHostHeader line = true ↔ ∃ name, IsHostName name ∧ name <+: line := by
  rw [isHostHeader, beq_iff_eq]
  constructor
  · intro h
    exact ⟨line.take 5, h, List.take_prefix 5 line⟩
  · rintro ⟨name, hname, more, rfl⟩
    rw [List.take_left' hname.length]
    exact hname

theorem isHostHeader_stripCr (line : List Char) :
    isHostHeader (Text.stripCr line) = isHostHeader line := by
  rw [Bool.eq_iff_iff, isHostHeader_iff, isHostHeader_iff]
  exact exists_congr fun name => and_congr_right fun hname =>
    Text.prefix_stripCr_iff hname.getLast_ne line

/-- The header lines before the host are skipped. -/
theorem findHostHeader_header {headers : List (List Char)}
    (hheaders : ∀ line ∈ headers, HeaderLine line) {name : List Char} (hname : IsHostName name)
    (value : List Char) :
    findHostHeader (Text.lines (headers.flatMap (· ++ ['\n']) ++ (name ++ value))) =
      some (headerHost value) := by
  induction headers with
  | nil =>
    have htake (v : List Char) : isHostHeader (name ++ v) = true :=
      (isHostHeader_iff _).mpr ⟨name, hname, List.prefix_append name v⟩
    have hdrop (v : List Char) : (name ++ v).drop 5 = v := List.drop_left' hname.length
    rw [List.flatMap_nil, List.nil_append, headerHost]
    rcases Text.line_cases value with hvalue | ⟨line, rest, hline, rfl⟩
    · have hlf : '\n' ∉ name ++ value := by simp [hname.no_lf, hvalue]
      have hne : name ++ value ≠ [] := by
        intro h
        have := hname.length
        simp_all
      rw [Text.lines_of_notMem hlf, if_neg hne, findHostHeader, if_pos (htake value), hdrop,
        (Text.takeWhile_line hvalue []).2]
    · have hlf : '\n' ∉ name ++ line := by simp [hname.no_lf, hline]
      rw [← List.append_assoc, Text.lines_append hlf, Text.stripCr_append hname.getLast_ne,
        findHostHeader, if_pos (htake _), hdrop, Text.trim_stripCr,
        (Text.takeWhile_line hline rest).1]
  | cons line headers ih =>
    obtain ⟨hline, hheaders⟩ := List.forall_mem_cons.mp hheaders
    have hsplit : (line :: headers).flatMap (· ++ ['\n']) ++ (name ++ value) =
        line ++ '\n' :: (headers.flatMap (· ++ ['\n']) ++ (name ++ value)) := by
      simp
    have hnot : isHostHeader (Text.stripCr line) = false := by
      rw [isHostHeader_stripCr, hline.not_host]
    have hne : Text.stripCr line ≠ [] := by
      rw [Ne, Text.stripCr_eq_nil_iff, not_or]
      exact hline.not_end
    rw [hsplit, Text.lines_append hline.no_lf, findHostHeader, if_neg (by simp [hnot]), if_neg hne,
      ih hheaders]

/-- What is found among the lines stands behind lines that are skipped. -/
theorem exists_hostHeader {s host : List Char} (h : findHostHeader (Text.lines s) = some host) :
    ∃ (headers : List (List Char)) (name value : List Char),
      (∀ line ∈ headers, HeaderLine line) ∧ IsHostName name ∧
        s = headers.flatMap (· ++ ['\n']) ++ (name ++ value) := by
  induction hlen : s.length using Nat.strong_induction_on generalizing s with
  | _ n ih =>
    have hhere {line : List Char} (hhost : isHostHeader line = true) (rest : List Char) :
        ∃ (headers : List (List Char)) (name value : List Char),
          (∀ line ∈ headers, HeaderLine line) ∧ IsHostName name ∧
            line ++ rest = headers.flatMap (· ++ ['\n']) ++ (name ++ value) := by
      obtain ⟨name, hname, more, rfl⟩ := (isHostHeader_iff line).mp hhost
      exact ⟨[], name, more ++ rest, by simp, hname, by simp⟩
    rcases Text.line_cases s with hs | ⟨line, rest, hline, rfl⟩
    · by_cases hnil : s = []
      · rw [hnil] at h
        cases h
      · rw [Text.lines_of_notMem hs, if_neg hnil, findHostHeader] at h
        split_ifs at h with hhost
        · have := hhere hhost []
          rwa [List.append_nil] at this
        · cases h
    · rw [Text.lines_append hline, findHostHeader, isHostHeader_stripCr] at h
      split_ifs at h with hhost hend
      · exact hhere hhost _
      · have hlt : rest.length < n := by
          rw [← hlen, List.length_append, List.length_cons]
          omega
        obtain ⟨headers, name, value, hheaders, hname, rfl⟩ := ih _ hlt h rfl
        rw [Bool.not_eq_true] at hhost
        rw [Text.stripCr_eq_nil_iff, not_or] at hend
        exact ⟨line :: headers, name, value,
          List.forall_mem_cons.mpr ⟨⟨hline, hhost, hend⟩, hheaders⟩, hname, by simp⟩

theorem targetHost_append {rest : List Char} (hword : ∃ c ∈ rest, Text.isWhitespace c = false)
    (more : List Char) : targetHost (rest ++ more) = targetHost rest ↔
      (∃ c ∈ rest.dropWhile Text.isWhitespace, isTargetChar c = false) ∨
        ∀ c ∈ more.head?, isTargetChar c = false := by
  rw [targetHost, targetHost, Text.dropWhile_append_of_word hword, Text.takeWhile_append_eq_iff]

/-- The end of its line does not belong to the target. -/
theorem targetHost_line {line : List Char} (hword : ∃ c ∈ line, Text.isWhitespace c = false)
    (rest : List Char) : targetHost (line ++ '\n' :: rest) = targetHost (Text.stripCr line) := by
  have hlf : ∀ c ∈ ('\n' :: rest).head?, isTargetChar c = false := by simp [isTargetChar]; rfl
  rw [(targetHost_append hword _).mpr (.inr hlf)]
  have hstrip := (Text.word_stripCr line).mpr hword
  unfold Text.stripCr at hstrip ⊢
  split_ifs at hstrip ⊢ with hcr
  · obtain ⟨start, rfl⟩ := List.getLast?_eq_some_iff.mp hcr
    rw [List.dropLast_concat] at hstrip ⊢
    have hend : ∀ c ∈ ['\r'].head?, isTargetChar c = false := by simp [isTargetChar]; rfl
    exact (targetHost_append hstrip _).mpr (.inr hend)
  · rfl

theorem connect_getLast_ne : "CONNECT ".toList.getLast? ≠ some '\r' := by decide

/-- The second word of a CONNECT line. -/
theorem connect_target (line : List Char) :
    ((Text.splitWhitespace ("CONNECT ".toList ++ line))[1]?).map beforeColon =
      if line.dropWhile Text.isWhitespace = [] then none else some (targetHost line) := by
  have hword : ∀ c ∈ "CONNECT".toList, Text.isWhitespace c = false := by simp [Text.isWhitespace]
  have hsplit : "CONNECT ".toList ++ line = "CONNECT".toList ++ ' ' :: line := rfl
  rw [hsplit, Text.splitWhitespace_cons (by decide) hword rfl, List.getElem?_cons_succ,
    Text.splitWhitespace_first]
  split_ifs
  · rfl
  · have hchar : (fun c => decide (decide (c ≠ ':') = true ∧ (!Text.isWhitespace c) = true)) =
        isTargetChar := by
      funext c
      rw [isTargetChar, Bool.and_comm, Bool.eq_iff_iff]
      simp
    rw [Option.map_some, beforeColon, List.takeWhile_takeWhile, targetHost, hchar]

theorem hostOfRequest_of_lines {s first : List Char} {others : List (List Char)}
    (h : Text.lines s = first :: others) :
    hostOfRequest s = if "CONNECT ".toList <+: first then
      ((Text.splitWhitespace first)[1]?).map beforeColon else findHostHeader others := by
  rw [hostOfRequest, h]
  simp only [List.getElem?_cons_zero, Option.bind_eq_bind, Option.bind_some, List.drop_succ_cons,
    List.drop_zero, Option.pure_def, Option.map_eq_bind, Function.comp_def]

theorem HostIn.of_connect {rest : List Char} (h : rest.dropWhile Text.isWhitespace ≠ [])
    (hline : rest.takeWhile (· ≠ '\n') = rest) :
    HostIn ("CONNECT ".toList ++ rest) (targetHost rest) := by
  refine .connect ?_
  rw [hline]
  exact not_not.mp fun hno => h ((Text.dropWhile_eq_nil_iff_not_word rest).mpr hno)

/-- `parse_http_host` finds what the text names, and only that. -/
theorem hostOfRequest_eq_some_iff {s host : List Char} :
    hostOfRequest s = some host ↔ HostIn s host := by
  constructor
  · intro h
    rcases Text.line_cases s with hs | ⟨line, rest, hline, rfl⟩
    · by_cases hnil : s = []
      · rw [hnil] at h
        cases h
      rw [hostOfRequest_of_lines (by rw [Text.lines_of_notMem hs, if_neg hnil])] at h
      split_ifs at h with hconnect
      · obtain ⟨rest, rfl⟩ := hconnect
        rw [connect_target] at h
        split_ifs at h with hword
        rw [← Option.some.inj h]
        have hrest : '\n' ∉ rest := fun hmem => hs (List.mem_append_right _ hmem)
        exact .of_connect hword (Text.takeWhile_line hrest []).2
      · cases h
    · rw [hostOfRequest_of_lines (Text.lines_append hline)] at h
      split_ifs at h with hconnect
      · obtain ⟨word, rfl⟩ := (Text.prefix_stripCr_iff connect_getLast_ne line).mp hconnect
        rw [Text.stripCr_append connect_getLast_ne, connect_target] at h
        split_ifs at h with hword
        have hmore : '\n' ∉ word := fun hmem => hline (List.mem_append_right _ hmem)
        have hsome : ∃ c ∈ word, Text.isWhitespace c = false :=
          (Text.word_stripCr word).mp (not_not.mp fun hno =>
            hword ((Text.dropWhile_eq_nil_iff_not_word _).mpr hno))
        rw [← Option.some.inj h, ← targetHost_line hsome rest, List.append_assoc]
        refine .connect ?_
        rw [(Text.takeWhile_line hmore rest).1]
        exact hsome
      · obtain ⟨headers, name, value, hheaders, hname, rfl⟩ := exists_hostHeader h
        rw [Text.prefix_stripCr_iff connect_getLast_ne] at hconnect
        rw [findHostHeader_header hheaders hname] at h
        rw [← Option.some.inj h, ← List.cons_append, ← List.append_assoc]
        exact .header ⟨line, headers, hline, hconnect, hheaders, rfl⟩ hname
  · intro h
    cases h with
    | @connect rest hword =>
      rcases Text.line_cases rest with hrest | ⟨line, more, hline, rfl⟩
      · rw [(Text.takeWhile_line hrest []).2] at hword
        have hlf : '\n' ∉ "CONNECT ".toList ++ rest := by
          rw [List.mem_append, not_or]
          exact ⟨by decide, hrest⟩
        have hlines : Text.lines ("CONNECT ".toList ++ rest) = ["CONNECT ".toList ++ rest] := by
          rw [Text.lines_of_notMem hlf, if_neg (by simp)]
        rw [hostOfRequest_of_lines hlines, if_pos (List.prefix_append _ _), connect_target, if_neg]
        rw [Text.dropWhile_eq_nil_iff_not_word]
        exact not_not.mpr hword
      · rw [(Text.takeWhile_line hline more).1] at hword
        have hlf : '\n' ∉ "CONNECT ".toList ++ line := by
          rw [List.mem_append, not_or]
          exact ⟨by decide, hline⟩
        have hlines : Text.lines ("CONNECT ".toList ++ (line ++ '\n' :: more)) =
            ("CONNECT ".toList ++ Text.stripCr line) :: Text.lines more := by
          rw [← List.append_assoc, Text.lines_append hlf, Text.stripCr_append connect_getLast_ne]
        rw [hostOfRequest_of_lines hlines, if_pos (List.prefix_append _ _), connect_target,
          targetHost_line hword, if_neg]
        rw [Text.dropWhile_eq_nil_iff_not_word]
        exact not_not.mpr ((Text.word_stripCr line).mpr hword)
    | @header before name value hbefore hname =>
      obtain ⟨first, headers, hfirst, hconnect, hheaders, rfl⟩ := hbefore
      have hstrip : ¬"CONNECT ".toList <+: Text.stripCr first := by
        rwa [Text.prefix_stripCr_iff connect_getLast_ne]
      rw [List.append_assoc, List.cons_append, hostOfRequest_of_lines (Text.lines_append hfirst),
        if_neg hstrip, findHostHeader_header hheaders hname]

end VpnGateway
