import VpnGateway.Proxy.HttpHost
import VpnGateway.Proxy.ServerName

/-! What `sniff` decides on the first bytes of a connection, and what it would have decided on
more of them. -/
namespace VpnGateway

open Wire

/-- What follows cannot belong to the host of a CONNECT line. -/
def TargetEnds (rest more : List Char) : Prop :=
  (∃ c ∈ rest.dropWhile Text.isWhitespace, isTargetChar c = false) ∨
    ∀ c ∈ more.head?, isTargetChar c = false

/-- What is added to an unfinished line, up to a colon. -/
def gap (more : List Char) : List Char := beforeColon (more.takeWhile (· ≠ '\n'))

/-- Some word with whitespace behind it. -/
def EndsInSpace (l : List Char) : Prop :=
  (∃ c ∈ l, Text.isWhitespace c = false) ∧ ∃ c ∈ l.getLast?, Text.isWhitespace c = true

/-- What follows leaves the host of a header line as it is: the line has ended or has come to its
port, or nothing but whitespace is added to it up to its end, or up to a colon that no whitespace
separates from the host. -/
def ValueEnds (value more : List Char) : Prop :=
  '\n' ∈ value ∨ ':' ∈ value ∨
    ((∀ c ∈ gap more, Text.isWhitespace c = true) ∧
      (':' ∈ more.takeWhile (· ≠ '\n') → ¬EndsInSpace (value ++ gap more)))

/-- The text names a host, and text that follows leaves it as it is if and only if it meets the
condition. -/
inductive NamesHost : List Char → (List Char → Prop) → Prop
  | connect {rest : List Char}
      (hword : ∃ c ∈ rest.takeWhile (· ≠ '\n'), Text.isWhitespace c = false) :
      NamesHost ("CONNECT ".toList ++ rest) (TargetEnds rest)
  | header {before name value : List Char} (hbefore : InHeader before) (hname : IsHostName name) :
      NamesHost (before ++ (name ++ value)) (ValueEnds value)

/-- A server name that is UTF-8 has arrived. -/
def HasServerName (buf : Bytes) : Prop :=
  ∃ start len, ServerNameAt buf start len ∧ (nameAt buf start len).isSome

/-- What has arrived first decides as all of it does: it holds the server name of a ClientHello,
or names no host yet, or all of it is text without a server name and what came later leaves the
host as it is. -/
def CutKeepsHost (p q : Bytes) : Prop :=
  HasServerName p ∨ ∀ text ends, Utf8.decode p = some text → NamesHost text ends →
    ¬HasServerName q ∧ ∃ more, Utf8.decode q = some (text ++ more) ∧ ends more

theorem beforeColon_of_notMem {s : List Char} (h : ':' ∉ s) : beforeColon s = s :=
  List.takeWhile_eq_self_iff.mpr (Text.forall_ne_of_notMem h)

theorem beforeColon_append {a : List Char} (h : ':' ∉ a) (b : List Char) :
    beforeColon (a ++ ':' :: b) = a := by
  rw [beforeColon, List.takeWhile_append_of_pos (Text.forall_ne_of_notMem h)]
  simp

/-- Behind a colon, trimming does not matter. -/
theorem beforeColon_trim_append {a : List Char} (h : ':' ∉ a) (b : List Char) :
    beforeColon (Text.trim (a ++ ':' :: b)) = a.dropWhile Text.isWhitespace := by
  have hstart : (a ++ ':' :: b).dropWhile Text.isWhitespace =
      a.dropWhile Text.isWhitespace ++ ':' :: b := by
    rw [List.dropWhile_append]
    split_ifs with hall
    · rw [List.isEmpty_iff.mp hall]
      rfl
    · rfl
  rw [Text.trim, hstart, Text.rdropWhile_append_cons _ rfl]
  exact beforeColon_append (fun hc => h (List.dropWhile_subset _ hc)) _

theorem exists_colon_split {s : List Char} (h : ':' ∈ s) :
    ∃ b, s = beforeColon s ++ ':' :: b ∧ ':' ∉ beforeColon s := by
  obtain ⟨a, b, rfl, ha⟩ := List.eq_append_cons_of_mem h
  rw [beforeColon_append ha]
  exact ⟨b, rfl, ha⟩

/-- Only a word with whitespace behind it is changed by trimming the end. -/
theorem dropWhile_eq_trim_iff (s : List Char) :
    s.dropWhile Text.isWhitespace = Text.trim s ↔ ¬EndsInSpace s := by
  rw [eq_comm, Text.trim, List.rdropWhile_eq_self_iff]
  have hsplit := List.takeWhile_append_dropWhile (p := Text.isWhitespace) (l := s)
  generalize hword : s.dropWhile Text.isWhitespace = word at hsplit
  cases word with
  | nil =>
    have hall := List.dropWhile_eq_nil_iff.mp hword
    refine ⟨fun _ hspace => ?_, fun _ hne => absurd rfl hne⟩
    obtain ⟨c, hc, hno⟩ := hspace.1
    rw [hall c hc] at hno
    cases hno
  | cons c cs =>
    have hlast : s.getLast? = some ((c :: cs).getLast (List.cons_ne_nil c cs)) := by
      rw [← hsplit, List.getLast?_append_of_ne_nil _ (List.cons_ne_nil c cs),
        List.getLast?_eq_some_getLast (List.cons_ne_nil c cs)]
    have hfirst : ∃ c ∈ s, Text.isWhitespace c = false := by
      have hno := List.head?_dropWhile_not Text.isWhitespace s
      rw [hword] at hno
      exact ⟨c, by rw [← hsplit]; simp, by simpa using hno⟩
    constructor
    · rintro h ⟨-, d, hd, hspace⟩
      rw [hlast, Option.mem_some_iff] at hd
      exact h (List.cons_ne_nil c cs) (by rwa [hd])
    · intro h hne hspace
      exact h ⟨hfirst, _, hlast, hspace⟩

theorem headerHost_append (value more : List Char) :
    headerHost (value ++ more) = headerHost value ↔ ValueEnds value more := by
  unfold headerHost ValueEnds
  by_cases hlf : '\n' ∈ value
  · rw [(Text.takeWhile_append_eq_iff _ value more).mpr (.inl ⟨_, hlf, by simp⟩)]
    exact ⟨fun _ => .inl hlf, fun _ => rfl⟩
  have hall := Text.forall_ne_of_notMem hlf
  have hvalue : value.takeWhile (· ≠ '\n') = value := List.takeWhile_eq_self_iff.mpr hall
  rw [List.takeWhile_append_of_pos hall, hvalue, gap]
  generalize more.takeWhile (· ≠ '\n') = added
  by_cases hport : ':' ∈ value
  · obtain ⟨b, hsplit, hno⟩ := exists_colon_split hport
    have hsame : beforeColon (Text.trim (value ++ added)) = beforeColon (Text.trim value) := by
      rw [hsplit, List.append_assoc, List.cons_append, beforeColon_trim_append hno,
        beforeColon_trim_append hno]
    exact ⟨fun _ => .inr (.inl hport), fun _ => hsame⟩
  rw [beforeColon_of_notMem fun h => hport (Text.mem_of_mem_trim h)]
  simp only [hlf, hport, false_or]
  by_cases hcolon : ':' ∈ added
  · obtain ⟨b, hsplit, hno⟩ := exists_colon_split hcolon
    have hno' : ':' ∉ value ++ beforeColon added := by simp [hport, hno]
    have hbefore : beforeColon (Text.trim (value ++ added)) =
        (value ++ beforeColon added).dropWhile Text.isWhitespace := by
      rw [← beforeColon_trim_append hno' b, List.append_assoc, ← hsplit]
    rw [hbefore, ← dropWhile_eq_trim_iff, ← Text.trim_append_eq_iff value]
    constructor
    · intro h
      have htrim : Text.trim (value ++ beforeColon added) = Text.trim value := by
        rw [Text.trim, h, Text.trim, List.rdropWhile_idempotent]
      exact ⟨htrim, fun _ => h.trans htrim.symm⟩
    · rintro ⟨htrim, h⟩
      exact (h hcolon).trans htrim
  · have hno : ':' ∉ Text.trim (value ++ added) := by
      intro h
      rcases List.mem_append.mp (Text.mem_of_mem_trim h) with h | h
      · exact hport h
      · exact hcolon h
    rw [beforeColon_of_notMem hno, beforeColon_of_notMem hcolon, Text.trim_append_eq_iff]
    simp [hcolon]

theorem NamesHost.exists_host {text : List Char} {ends : List Char → Prop}
    (h : NamesHost text ends) : ∃ host, hostOfRequest text = some host ∧
      ∀ more, ∃ later, hostOfRequest (text ++ more) = some later ∧ (later = host ↔ ends more) := by
  cases h with
  | @connect rest hword =>
    refine ⟨_, hostOfRequest_eq_some_iff.mpr (.connect hword), fun more => ?_⟩
    have hmore : ∃ c ∈ (rest ++ more).takeWhile (· ≠ '\n'), Text.isWhitespace c = false := by
      obtain ⟨c, hc, hno⟩ := hword
      refine ⟨c, ?_, hno⟩
      rw [List.takeWhile_append]
      split_ifs
      · exact List.mem_append_left _ ((List.takeWhile_prefix _).subset hc)
      · exact hc
    have hsome : ∃ c ∈ rest, Text.isWhitespace c = false := by
      obtain ⟨c, hc, hno⟩ := hword
      exact ⟨c, (List.takeWhile_prefix _).subset hc, hno⟩
    refine ⟨_, ?_, targetHost_append hsome more⟩
    rw [List.append_assoc]
    exact hostOfRequest_eq_some_iff.mpr (.connect hmore)
  | @header before name value hbefore hname =>
    refine ⟨_, hostOfRequest_eq_some_iff.mpr (.header hbefore hname), fun more => ?_⟩
    refine ⟨_, ?_, headerHost_append value more⟩
    rw [List.append_assoc, List.append_assoc]
    exact hostOfRequest_eq_some_iff.mpr (.header hbefore hname)

theorem exists_namesHost {text host : List Char} (h : hostOfRequest text = some host) :
    ∃ ends, NamesHost text ends := by
  cases hostOfRequest_eq_some_iff.mp h with
  | connect hword => exact ⟨_, .connect hword⟩
  | header hbefore hname => exact ⟨_, .header hbefore hname⟩

/-- `sniff` never panics. A server name comes first, then the host of a request. -/
theorem sniff_cases (buf : Bytes) :
    (∃ start len name, ServerNameAt buf start len ∧ nameAt buf start len = some name ∧
      sniff buf = some (.tlsSni name)) ∨
    (¬HasServerName buf ∧
      sniff buf = some (((parseHttpHost buf).map SniffedTarget.httpHost).getD .unknown)) := by
  cases buf with
  | nil =>
    refine .inr ⟨?_, rfl⟩
    rintro ⟨start, len, ⟨l, hread, -⟩, -⟩
    cases hread.handshake
  | cons b bs =>
    have htls (hb : b = 0x16) {sni : Option String} (hsni : parseTlsSni (b :: bs) = some sni) :
        sniff (b :: bs) = some (sni.elim
          (((parseHttpHost (b :: bs)).map SniffedTarget.httpHost).getD .unknown) .tlsSni) := by
      rw [sniff, if_neg (List.cons_ne_nil b bs), List.getElem?_cons_zero]
      simp only [Option.bind_eq_bind, Option.bind_some, if_pos hb, hsni]
      cases sni with
      | some name => rfl
      | none => cases parseHttpHost (b :: bs) <;> rfl
    by_cases hb : b = 0x16
    · rcases parseTlsSni_cases (b :: bs) with ⟨start, len, hat, heq⟩ | ⟨hno, heq⟩
      · have hsniff := htls hb heq
        cases hname : nameAt (b :: bs) start len with
        | some name =>
          rw [hname] at hsniff
          exact .inl ⟨start, len, name, hat, hname, hsniff⟩
        | none =>
          rw [hname] at hsniff
          refine .inr ⟨?_, hsniff⟩
          rintro ⟨start', len', hat', hsome⟩
          obtain ⟨rfl, rfl⟩ := hat.unique hat'
          rw [hname] at hsome
          cases hsome
      · refine .inr ⟨?_, htls hb heq⟩
        rintro ⟨start, len, hat, -⟩
        exact hno start len hat
    · refine .inr ⟨?_, ?_⟩
      · rintro ⟨start, len, ⟨l, hread, -⟩, -⟩
        exact hb (Option.some.inj hread.handshake)
      · rw [sniff, if_neg (List.cons_ne_nil b bs), List.getElem?_cons_zero]
        simp only [Option.bind_eq_bind, Option.bind_some, if_neg hb]
        cases parseHttpHost (b :: bs) <;> rfl

theorem parseHttpHost_eq_some_iff {buf : Bytes} {host : String} : parseHttpHost buf = some host ↔
    ∃ text, Utf8.decode buf = some text ∧ hostOfRequest text = some host.toList := by
  unfold parseHttpHost
  simp only [Option.bind_eq_bind, Option.bind_eq_some_iff, Option.pure_def, Option.some.injEq]
  constructor
  · rintro ⟨text, htext, chars, hhost, rfl⟩
    exact ⟨text, htext, by rw [hhost, String.toList_ofList]⟩
  · rintro ⟨text, htext, hhost⟩
    exact ⟨text, htext, host.toList, hhost, String.ofList_toList⟩

theorem sniff_of_serverName {buf : Bytes} {start len : ℕ} {name : String}
    (h : ServerNameAt buf start len) (hname : nameAt buf start len = some name) :
    sniff buf = some (.tlsSni name) := by
  rcases sniff_cases buf with ⟨start', len', name', h', hname', hsniff⟩ | ⟨hno, -⟩
  · obtain ⟨rfl, rfl⟩ := h.unique h'
    rw [hsniff, Option.some.inj (hname.symm.trans hname')]
  · exact absurd ⟨start, len, h, by rw [hname]; rfl⟩ hno

theorem sniff_eq_httpHost_iff {buf : Bytes} {host : String} :
    sniff buf = some (.httpHost host) ↔ ¬HasServerName buf ∧ parseHttpHost buf = some host := by
  rcases sniff_cases buf with ⟨start, len, name, hat, hname, hsniff⟩ | ⟨hno, hsniff⟩
  · have hsome : HasServerName buf := ⟨start, len, hat, by rw [hname]; rfl⟩
    rw [hsniff]
    exact iff_of_false nofun fun h => h.1 hsome
  · rw [hsniff, and_iff_right hno]
    cases parseHttpHost buf <;> simp

/-- Bytes that follow a request which names a host leave the host as it is exactly where they are
text that meets the condition. -/
theorem parseHttpHost_append_iff {p : Bytes} {text : List Char} {ends : List Char → Prop}
    {host : String} (htext : Utf8.decode p = some text) (hnames : NamesHost text ends)
    (hparse : parseHttpHost p = some host) (rest : Bytes) :
    parseHttpHost (p ++ rest) = some host ↔
      ∃ more, Utf8.decode (p ++ rest) = some (text ++ more) ∧ ends more := by
  obtain ⟨text', htext', hhost⟩ := parseHttpHost_eq_some_iff.mp hparse
  cases Option.some.inj (htext.symm.trans htext')
  obtain ⟨host', hhost', hmore⟩ := hnames.exists_host
  cases Option.some.inj (hhost.symm.trans hhost')
  rw [parseHttpHost_eq_some_iff]
  constructor
  · rintro ⟨later, hlater, hhost⟩
    rw [Utf8.decode_append htext] at hlater
    obtain ⟨more, hdecode, rfl⟩ := Option.map_eq_some_iff.mp hlater
    obtain ⟨host', hhost', hiff⟩ := hmore more
    refine ⟨more, by rw [Utf8.decode_append htext, hdecode]; rfl, hiff.mp ?_⟩
    exact Option.some.inj (hhost'.symm.trans hhost)
  · rintro ⟨more, hdecode, hends⟩
    obtain ⟨host', hhost', hiff⟩ := hmore more
    exact ⟨_, hdecode, hiff.mpr hends ▸ hhost'⟩

/-- How the first bytes were cut does not change the target exactly where `CutKeepsHost` says. -/
theorem sniff_cut_iff {p q : Bytes} (hpre : p <+: q) :
    (sniff p = some .unknown ∨ sniff p = sniff q) ↔ CutKeepsHost p q := by
  obtain ⟨rest, rfl⟩ := hpre
  rcases sniff_cases p with ⟨start, len, name, hat, hname, hsniff⟩ | ⟨hno, hsniff⟩
  · have hlater : nameAt (p ++ rest) start len = some name := by
      rw [nameAt_append hat.le_length, hname]
    have hsame : sniff p = sniff (p ++ rest) :=
      hsniff.trans (sniff_of_serverName (hat.append rest) hlater).symm
    exact ⟨fun _ => .inl ⟨start, len, hat, by rw [hname]; rfl⟩, fun _ => .inr hsame⟩
  constructor
  · intro h
    refine .inr fun text ends htext hnames => ?_
    obtain ⟨host, hhost, -⟩ := hnames.exists_host
    have hparse : parseHttpHost p = some (String.ofList host) :=
      parseHttpHost_eq_some_iff.mpr ⟨text, htext, by rw [hhost, String.toList_ofList]⟩
    have hp : sniff p = some (.httpHost (String.ofList host)) :=
      sniff_eq_httpHost_iff.mpr ⟨hno, hparse⟩
    have hq : sniff (p ++ rest) = some (.httpHost (String.ofList host)) := by
      rcases h with h | h
      · rw [hp] at h
        cases h
      · rw [← h, hp]
    obtain ⟨hno', hparse'⟩ := sniff_eq_httpHost_iff.mp hq
    exact ⟨hno', (parseHttpHost_append_iff htext hnames hparse rest).mp hparse'⟩
  · rintro (hp | hkeep)
    · exact absurd hp hno
    cases hparse : parseHttpHost p with
    | none =>
      left
      rw [hsniff, hparse]
      rfl
    | some host =>
      right
      obtain ⟨text, htext, hhost⟩ := parseHttpHost_eq_some_iff.mp hparse
      obtain ⟨ends, hnames⟩ := exists_namesHost hhost
      obtain ⟨hno', hmore⟩ := hkeep text ends htext hnames
      have hparse' := (parseHttpHost_append_iff htext hnames hparse rest).mpr hmore
      rw [sniff_eq_httpHost_iff.mpr ⟨hno, hparse⟩, sniff_eq_httpHost_iff.mpr ⟨hno', hparse'⟩]

/-- A request whose Host line has arrived, and the empty line behind it. -/
theorem sniff_cut_line :
    let p := Utf8.encode "GET / HTTP/1.1\r\nHost: a.b\r\n"
    sniff p = some (.httpHost "a.b") ∧ CutKeepsHost p (p ++ Utf8.encode "\r\n") := by
  intro p
  exact ⟨by decide, (sniff_cut_iff (List.prefix_append _ _)).mp (.inr (by decide))⟩

/-- A cut within the Host line: the request is for `example.com`, but goes to `exam`. -/
theorem sniff_cut_within_host :
    let p := Utf8.encode "GET / HTTP/1.1\r\nHost: exam"
    let q := Utf8.encode "GET / HTTP/1.1\r\nHost: example.com\r\n\r\n"
    p <+: q ∧ q.length ≤ 4096 ∧ sniff p = some (.httpHost "exam") ∧
      sniff q = some (.httpHost "example.com") ∧
      ¬∀ p q : Bytes, p <+: q → q.length ≤ 4096 → sniff p = some .unknown ∨ sniff p = sniff q := by
  intro p q
  have hpre : p <+: q := ⟨Utf8.encode "ple.com\r\n\r\n", (Utf8.encode_append _ _).symm⟩
  have hlen : q.length ≤ 4096 := by decide
  have hp : sniff p = some (.httpHost "exam") := by decide
  have hq : sniff q = some (.httpHost "example.com") := by decide
  refine ⟨hpre, hlen, hp, hq, fun h => ?_⟩
  rcases h p q hpre hlen with hunknown | hsame
  · rw [hp] at hunknown
    cases hunknown
  · rw [hp, hq] at hsame
    revert hsame
    decide

end VpnGateway
