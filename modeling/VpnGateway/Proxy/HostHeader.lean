import VpnGateway.Core.HttpRequest
import VpnGateway.Proxy.HttpHost

/-! What `parse_http_host` makes of a well-formed request in origin form. -/
namespace VpnGateway

open Wire Http

theorem beforeColon_chars (s : Bytes) :
    beforeColon (Utf8.chars s) = Utf8.chars (s.takeWhile (· ≠ 58)) := by
  have hcolon : (fun b : UInt8 => decide (Char.ofNat b.toNat ≠ ':')) =
      fun b => decide (b ≠ 58) := by
    funext b
    have hchar : ':' = Char.ofNat (58 : UInt8).toNat := rfl
    rw [hchar, decide_eq_decide, Ne, Utf8.char_inj]
  rw [beforeColon, Utf8.chars, List.takeWhile_map]
  exact congrArg (fun p => List.map _ (s.takeWhile p)) hcolon

/-- A field name with the letters of `host` in any case, with its colon. -/
theorem isHostName_chars {name : Bytes} :
    IsHostName (Utf8.chars name ++ [':']) ↔ isNamed "host" name = true := by
  have hword : "host:".toList = "host".toList ++ [':'] := rfl
  have hcolon : [':'].map Char.toLower = [':'] := by decide
  rw [IsHostName, isNamed, beq_iff_eq, List.map_append, hcolon, hword, List.append_left_inj]

/-- Such a name ends with its only colon. -/
theorem IsHostName.exists_concat {word : List Char} (h : IsHostName word) :
    ∃ name, word = name ++ [':'] ∧ ':' ∉ name := by
  rcases List.eq_nil_or_concat word with rfl | ⟨name, c, rfl⟩
  · cases h
  · have hword : "host:".toList = "host".toList ++ [':'] := rfl
    rw [IsHostName, List.concat_eq_append, List.map_append, hword] at h
    obtain ⟨hname, hcolon⟩ := List.append_inj' h rfl
    obtain rfl := Text.eq_colon_of_toLower (List.singleton_inj.mp hcolon)
    refine ⟨name, List.concat_eq_append, fun hmem => ?_⟩
    have hlower : Char.toLower ':' ∈ name.map Char.toLower := List.mem_map_of_mem hmem
    rw [hname] at hlower
    revert hlower
    decide

theorem ascii_of_isNamed {name : Bytes} (h : isNamed "host" name = true) :
    ∀ b ∈ name, b.toNat < 128 := by
  intro b hb
  have hascii : ∀ d ∈ "host".toList, d.toNat < 128 := by simp
  rw [isNamed, beq_iff_eq] at h
  have hmem := List.mem_map_of_mem (f := Char.toLower) (Utf8.mem_chars.mpr hb)
  rw [h] at hmem
  rw [← Utf8.toNat_char b]
  exact Text.toNat_lt_of_toLower (hascii _ hmem)

theorem ascii_of_token {name : Bytes} (h : name.all isTchar = true) :
    ∀ b ∈ name, b.toNat < 128 := fun b hb =>
  lt_of_isVchar (isVchar_of_tchar (List.all_eq_true.mp h b hb))

theorem notMem_token {name : Bytes} (h : name.all isTchar = true) {b : UInt8}
    (hb : isTchar b = false) : b ∉ name := by
  intro hmem
  rw [List.all_eq_true.mp h b hmem] at hb
  cases hb

theorem lf_notMem_line (field : Field) : 10 ∉ field.line ++ [13] := by
  have hvalue : 10 ∉ field.value := fun hmem =>
    absurd (List.all_eq_true.mp field.bytes 10 hmem) (by decide)
  have hname := notMem_token field.token.2 (b := 10) (by decide)
  simp only [Field.line, List.mem_append, List.mem_cons, not_or]
  exact ⟨⟨hname, by decide, hvalue⟩, by decide, by simp⟩

/-- A field of another name is a line that the search passes over. -/
theorem headerLine_field {field : Field} (hother : isNamed "host" field.name = false)
    {line : List Char} (h : Utf8.decode (field.line ++ [13]) = some line) : HeaderLine line := by
  have hlf : '\n' ∉ line := Utf8.lf_notMem_of_decode h (lf_notMem_line field)
  rw [Field.line, List.append_assoc, List.cons_append] at h
  obtain ⟨name, value, hname, -, rfl⟩ := (Utf8.decode_split (by decide)).mp h
  obtain rfl : Utf8.chars field.name = name :=
    Option.some.inj ((Utf8.decode_chars (ascii_of_token field.token.2)).symm.trans hname)
  have hcolon : ':' ∉ Utf8.chars field.name := fun hmem =>
    notMem_token field.token.2 (by decide) (Utf8.mem_chars (b := 58).mp hmem)
  refine ⟨hlf, ?_, ?_, ?_⟩
  · rw [Bool.eq_false_iff]
    intro hhost
    obtain ⟨word, hword, more, hmore⟩ := (isHostHeader_iff _).mp hhost
    obtain ⟨start, rfl, hstart⟩ := hword.exists_concat
    rw [List.append_assoc, List.singleton_append] at hmore
    replace hmore : start ++ ':' :: more = Utf8.chars field.name ++ ':' :: value := hmore
    have hsame : start = Utf8.chars field.name := by
      have htake := congrArg (List.takeWhile (· ≠ ':')) hmore
      rwa [Text.takeWhile_append_cons hstart, Text.takeWhile_append_cons hcolon] at htake
    rw [hsame, isHostName_chars, hother] at hword
    cases hword
  · simp
  · intro heq
    have hmem : ':' ∈ ['\r'] := by
      rw [← heq]
      exact List.mem_append_right _ List.mem_cons_self
    simp at hmem

/-- The lines of such fields, with what is decoded behind them. -/
theorem decode_fields {fields : List Field}
    (hother : ∀ field ∈ fields, isNamed "host" field.name = false) {rest : Bytes}
    {text : List Char}
    (h : Utf8.decode (fields.flatMap (fun field => field.line ++ [13, 10]) ++ rest) = some text) :
    ∃ (headers : List (List Char)) (tail : List Char),
      (∀ line ∈ headers, HeaderLine line) ∧ Utf8.decode rest = some tail ∧
      text = headers.flatMap (· ++ ['\n']) ++ tail := by
  induction fields generalizing text with
  | nil => exact ⟨[], text, by simp, h, rfl⟩
  | cons field fields ih =>
    obtain ⟨hfield, hother⟩ := List.forall_mem_cons.mp hother
    have hsplit : (field :: fields).flatMap (fun field => field.line ++ [13, 10]) ++ rest =
        (field.line ++ [13]) ++
          10 :: (fields.flatMap (fun field => field.line ++ [13, 10]) ++ rest) := by
      simp
    rw [hsplit] at h
    obtain ⟨line, text, hline, htext, rfl⟩ := (Utf8.decode_split (by decide)).mp h
    obtain ⟨headers, tail, hheaders, htail, rfl⟩ := ih hother htext
    refine ⟨line :: headers, tail,
      List.forall_mem_cons.mpr ⟨headerLine_field hfield hline, hheaders⟩, htail, ?_⟩
    simp

variable (r : OriginRequest)

theorem ascii_requestLine : ∀ b ∈ r.requestLine ++ [13], b.toNat < 128 := by
  have htarget : ∀ b ∈ r.target, b.toNat < 128 := fun b hb =>
    lt_of_isVchar (List.all_eq_true.mp r.target_path.2 b hb)
  have hvisible : (Utf8.encode "HTTP/1.1").all isVchar = true := by decide
  have hversion : ∀ b ∈ Utf8.encode "HTTP/1.1", b.toNat < 128 := fun b hb =>
    lt_of_isVchar (List.all_eq_true.mp hvisible b hb)
  simp only [OriginRequest.requestLine, List.forall_mem_append, List.forall_mem_cons]
  exact ⟨⟨⟨ascii_of_token r.method_token.2, by decide, htarget⟩, by decide, hversion⟩, by decide,
    by simp⟩

theorem lf_notMem_requestLine : 10 ∉ r.requestLine ++ [13] := by
  have hmethod := notMem_token r.method_token.2 (b := 10) (by decide)
  have htarget : 10 ∉ r.target := fun hmem =>
    absurd (List.all_eq_true.mp r.target_path.2 10 hmem) (by decide)
  have hversion : 10 ∉ Utf8.encode "HTTP/1.1" := by decide
  simp only [OriginRequest.requestLine, List.mem_append, List.mem_cons, not_or]
  exact ⟨⟨⟨hmethod, by decide, htarget⟩, by decide, hversion⟩, by decide, by simp⟩

/-- The method is not CONNECT. -/
theorem not_connect : ¬"CONNECT ".toList <+: Utf8.chars (r.requestLine ++ [13]) := by
  rintro ⟨more, hmore⟩
  have hword : "CONNECT ".toList = Utf8.chars (Utf8.encode "CONNECT") ++ [' '] := by decide
  have hspace : ' ' ∉ Utf8.chars (Utf8.encode "CONNECT") := by decide
  have hmethod : ' ' ∉ Utf8.chars r.method := fun hmem =>
    notMem_token r.method_token.2 (by decide) (Utf8.mem_chars (b := 32).mp hmem)
  have hline : Utf8.chars (r.requestLine ++ [13]) = Utf8.chars r.method ++
      ' ' :: Utf8.chars (r.target ++ 32 :: Utf8.encode "HTTP/1.1" ++ [13]) := by
    have hcut : r.requestLine ++ [13] =
        r.method ++ 32 :: (r.target ++ 32 :: Utf8.encode "HTTP/1.1" ++ [13]) := by
      simp [OriginRequest.requestLine]
    rw [hcut, Utf8.chars_append, Utf8.chars_cons]
    rfl
  rw [hword, hline, List.append_assoc, List.singleton_append] at hmore
  have htake := congrArg (List.takeWhile (· ≠ ' ')) hmore
  rw [Text.takeWhile_append_cons hspace, Text.takeWhile_append_cons hmethod,
    Utf8.chars_inj] at htake
  exact r.method_ne htake.symm

theorem isVchar_hostValue : ∀ b ∈ r.hostValue, isVchar b = true := by
  unfold OriginRequest.hostValue
  split
  · exact r.host.isVchar_bytes
  next port _ =>
    rw [List.forall_mem_append, List.forall_mem_cons]
    exact ⟨r.host.isVchar_bytes, rfl, fun b hb =>
      isVchar_of_digit (List.all_eq_true.mp port.property b hb)⟩

theorem isWhitespace_ows {blank : Bytes} (h : blank.all isOws = true) :
    ∀ c ∈ Utf8.chars blank, Text.isWhitespace c = true := by
  intro c hc
  obtain ⟨b, hb, rfl⟩ := List.mem_map.mp hc
  have hows := List.all_eq_true.mp h b hb
  rw [isOws, Bool.or_eq_true, beq_iff_eq, beq_iff_eq] at hows
  rcases hows with rfl | rfl <;> rfl

theorem isWhitespace_visible {s : Bytes} (h : ∀ b ∈ s, isVchar b = true) :
    ∀ c ∈ Utf8.chars s, Text.isWhitespace c = false := by
  intro c hc
  obtain ⟨b, hb, rfl⟩ := List.mem_map.mp hc
  obtain ⟨hlow, hhigh⟩ := isVchar_iff.mp (h b hb)
  simp only [Text.isWhitespace, Utf8.toNat_char, Bool.or_eq_false_iff, Bool.and_eq_false_iff,
    decide_eq_false_iff_not, beq_eq_false_iff_ne]
  omega

/-- The bytes behind the colon of the Host field. -/
def hostBytes (r : OriginRequest) : Bytes :=
  r.blanks.1.val ++ r.hostValue ++ (r.blanks.2.val ++ [13])

theorem ascii_hostBytes : 10 ∉ hostBytes r ∧ ∀ b ∈ hostBytes r, b.toNat < 128 := by
  have hows {blank : Bytes} (h : blank.all isOws = true) : ∀ b ∈ blank, b = 32 ∨ b = 9 := by
    intro b hb
    have hb := List.all_eq_true.mp h b hb
    rwa [isOws, Bool.or_eq_true, beq_iff_eq, beq_iff_eq] at hb
  have hcases : ∀ b ∈ hostBytes r, isVchar b = true ∨ b = 32 ∨ b = 9 ∨ b = 13 := by
    simp only [hostBytes, List.forall_mem_append, List.forall_mem_singleton]
    exact ⟨⟨fun b hb => .inr ((hows r.blanks.1.property b hb).imp_right .inl),
      fun b hb => .inl (isVchar_hostValue r b hb)⟩,
      fun b hb => .inr ((hows r.blanks.2.property b hb).imp_right .inl), by simp⟩
  constructor
  · intro hmem
    exact absurd (hcases 10 hmem) (by decide)
  · intro b hb
    rcases hcases b hb with hvisible | rfl | rfl | rfl
    · exact lt_of_isVchar hvisible
    all_goals decide

theorem trim_hostBytes :
    Text.trim (Utf8.chars (hostBytes r)) = Utf8.chars r.hostValue := by
  rw [hostBytes, Utf8.chars_append, Utf8.chars_append]
  refine Text.trim_between (isWhitespace_ows r.blanks.1.property)
    (isWhitespace_visible (isVchar_hostValue r)) ?_
  rw [Utf8.chars_append, List.forall_mem_append]
  refine ⟨isWhitespace_ows r.blanks.2.property, ?_⟩
  intro c hc
  obtain rfl := List.mem_singleton.mp hc
  rfl

theorem encode_eq : ∃ rest, r.encode = (r.requestLine ++ [13]) ++
    10 :: (r.before.flatMap (fun field => field.line ++ [13, 10]) ++
      (r.hostName ++ 58 :: (hostBytes r ++ 10 :: rest))) := by
  refine ⟨(r.after.map Field.line).flatMap (· ++ [13, 10]) ++ [13, 10] ++ r.body, ?_⟩
  simp [OriginRequest.encode, encodeHead, OriginRequest.hostLine, hostBytes, List.flatMap_map]

/-- The host that is found in the text of such a request. -/
theorem hostOfRequest_decode {text : List Char} (h : Utf8.decode r.encode = some text) :
    hostOfRequest text = some (Utf8.chars (r.hostValue.takeWhile (· ≠ 58))) := by
  obtain ⟨rest, hencode⟩ := encode_eq r
  rw [hencode] at h
  obtain ⟨first, afterFirst, hfirst, hrest, rfl⟩ := (Utf8.decode_split (by decide)).mp h
  obtain ⟨headers, tail, hheaders, htail, rfl⟩ := decode_fields r.before_other hrest
  obtain ⟨name, afterName, hname, hbehind, rfl⟩ := (Utf8.decode_split (by decide)).mp htail
  obtain ⟨value, last, hvalue, -, rfl⟩ := (Utf8.decode_split (by decide)).mp hbehind
  obtain rfl := Option.some.inj ((Utf8.decode_chars (ascii_requestLine r)).symm.trans hfirst)
  obtain rfl :=
    Option.some.inj ((Utf8.decode_chars (ascii_of_isNamed r.host_name)).symm.trans hname)
  obtain rfl := Option.some.inj ((Utf8.decode_chars (ascii_hostBytes r).2).symm.trans hvalue)
  have hlf {s : Bytes} (hs : 10 ∉ s) : '\n' ∉ Utf8.chars s := fun hmem =>
    hs (Utf8.mem_chars (b := 10).mp hmem)
  have hbefore : InHeader (Utf8.chars (r.requestLine ++ [13]) ++ '\n' ::
      headers.flatMap (· ++ ['\n'])) :=
    ⟨_, headers, hlf (lf_notMem_requestLine r), not_connect r, hheaders, rfl⟩
  have hin : HostIn (_ ++ (_ ++ [':'] ++ (Utf8.chars (hostBytes r) ++ '\n' :: last))) _ :=
    HostIn.header hbefore (isHostName_chars.mpr r.host_name)
  rw [headerHost, Text.takeWhile_append_cons (hlf (ascii_hostBytes r).1), trim_hostBytes,
    beforeColon_chars] at hin
  have htext : Utf8.chars (r.requestLine ++ [13]) ++ '\n' :: (headers.flatMap (· ++ ['\n']) ++
      (Utf8.chars r.hostName ++ ':' :: (Utf8.chars (hostBytes r) ++ '\n' :: last))) =
        Utf8.chars (r.requestLine ++ [13]) ++ '\n' :: headers.flatMap (· ++ ['\n']) ++
          (Utf8.chars r.hostName ++ [':'] ++ (Utf8.chars (hostBytes r) ++ '\n' :: last)) := by
    simp
  rw [hostOfRequest_eq_some_iff]
  exact htext ▸ hin

/-- Up to the first colon the value is the host, if the host has none. -/
theorem takeWhile_hostValue :
    r.hostValue.takeWhile (· ≠ 58) = r.host.bytes ↔ 58 ∉ r.host.bytes := by
  constructor
  · intro h hmem
    rw [← h] at hmem
    simpa using List.mem_takeWhile_imp hmem
  · intro hno
    unfold OriginRequest.hostValue
    split
    · exact List.takeWhile_eq_self_iff.mpr (Text.forall_ne_of_notMem hno)
    · exact Text.takeWhile_append_cons hno _

/-- The host of a request in origin form is found exactly if all of the request, its body included,
is UTF-8 and the host is no IPv6 address. -/
theorem parseHttpHost_origin_iff (r : OriginRequest) :
    (parseHttpHost r.encode).map Utf8.encode = some r.host.bytes ↔
      Utf8.decode r.encode ≠ none ∧ ∀ address, r.host ≠ .ipv6 address := by
  cases h : Utf8.decode r.encode with
  | none => simp [parseHttpHost, h]
  | some text =>
    have hascii : ∀ b ∈ r.hostValue.takeWhile (· ≠ 58), b.toNat < 128 := fun b hb =>
      lt_of_isVchar (isVchar_hostValue r b ((List.takeWhile_prefix _).subset hb))
    have hparse : (parseHttpHost r.encode).map Utf8.encode =
        some (r.hostValue.takeWhile (· ≠ 58)) := by
      simp only [parseHttpHost, h, Option.bind_eq_bind, Option.bind_some, hostOfRequest_decode r h,
        Option.pure_def, Option.map_some, Utf8.encode_chars hascii]
    rw [hparse, Option.some.injEq, takeWhile_hostValue, r.host.colon_mem_iff, not_exists]
    simp

/-- A request for `/` with this host and body. -/
def getRequest (host : UriHost) (body : Bytes) : OriginRequest where
  method := Utf8.encode "GET"
  target := [47]
  before := []
  hostName := Utf8.encode "hOST"
  host := host
  port := some ⟨Utf8.encode "80", by decide⟩
  blanks := (⟨[32], by decide⟩, ⟨[], by decide⟩)
  after := []
  body := body
  method_token := by decide
  method_ne := by decide
  target_path := by decide
  before_other := by simp
  host_name := by decide
  after_other := by simp

/-- Of an IPv6 address the bracket is left, and a body that is no text hides every host. -/
theorem parseHttpHost_misses :
    let loopback : UriHost := .ipv6 ⟨Utf8.encode "::1", by decide⟩
    let named : UriHost := .regName ⟨Utf8.encode "a.b", by decide⟩
    parseHttpHost (getRequest loopback []).encode = some "[" ∧
    (parseHttpHost (getRequest loopback []).encode).map Utf8.encode ≠ some loopback.bytes ∧
    parseHttpHost (getRequest named [0xFF]).encode = none ∧
    (parseHttpHost (getRequest named [0xFF]).encode).map Utf8.encode ≠ some named.bytes := by
  intro loopback named
  have hbracket : parseHttpHost (getRequest loopback []).encode = some "[" := by rfl
  have hhidden : parseHttpHost (getRequest named [0xFF]).encode = none := by rfl
  refine ⟨hbracket, ?_, hhidden, ?_⟩
  · rw [hbracket]
    decide
  · rw [hhidden]
    exact nofun

end VpnGateway
