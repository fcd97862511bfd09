import VpnGateway.Pool.HealthChecker

/-! The reply to an HTTP CONNECT has three readers: both HTTP stages of the health check and the
handshake of the data path. What each of them accepts, and on which replies they agree. -/
namespace VpnGateway

open Wire

/-- A proxy that answers the request with these segments and closes. -/
def replying (segments : List Segment) : Peer where
  refusal := none
  respond received := if received = [] then ([], false) else (segments, true)

/-- The first line of a complete reply, if it is a text. -/
def replyLine (reply : Bytes) : Option (List Char) := (lineOf reply true).bind Utf8.decode

/-- The headers end within the first 1024 bytes. -/
def HeaderFits (reply : Bytes) : Prop := ∃ n ≤ 1024, findHeaderEnd reply = some n

/-- The headers end within the first 1024 bytes, with the number 200 as the second word. -/
def HeaderAccepts (reply : Bytes) : Prop :=
  ∃ n ≤ 1024, findHeaderEnd reply = some n ∧ connectStatus (reply.take n) = 200

/-- Where the first line starts with an accepting status, the headers fit and the status ends
there; where the headers carry the number 200, the first line starts with such a status. -/
structure PlainReply (reply : Bytes) : Prop where
  fits : ∀ text, replyLine reply = some text → startsWithOk text →
    HeaderFits reply ∧ ∀ c ∈ text[12]?, Text.isWhitespace c
  starts : HeaderAccepts reply → ∃ text, replyLine reply = some text ∧ startsWithOk text

theorem replying_write (segments : List Segment) {request : Bytes} (h : request ≠ []) :
    (replying segments).write (replying segments).connect request = ⟨request, segments, true⟩ := by
  simp [Peer.write, Peer.connect, replying, h]

theorem findHeaderEnd_of_append {a b : Bytes} {n : ℕ} (h : findHeaderEnd (a ++ b) = some n)
    (hn : n ≤ a.length) : findHeaderEnd a = some n := by
  induction a generalizing n with
  | nil =>
    have := le_findHeaderEnd h
    simp at hn
    omega
  | cons x a ih =>
    have hge := le_findHeaderEnd h
    rw [List.length_cons] at hn
    have htake : (x :: (a ++ b)).take 4 = (x :: a).take 4 := by
      rw [← List.cons_append, List.take_append_of_le_length (by simp; omega)]
    rw [List.cons_append, findHeaderEnd, htake] at h
    rw [findHeaderEnd]
    split_ifs at h ⊢ with hend
    · exact h
    · obtain ⟨m, hm, rfl⟩ := Option.map_eq_some_iff.mp h
      rw [ih hm (by omega)]
      rfl

/-- A header that has ended ends with an empty line. -/
theorem exists_header {bytes : Bytes} {n : ℕ} (h : findHeaderEnd bytes = some n) :
    ∃ start, bytes.take n = start ++ [13, 10, 13, 10] := by
  induction bytes generalizing n with
  | nil => cases h
  | cons b rest ih =>
    unfold findHeaderEnd at h
    split_ifs at h with hend
    · obtain rfl := Option.some.inj h
      exact ⟨[], hend⟩
    · obtain ⟨m, hm, rfl⟩ := Option.map_eq_some_iff.mp h
      obtain ⟨start, hstart⟩ := ih hm
      exact ⟨b :: start, by rw [List.take_succ_cons, hstart]; rfl⟩

/-- The end of the headers is found in the first buffer that holds it. -/
theorem not_header_of_long {buf more header : Bytes} (hnone : findHeaderEnd buf = none)
    (hlen : 1024 ≤ buf.length) : ¬∃ n ≤ 1024, findHeaderEnd (buf ++ more) = some n ∧
      header = (buf ++ more).take n := by
  rintro ⟨n, hn, hend, -⟩
  rw [findHeaderEnd_of_append hend (by omega)] at hnone
  cases hnone

/-- The reads of the data path deliver the header exactly when it ends within the buffer,
however the stream is cut. -/
theorem readHeader_ok_iff (reads : ℕ) (conn : Conn) (buf header : Bytes)
    (hnone : findHeaderEnd buf = none) (hreads : 1024 ≤ reads + buf.length) :
    (∃ conn', readHeader reads conn buf = .ok (header, conn')) ↔
      ∃ n ≤ 1024, findHeaderEnd (buf ++ conn.unread) = some n ∧
        header = (buf ++ conn.unread).take n := by
  induction reads generalizing conn buf with
  | zero => simp [readHeader, not_header_of_long hnone (by omega)]
  | succ reads ih =>
    unfold readHeader
    split_ifs with hlen
    · simp [not_header_of_long hnone hlen]
    · rcases conn.read_cases (n := 1024 - buf.length) (by omega) with
        ⟨chunk, conn₁, hread, hchunk, hshort, hunread⟩ | ⟨hread, hunread⟩
      · rw [hread, hunread, ← List.append_assoc]
        simp only [if_neg hchunk]
        have hpos := List.length_pos_iff.mpr hchunk
        cases hend : findHeaderEnd (buf ++ chunk) with
        | some n =>
          have hle := findHeaderEnd_le hend
          have htake : ((buf ++ chunk) ++ conn₁.unread).take n = (buf ++ chunk).take n :=
            List.take_append_of_le_length hle
          have hfits : n ≤ 1024 := by
            rw [List.length_append] at hle
            omega
          rw [findHeaderEnd_append hend]
          constructor
          · rintro ⟨conn', hok⟩
            have hheader := congrArg Prod.fst (Outcome.ok.inj hok)
            exact ⟨n, hfits, rfl, htake ▸ hheader.symm⟩
          · rintro ⟨m, -, hm, rfl⟩
            obtain rfl := Option.some.inj hm
            exact ⟨conn₁, by rw [htake]⟩
        | none => exact ih conn₁ (buf ++ chunk) hend (by rw [List.length_append]; omega)
      · rw [hread, hunread, List.append_nil, hnone]
        split_ifs <;> simp

/-- What the data path accepts. -/
theorem httpConnectHandshake_replying {reply : Bytes} (segments : Chunking reply) (host : String)
    (port : UInt16) : (httpConnectHandshake (replying segments) (replying segments).connect host
      port).isOk ↔ HeaderAccepts reply := by
  have hwrite := replying_write segments (connectRequest_ne_nil host port)
  have hread := readHeader_ok_iff 1024 ⟨connectRequest host port, segments, true⟩ []
  have hunread : (⟨connectRequest host port, segments, true⟩ : Conn).unread = reply :=
    segments.property
  simp only [List.nil_append, hunread] at hread
  rw [httpConnectHandshake, hwrite]
  constructor
  · intro hok
    cases h : readHeader 1024 ⟨connectRequest host port, segments, true⟩ [] with
    | ok result =>
      obtain ⟨header, conn⟩ := result
      obtain ⟨n, hn, hend, rfl⟩ := (hread header rfl (by simp)).mp ⟨conn, h⟩
      refine ⟨n, hn, hend, ?_⟩
      by_contra hstatus
      rw [h] at hok
      simp [hstatus, Outcome.isOk] at hok
    | err message =>
      rw [h] at hok
      cases hok
    | waits =>
      rw [h] at hok
      cases hok
  · rintro ⟨n, hn, hend, hstatus⟩
    obtain ⟨conn, h⟩ := (hread _ rfl (by simp)).mpr ⟨n, hn, hend, rfl⟩
    rw [h]
    simp [hstatus, Outcome.isOk]

theorem checkRequest_ne_nil (port : UInt16) : checkRequest port ≠ [] := by
  intro h
  have hlen := congrArg List.length h
  have hstart : (Utf8.encode "CONNECT ").length = 8 := by decide
  simp only [checkRequest, toString, Utf8.encode_append, List.length_append, List.length_nil,
    hstart] at hlen
  omega

/-- What stage 2 accepts. -/
theorem checkHttpConnect_replying {reply : Bytes} (segments : Chunking reply) :
    checkHttpConnect (replying segments) ↔
      ∃ text, replyLine reply = some text ∧ startsWithOk text := by
  have hunread : (⟨checkRequest 80, segments, true⟩ : Conn).unread = reply := segments.property
  rw [checkHttpConnect_iff, AcceptsCheck, replying_write _ (checkRequest_ne_nil 80), hunread]
  constructor
  · rintro ⟨-, line, text, hline, htext, hok⟩
    exact ⟨text, Option.bind_eq_some_iff.mpr ⟨line, hline, htext⟩, hok⟩
  · rintro ⟨text, hline, hok⟩
    obtain ⟨line, hline, htext⟩ := Option.bind_eq_some_iff.mp hline
    exact ⟨rfl, line, text, hline, htext, hok⟩

/-- What stage 3 accepts. -/
theorem tlsCheckHttpConnect_replying {reply : Bytes} (segments : Chunking reply) :
    (tlsCheckHttpConnect (replying segments) (replying segments).connect).isSome ↔
      ∃ text, replyLine reply = some text ∧ startsWithOk text := by
  have hunread : (⟨checkRequest 443, segments, true⟩ : Conn).unread = reply := segments.property
  have hread := readLine_new ⟨checkRequest 443, segments, true⟩
  rw [hunread] at hread
  rw [tlsCheckHttpConnect, tlsCheckPort, replying_write _ (checkRequest_ne_nil 443)]
  cases hline : replyLine reply with
  | none =>
    rw [replyLine] at hline
    rw [hline] at hread
    cases h : readLine (.new ⟨checkRequest 443, segments, true⟩) with
    | ok read => exact absurd h (hread read.1 read.2)
    | err message => simp
    | waits => simp
  | some text =>
    rw [replyLine] at hline
    rw [hline] at hread
    obtain ⟨r, hr⟩ := hread
    rw [hr]
    by_cases hok : startsWithOk text <;> simp [hok]

/-- The first line of a reply whose headers end. -/
theorem exists_line {reply : Bytes} {n : ℕ} (hend : findHeaderEnd reply = some n) :
    ∃ line rest, 10 ∉ line ∧ lineOf reply true = some (line ++ [10]) ∧
      reply.take n = line ++ 10 :: rest := by
  obtain ⟨start, hstart⟩ := exists_header hend
  have hmem : (10 : UInt8) ∈ reply.take n := by simp [hstart]
  cases hdrop : (reply.take n).dropWhile (· ≠ 10) with
  | nil =>
    have hno := List.dropWhile_eq_nil_iff.mp hdrop 10 hmem
    cases hno
  | cons lf rest =>
    have hlf : lf = 10 := by
      have := List.head?_dropWhile_not (· ≠ (10 : UInt8)) (reply.take n)
      rw [hdrop] at this
      simpa using this
    subst hlf
    refine ⟨(reply.take n).takeWhile (· ≠ 10), rest, ?_, ?_, ?_⟩
    · intro h10
      simpa using List.mem_takeWhile_imp h10
    · rw [← lineOf_append_of_lf hdrop (reply.drop n) true, List.take_append_drop]
    · rw [← hdrop, List.takeWhile_append_dropWhile]

theorem startsWithOk_iff {text : List Char} : startsWithOk text ↔
    ∃ version more, (version = "HTTP/1.1".toList ∨ version = "HTTP/1.0".toList) ∧
      text = version ++ ' ' :: '2' :: '0' :: '0' :: more := by
  rw [startsWithOk, Bool.or_eq_true, List.isPrefixOf_iff_prefix, List.isPrefixOf_iff_prefix]
  constructor
  · rintro (⟨more, rfl⟩ | ⟨more, rfl⟩)
    · exact ⟨_, more, Or.inl rfl, rfl⟩
    · exact ⟨_, more, Or.inr rfl, rfl⟩
  · rintro ⟨version, more, rfl | rfl, rfl⟩
    · exact Or.inl ⟨more, rfl⟩
    · exact Or.inr ⟨more, rfl⟩

/-- A first line that starts with an accepting status, and the header it begins. -/
theorem exists_status {reply : Bytes} {text : List Char} (hline : replyLine reply = some text)
    (hok : startsWithOk text) {n : ℕ} (hend : findHeaderEnd reply = some n) :
    ∃ version more rest, (version = "HTTP/1.1".toList ∨ version = "HTTP/1.0".toList) ∧
      '\n' ∉ version ++ [' ', '2', '0', '0'] ++ more ∧
      text = version ++ [' ', '2', '0', '0'] ++ more ++ ['\n'] ∧
      Utf8.decodeLossy (reply.take n) =
        version ++ [' ', '2', '0', '0'] ++ more ++ '\n' :: rest := by
  obtain ⟨line, rest, h10, hl, htake⟩ := exists_line hend
  rw [replyLine, hl, Option.bind_some] at hline
  obtain ⟨body, hbody, htext⟩ := Utf8.decode_ascii (by decide) hline
  have hbreak : text = body ++ ['\n'] := htext
  subst hbreak
  have hlf : '\n' ∉ body := Utf8.lf_notMem_of_decode hbody h10
  have hlossy : Utf8.decodeLossy (reply.take n) = body ++ '\n' :: Utf8.decodeLossy rest := by
    rw [Utf8.decodeLossy, htake, Utf8.decodeFrom_ascii Utf8.start_valid line (by decide),
      Utf8.decode_eq_some_iff.mp hbody]
    simp [Utf8.decodeLossy]
  obtain ⟨version, more, hversion, heq⟩ := startsWithOk_iff.mp hok
  rcases List.eq_nil_or_concat more with rfl | ⟨more, c, rfl⟩
  · have htail : body ++ ['\n'] = (version ++ [' ', '2', '0']) ++ ['0'] := by
      rw [heq]
      simp
    have hlast := List.append_inj_right' htail rfl
    cases hlast
  · have hsplit : body ++ ['\n'] = (version ++ [' ', '2', '0', '0'] ++ more) ++ [c] := by
      rw [heq]
      simp
    obtain ⟨rfl, hc⟩ := List.append_inj' hsplit rfl
    exact ⟨version, more, Utf8.decodeLossy rest, hversion, hlf, rfl, hlossy⟩

/-- Whether a word follows is seen from the first character behind, with the line break or
without it. -/
theorem takeWhile_eq_nil_iff (more : List Char) :
    ((if more.getLast? = some '\r' then more.dropLast else more).takeWhile
        fun c => !Text.isWhitespace c) = [] ↔
      ∀ c ∈ (more ++ ['\n'])[0]?, Text.isWhitespace c := by
  have hhead : ∀ c cs, ((c :: cs).takeWhile fun c => !Text.isWhitespace c) = [] ↔
      Text.isWhitespace c := by
    intro c cs
    cases h : Text.isWhitespace c <;> simp [h]
  match more with
  | [] => simp; decide
  | [c] =>
    by_cases hc : c = '\r'
    · subst hc
      simp
      decide
    · simp [hc, hhead]
  | c :: d :: cs =>
    split_ifs <;> simp [hhead]

/-- After such a start the headers carry the number 200 exactly when the status ends there. -/
theorem connectStatus_iff {reply : Bytes} {text : List Char} (hline : replyLine reply = some text)
    (hok : startsWithOk text) {n : ℕ} (hend : findHeaderEnd reply = some n) :
    connectStatus (reply.take n) = 200 ↔ ∀ c ∈ text[12]?, Text.isWhitespace c := by
  obtain ⟨version, more, rest, hversion, hlf, rfl, hlossy⟩ := exists_status hline hok hend
  let first := if more.getLast? = some '\r' then more.dropLast else more
  have hlast : (version ++ [' ', '2', '0', '0']).getLast? ≠ some '\r' := by
    rw [List.getLast?_append_of_ne_nil _ (by simp)]
    decide
  have hfirst : Text.firstLine (Utf8.decodeLossy (reply.take n)) =
      version ++ ' ' :: (['2', '0', '0'] ++ first) := by
    rw [hlossy, Text.firstLine_append hlast hlf]
    simp [first]
  have hword : (Text.splitWhitespace (version ++ ' ' :: (['2', '0', '0'] ++ first)))[1]? =
      some (['2', '0', '0'] ++ first.takeWhile fun c => !Text.isWhitespace c) := by
    have hne : version ≠ [] := by rcases hversion with rfl | rfl <;> decide
    have hsolid : ∀ c ∈ version, Text.isWhitespace c = false := by
      rcases hversion with rfl | rfl <;> simp [Text.isWhitespace]
    rw [Text.splitWhitespace_cons hne hsolid (by decide)]
    exact Text.splitWhitespace_head (by decide) (by simp [Text.isWhitespace]) first
  have hchar : (version ++ [' ', '2', '0', '0'] ++ more ++ ['\n'])[12]? = (more ++ ['\n'])[0]? := by
    rcases hversion with rfl | rfl <;> rfl
  have hstatus : connectStatus (reply.take n) = 200 ↔
      (first.takeWhile fun c => !Text.isWhitespace c) = [] := by
    rw [connectStatus, hfirst, hword, Option.bind_some, ← Text.parseU16_200_iff]
    show (Text.parseU16 ('2' :: '0' :: '0' :: first.takeWhile fun c => !Text.isWhitespace c)).getD 0
      = 200 ↔ _
    generalize Text.parseU16 _ = status
    cases status <;> simp
  rw [hstatus, hchar, takeWhile_eq_nil_iff]

/-- However their bytes are cut, the three readers of a reply agree exactly when it is plain. -/
theorem replyReaders_agree_iff {reply : Bytes} (stage2 stage3 data : Chunking reply)
    (host : String) (port : UInt16) :
    ((checkHttpConnect (replying stage2) ↔
        (tlsCheckHttpConnect (replying stage3) (replying stage3).connect).isSome) ∧
      (checkHttpConnect (replying stage2) ↔
        (httpConnectHandshake (replying data) (replying data).connect host port).isOk)) ↔
      PlainReply reply := by
  rw [checkHttpConnect_replying, tlsCheckHttpConnect_replying, httpConnectHandshake_replying,
    and_iff_right Iff.rfl]
  constructor
  · intro hagree
    refine ⟨fun text hline hok => ?_, hagree.mpr⟩
    obtain ⟨n, hn, hend, hstatus⟩ := hagree.mp ⟨text, hline, hok⟩
    exact ⟨⟨n, hn, hend⟩, (connectStatus_iff hline hok hend).mp hstatus⟩
  · intro hplain
    refine ⟨?_, hplain.starts⟩
    rintro ⟨text, hline, hok⟩
    obtain ⟨⟨n, hn, hend⟩, hspace⟩ := hplain.fits text hline hok
    exact ⟨n, hn, hend, (connectStatus_iff hline hok hend).mpr hspace⟩

/-- A status line without headers makes a proxy that the data path cannot use; a status line of
HTTP/2 makes one that the data path could use and the check calls dead. -/
theorem replyReaders_disagree :
    (∃ reply : Chunking (Utf8.encode "HTTP/1.1 200 OK\n"),
      checkHttpConnect (replying reply) ∧
      (tlsCheckHttpConnect (replying reply) (replying reply).connect).isSome ∧
      ¬(httpConnectHandshake (replying reply) (replying reply).connect "example.com" 443).isOk) ∧
    ∃ reply : Chunking (Utf8.encode "HTTP/2 200 OK\r\n\r\n"),
      ¬checkHttpConnect (replying reply) ∧
      ¬(tlsCheckHttpConnect (replying reply) (replying reply).connect).isSome ∧
      (httpConnectHandshake (replying reply) (replying reply).connect "example.com" 443).isOk := by
  constructor
  · exact ⟨⟨[⟨Utf8.encode "HTTP/1.1 200 OK\n", by decide⟩], rfl⟩, by decide, by decide, by decide⟩
  · exact ⟨⟨[⟨Utf8.encode "HTTP/2 200 OK\r\n\r\n", by decide⟩], rfl⟩, by decide, by decide,
      by decide⟩

end VpnGateway
