import VpnGateway.Core.Text
import VpnGateway.Core.Utf8
import VpnGateway.Core.Wire
import VpnGateway.Pool.Proxy

/-! The handshakes that turn a connection to an upstream proxy into a tunnel to the target. -/
namespace VpnGateway

open Wire

/-- The request of `http_connect_handshake`. -/
def connectRequest (host : String) (port : UInt16) : Bytes :=
  Utf8.encode s!"CONNECT {host}:{port} HTTP/1.1\r\nHost: {host}:{port}\r\nProxy-Connection: keep-alive\r\n\r\n"

/-- The end of the HTTP headers: the position after the first empty line. -/
def findHeaderEnd : Bytes → Option ℕ
  | [] => none
  | b :: rest =>
    if (b :: rest).take 4 = [13, 10, 13, 10] then some 4 else (findHeaderEnd rest).map (· + 1)

/-- Read until the headers are complete. Every read takes a byte at least, so that 1024 of them
fill the buffer. -/
def readHeader : ℕ → Conn → Bytes → Outcome (Bytes × Conn)
  | 0, _, _ => .err "HTTP CONNECT response too large"
  | reads + 1, conn, buf =>
    if 1024 ≤ buf.length then .err "HTTP CONNECT response too large"
    else match conn.read (1024 - buf.length) with
      | .err message => .err message
      | .waits => .waits
      | .ok (chunk, conn) =>
        if chunk = [] then .err "HTTP CONNECT: connection closed before response"
        else match findHeaderEnd (buf ++ chunk) with
          | some headerEnd => .ok ((buf ++ chunk).take headerEnd, conn)
          | none => readHeader reads conn (buf ++ chunk)

/-- The second word of the first line, as a number; zero if there is none. -/
def connectStatus (header : Bytes) : ℕ :=
  let firstLine := Text.firstLine (Utf8.decodeLossy header)
  (((Text.splitWhitespace firstLine)[1]?).bind Text.parseU16).getD 0

def httpConnectHandshake (peer : Peer) (conn : Conn) (host : String) (port : UInt16) :
    Outcome Conn := do
  let (header, conn) ← readHeader 1024 (peer.write conn (connectRequest host port)) []
  let status := connectStatus header
  if status = 200 then pure conn
  else
    let firstLine := String.ofList (Text.firstLine (Utf8.decodeLossy header))
    .err s!"HTTP CONNECT failed with status {status}: {firstLine}"

def socks5ErrorText (code : UInt8) : String :=
  match code.toNat with
  | 1 => "general SOCKS server failure"
  | 2 => "connection not allowed by ruleset"
  | 3 => "network unreachable"
  | 4 => "host unreachable"
  | 5 => "connection refused"
  | 6 => "TTL expired"
  | 7 => "command not supported"
  | 8 => "address type not supported"
  | _ => "unknown error"

/-- `read_exact` with the error of a stream that ends early. -/
def readExact (n : ℕ) (conn : Conn) : Outcome (Bytes × Conn) := do
  let (filled, bytes, conn) ← conn.readExact n
  if filled then pure (bytes, conn) else .err "early eof"

def portBytes (port : UInt16) : Bytes := [(port >>> 8).toUInt8, port.toUInt8]

def socks5Request (host : String) (port : UInt16) : Bytes :=
  [0x05, 0x01, 0x00, 0x03, (Utf8.encode host).length.toUInt8] ++ Utf8.encode host ++ portBytes port

def socks5Handshake (peer : Peer) (conn : Conn) (host : String) (port : UInt16) :
    Outcome Conn := do
  let conn := peer.write conn [0x05, 0x01, 0x00]
  let (resp, conn) ← readExact 2 conn
  if resp[0]! ≠ 0x05 then .err s!"SOCKS5: server returned wrong version: {resp[0]!}"
  else if resp[1]! = 0xFF then .err "SOCKS5: no acceptable auth methods"
  else if 255 < (Utf8.encode host).length then .err s!"SOCKS5: domain too long: {host}"
  else
    let conn := peer.write conn (socks5Request host port)
    let (header, conn) ← readExact 4 conn
    if header[0]! ≠ 0x05 then .err s!"SOCKS5: wrong version in response: {header[0]!}"
    else if header[1]! ≠ 0x00 then
      .err s!"SOCKS5 CONNECT failed: {socks5ErrorText header[1]!} (code {header[1]!})"
    else if header[3]! = 0x01 then do
      let (_, conn) ← readExact 6 conn
      pure conn
    else if header[3]! = 0x03 then do
      let (len, conn) ← readExact 1 conn
      let (_, conn) ← readExact (len[0]!.toNat + 2) conn
      pure conn
    else if header[3]! = 0x04 then do
      let (_, conn) ← readExact 18 conn
      pure conn
    else .err s!"SOCKS5: unknown ATYP in response: {header[3]!}"

def connectThroughProxy (proxy : Proxy) (peer : Peer) (targetHost : String) (targetPort : UInt16) :
    Outcome Conn :=
  match peer.refusal with
  | some e => .err s!"TCP connect to proxy {proxy.addr} failed: {e}"
  | none =>
    match proxy.protocol with
    | .http => httpConnectHandshake peer peer.connect targetHost targetPort
    | .https => httpConnectHandshake peer peer.connect targetHost targetPort
    | .socks5 => socks5Handshake peer peer.connect targetHost targetPort

theorem findHeaderEnd_le {buf : Bytes} {n : ℕ} (h : findHeaderEnd buf = some n) :
    n ≤ buf.length := by
  induction buf generalizing n with
  | nil => cases h
  | cons b rest ih =>
    unfold findHeaderEnd at h
    split_ifs at h with hend
    · have hlen := congrArg List.length hend
      simp only [List.length_take, List.length_cons, List.length_nil, Option.some.injEq] at hlen h ⊢
      omega
    · obtain ⟨m, hm, rfl⟩ := Option.map_eq_some_iff.mp h
      exact Nat.succ_le_succ (ih hm)

theorem le_findHeaderEnd {buf : Bytes} {n : ℕ} (h : findHeaderEnd buf = some n) : 4 ≤ n := by
  induction buf generalizing n with
  | nil => cases h
  | cons b rest ih =>
    unfold findHeaderEnd at h
    split_ifs at h
    · exact (Option.some.inj h).le
    · obtain ⟨m, hm, rfl⟩ := Option.map_eq_some_iff.mp h
      exact (ih hm).trans (Nat.le_succ _)

/-- A header that is complete is found at the same place when more bytes follow. -/
theorem findHeaderEnd_append {buf : Bytes} {n : ℕ} (h : findHeaderEnd buf = some n) (more : Bytes) :
    findHeaderEnd (buf ++ more) = some n := by
  induction buf generalizing n with
  | nil => cases h
  | cons b rest ih =>
    unfold findHeaderEnd at h
    rw [List.cons_append, findHeaderEnd]
    split_ifs at h with hend
    · have hlen := congrArg List.length hend
      simp only [List.length_take, List.length_cons, List.length_nil] at hlen
      rw [← List.cons_append, List.take_append_of_le_length (by simp; omega), if_pos hend, h]
    · obtain ⟨m, hm, rfl⟩ := Option.map_eq_some_iff.mp h
      have hle := findHeaderEnd_le hm
      have hge := le_findHeaderEnd hm
      rw [← List.cons_append, List.take_append_of_le_length (by simp; omega), if_neg hend, ih hm]
      rfl

/-- What is shorter than the header does not hold its end. -/
theorem findHeaderEnd_eq_none {h p buf more : Bytes} (hend : findHeaderEnd h = some h.length)
    (hcut : buf ++ more = h ++ p) (hshort : buf.length < h.length) : findHeaderEnd buf = none := by
  rw [Option.eq_none_iff_forall_ne_some]
  intro n hn
  have hfull := findHeaderEnd_append hn more
  rw [hcut, findHeaderEnd_append hend p, Option.some.injEq] at hfull
  have hle := findHeaderEnd_le hn
  omega

/-- What reaches beyond the header is the header and the first bytes behind it. -/
theorem exists_extra {h p buf more : Bytes} (hcut : buf ++ more = h ++ p)
    (hlong : h.length ≤ buf.length) : ∃ extra, buf = h ++ extra ∧ extra ++ more = p := by
  rcases List.append_eq_append_iff.mp hcut with ⟨rest, hh, hmore⟩ | ⟨extra, hbuf, hp⟩
  · have hlen := congrArg List.length hh
    rw [List.length_append] at hlen
    have hnil : rest = [] := List.length_eq_zero_iff.mp (by omega)
    subst hnil
    exact ⟨[], by simpa using hh.symm, by simpa using hmore⟩
  · exact ⟨extra, hbuf, hp.symm⟩

/-- The read that completes the header takes nothing beyond it when the buffer is full with the
header, or when its segment ends with the header. -/
theorem extra_eq_nil_iff {h buf extra bytes : Bytes} (hlen : h.length ≤ 1024)
    (hbuf : buf.length < h.length) (hne : bytes ≠ []) (rest : List Segment)
    (hextra : buf ++ bytes.take (1024 - buf.length) = h ++ extra) :
    extra = [] ↔ h.length = 1024 ∨
      ∃ pre, pre <+: ⟨bytes, hne⟩ :: rest ∧ buf ++ flatten pre = h := by
  have hcount := congrArg List.length hextra
  simp only [List.length_append, List.length_take] at hcount
  constructor
  · rintro rfl
    by_cases hfit : bytes.length ≤ 1024 - buf.length
    · rw [List.take_of_length_le hfit, List.append_nil] at hextra
      exact Or.inr ⟨[⟨bytes, hne⟩], by simp, by simpa using hextra⟩
    · rw [List.length_nil] at hcount
      exact Or.inl (by omega)
  · intro h'
    apply List.length_eq_zero_iff.mp
    rcases h' with hfull | ⟨pre, hpre, heq⟩
    · omega
    · obtain ⟨first, pre, rfl⟩ : ∃ first tail, pre = first :: tail := by
        apply List.exists_cons_of_ne_nil
        rintro rfl
        rw [flatten_nil, List.append_nil] at heq
        exact absurd (congrArg List.length heq) hbuf.ne
      obtain ⟨rfl, -⟩ := List.cons_prefix_cons.mp hpre
      have hall := congrArg List.length heq
      simp only [flatten_cons, List.length_append] at hall
      omega

/-- A prefix of the segments that ends with the header begins with the segment that is still
all header. -/
theorem exists_cut_cons {h buf : Bytes} {segment : Segment} {rest : List Segment}
    (hbuf : buf.length < h.length) :
    (∃ pre, pre <+: segment :: rest ∧ buf ++ flatten pre = h) ↔
      ∃ pre, pre <+: rest ∧ (buf ++ segment.val) ++ flatten pre = h := by
  constructor
  · rintro ⟨pre, hpre, heq⟩
    cases pre with
    | nil =>
      rw [flatten_nil, List.append_nil] at heq
      exact absurd (congrArg List.length heq) hbuf.ne
    | cons first pre =>
      obtain ⟨rfl, htail⟩ := List.cons_prefix_cons.mp hpre
      exact ⟨pre, htail, by rw [List.append_assoc]; exact heq⟩
  · rintro ⟨pre, hpre, heq⟩
    exact ⟨segment :: pre, List.cons_prefix_cons.mpr ⟨rfl, hpre⟩, by
      rw [flatten_cons, ← List.append_assoc, heq]⟩

/-- The reads stop with the first one that completes the header. What it took beyond the header
is lost, so nothing is lost exactly when a cut falls at the header's end, or the header fills
the buffer. -/
theorem readHeader_spec {h p : Bytes} (hend : findHeaderEnd h = some h.length)
    (hlen : h.length ≤ 1024) {segments : List Segment} {conn : Conn} (buf : Bytes) (reads : ℕ)
    (hin : conn.incoming = segments) (hcut : buf ++ flatten segments = h ++ p)
    (hbuf : buf.length < h.length) (hreads : 1024 ≤ reads + buf.length) :
    ∃ conn', readHeader reads conn buf = .ok (h, conn') ∧
      (conn'.unread = p ↔ h.length = 1024 ∨
        ∃ pre, pre <+: segments ∧ buf ++ flatten pre = h) := by
  induction segments generalizing conn buf reads with
  | nil =>
    have := congrArg List.length hcut
    simp only [flatten_nil, List.append_nil, List.length_append] at this
    omega
  | cons segment rest ih =>
    obtain ⟨reads, rfl⟩ : ∃ n, reads = n + 1 := ⟨reads - 1, by omega⟩
    obtain ⟨bytes, hne⟩ := segment
    let space := 1024 - buf.length
    let conn₁ : Conn := { conn with incoming := Conn.pushBack (bytes.drop space) rest }
    have hread : conn.read space = .ok (bytes.take space, conn₁) := by
      simp only [Conn.read, hin, conn₁]
    have hpos : 0 < bytes.length := List.length_pos_iff.mpr hne
    have hchunk : bytes.take space ≠ [] := by
      rw [ne_eq, List.take_eq_nil_iff, not_or]
      exact ⟨by omega, hne⟩
    have hclen : (bytes.take space).length = min space bytes.length := List.length_take
    have hstream : (buf ++ bytes.take space) ++ conn₁.unread = h ++ p := by
      have hunread : conn₁.unread = bytes.drop space ++ flatten rest := flatten_pushBack _ _
      rw [← hcut, hunread, flatten_cons, List.append_assoc, ← List.append_assoc (bytes.take space),
        List.take_append_drop]
    unfold readHeader
    rw [if_neg (by omega), hread]
    simp only [if_neg hchunk]
    by_cases hshort : (buf ++ bytes.take space).length < h.length
    · -- the whole segment is still header
      have hnone := findHeaderEnd_eq_none hend hstream hshort
      rw [List.length_append] at hshort
      have htake : bytes.take space = bytes := List.take_of_length_le (by omega)
      have hdrop : bytes.drop space = [] := List.drop_eq_nil_iff.mpr (by omega)
      have hin₁ : conn₁.incoming = rest := by simp [conn₁, hdrop, Conn.pushBack]
      rw [htake] at hnone hshort ⊢
      obtain ⟨conn', hconn', hiff⟩ := ih (buf ++ bytes) reads hin₁
        (by rw [List.append_assoc, ← flatten_cons ⟨bytes, hne⟩, hcut])
        (by rwa [List.length_append]) (by rw [List.length_append]; omega)
      refine ⟨conn', by rw [hnone]; exact hconn', hiff.trans ?_⟩
      rw [exists_cut_cons hbuf]
    · -- this read completes the header
      obtain ⟨extra, hextra, hp⟩ := exists_extra hstream (Nat.le_of_not_lt hshort)
      have hlost : conn₁.unread = p ↔ extra = [] := by
        rw [← hp, List.self_eq_append_left]
      refine ⟨conn₁, ?_, hlost.trans (extra_eq_nil_iff hlen hbuf hne rest hextra)⟩
      rw [hextra, findHeaderEnd_append hend extra]
      simp only [List.take_left]

/-- What stands before the end of a header is a header. -/
theorem findHeaderEnd_take {buf : Bytes} {n : ℕ} (h : findHeaderEnd buf = some n) :
    findHeaderEnd (buf.take n) = some n := by
  induction buf generalizing n with
  | nil => cases h
  | cons b rest ih =>
    unfold findHeaderEnd at h
    split_ifs at h with hend
    · obtain rfl := Option.some.inj h
      rw [hend]
      rfl
    · obtain ⟨m, hm, rfl⟩ := Option.map_eq_some_iff.mp h
      have hge := le_findHeaderEnd hm
      rw [List.take_succ_cons, findHeaderEnd, ih hm, ← List.take_succ_cons, List.take_take,
        min_eq_left (by omega), if_neg hend]
      rfl

/-- What the reads return is the header at the front of the stream, and it fits the buffer. -/
theorem readHeader_ok {reads : ℕ} {conn conn' : Conn} {buf header : Bytes}
    (h : readHeader reads conn buf = .ok (header, conn')) (hbuf : buf.length ≤ 1024) :
    ∃ rest, buf ++ conn.unread = header ++ rest ∧ findHeaderEnd header = some header.length ∧
      header.length ≤ 1024 := by
  induction reads generalizing conn buf with
  | zero => cases h
  | succ reads ih =>
    unfold readHeader at h
    split_ifs at h with hfull
    obtain ⟨chunk, conn₁, hread, hchunk, hlen, hunread⟩ | ⟨hread, -⟩ :=
      conn.read_cases (n := 1024 - buf.length) (by omega)
    · rw [hread] at h
      simp only [if_neg hchunk] at h
      have hfits : (buf ++ chunk).length ≤ 1024 := by
        rw [List.length_append]
        omega
      rw [hunread, ← List.append_assoc]
      cases hend : findHeaderEnd (buf ++ chunk) with
      | none =>
        rw [hend] at h
        exact ih h hfits
      | some n =>
        rw [hend] at h
        obtain ⟨rfl, -⟩ := Prod.mk.inj (Outcome.ok.inj h)
        have hle := findHeaderEnd_le hend
        have hn : ((buf ++ chunk).take n).length = n := List.length_take_of_le hle
        refine ⟨(buf ++ chunk).drop n ++ conn₁.unread, ?_, ?_, by omega⟩
        · rw [← List.append_assoc, List.take_append_drop]
        · rw [hn]
          exact findHeaderEnd_take hend
    · rw [hread] at h
      split_ifs at h
      simp at h

/-- After an accepting header the handshake succeeds, and exactly the bytes that follow the
header can still be read if and only if the header fills the buffer or the stream is cut
right behind it. -/
theorem connect_stream_exact_iff (peer : Peer) (conn : Conn) (host : String) (port : UInt16)
    (h p : Bytes) (segments : List Segment) (hend : findHeaderEnd h = some h.length)
    (hlen : h.length ≤ 1024) (hstatus : connectStatus h = 200)
    (hin : (peer.write conn (connectRequest host port)).incoming = segments)
    (hcut : flatten segments = h ++ p) :
    ∃ stream, httpConnectHandshake peer conn host port = .ok stream ∧
      (stream.unread = p ↔ h.length = 1024 ∨ ∃ pre, pre <+: segments ∧ flatten pre = h) := by
  have hpos := le_findHeaderEnd hend
  obtain ⟨stream, hread, hiff⟩ := readHeader_spec hend hlen [] 1024 hin hcut
    (by simp; omega) (by simp)
  refine ⟨stream, ?_, by simpa using hiff⟩
  simp [httpConnectHandshake, hread, hstatus]

/-! A tunnel to a server that speaks first. -/

def okHeader : Bytes := Utf8.encode "HTTP/1.1 200 Connection established\r\n\r\n"

def sshBanner : Bytes := Utf8.encode "SSH-2.0-OpenSSH_9.6\r\n"

/-- A proxy that answers every request with these segments. -/
def answering (segments : List Segment) : Peer where
  refusal := none
  respond received := if received = [] then ([], false) else (segments, false)

/-- Cut behind the header, the banner reaches the client whole. -/
theorem connect_stream_exact_cut : ∃ stream,
    httpConnectHandshake (answering [⟨okHeader, by decide⟩, ⟨sshBanner, by decide⟩])
      (answering [⟨okHeader, by decide⟩, ⟨sshBanner, by decide⟩]).connect "example.com" 22 =
        .ok stream ∧ stream.unread = sshBanner := by
  obtain ⟨stream, hok, hiff⟩ := connect_stream_exact_iff
    (answering [⟨okHeader, by decide⟩, ⟨sshBanner, by decide⟩])
    (answering [⟨okHeader, by decide⟩, ⟨sshBanner, by decide⟩]).connect "example.com" 22 okHeader
    sshBanner _ (by decide) (by decide) (by decide) rfl (by decide)
  exact ⟨stream, hok, hiff.mpr (Or.inr ⟨[⟨okHeader, by decide⟩], by decide, by decide⟩)⟩

/-- When header and banner arrive together, the handshake swallows the banner. -/
theorem connect_swallows_banner :
    flatten [⟨okHeader ++ sshBanner, by decide⟩] = okHeader ++ sshBanner ∧
    findHeaderEnd okHeader = some okHeader.length ∧ connectStatus okHeader = 200 ∧
    ∃ stream, httpConnectHandshake (answering [⟨okHeader ++ sshBanner, by decide⟩])
      (answering [⟨okHeader ++ sshBanner, by decide⟩]).connect "example.com" 22 = .ok stream ∧
      stream.unread = [] ∧ sshBanner ≠ [] := by
  exact ⟨by decide, by decide, by decide, _, rfl, by decide, by decide⟩

end VpnGateway
