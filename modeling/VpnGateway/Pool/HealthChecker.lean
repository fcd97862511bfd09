import VpnGateway.Proxy.Upstream

/-! The three-stage health check, and how its verdict relates to what the data path accepts. -/
namespace VpnGateway

open Wire

def tlsCheckHost : String := "cloudflare.com"

def tlsCheckPort : UInt16 := 443

def connectCheckPort : UInt16 := 80

inductive CheckResult where
  | ok (latencyMs : ℕ)
  | okNoTls (latencyMs : ℕ)
  | dead
  deriving DecidableEq

/-- The TLS client: whether it validates the certificate it meets on a tunnel. -/
abbrev TlsConnector := Peer → Conn → Bool

/-- The request of both HTTP stages. -/
def checkRequest (port : UInt16) : Bytes :=
  Utf8.encode s!"CONNECT {tlsCheckHost}:{port} HTTP/1.1\r\nHost: {tlsCheckHost}:{port}\r\n\r\n"

/-- `read_line`, which accepts valid UTF-8 only. -/
def readLine (r : BufReader) : Outcome (List Char × BufReader) := do
  let (line, r) ← r.readLine
  match Utf8.decode line with
  | some text => pure (text, r)
  | none => .err "stream did not contain valid UTF-8"

def startsWithOk (response : List Char) : Bool :=
  "HTTP/1.1 200".toList.isPrefixOf response || "HTTP/1.0 200".toList.isPrefixOf response

/-- Stage 1. -/
def checkTcpConnect (peer : Peer) : Bool := peer.refusal.isNone

/-- Stage 2: an HTTP CONNECT, whatever the protocol of the proxy. -/
def checkHttpConnect (peer : Peer) : Bool :=
  peer.refusal.isNone &&
    match readLine (.new (peer.write peer.connect (checkRequest connectCheckPort))) with
    | .ok (response, _) => startsWithOk response
    | _ => false

/-- Skip the remaining headers: up to an empty line, the end of the stream, a line that is not
UTF-8, or a timeout, which leaves nothing to read. -/
def drainHeaders : ℕ → BufReader → Conn
  | 0, r => r.conn
  | lines + 1, r =>
    match r.readLine with
    | .ok (line, r) =>
      match Utf8.decode line with
      | some drain => if drain.all Text.isWhitespace then r.conn else drainHeaders lines r
      | none => r.conn
    | _ => { r.conn with incoming := [] }

def tlsCheckHttpConnect (peer : Peer) (conn : Conn) : Option Conn :=
  match readLine (.new (peer.write conn (checkRequest tlsCheckPort))) with
  | .ok (response, r) =>
    if startsWithOk response then some (drainHeaders (r.pending.length + 1) r) else none
  | _ => none

/-- `read_exact` under a timeout, whose own result is not looked at: a buffer that the stream
leaves unfilled keeps its zeros. -/
def readPadded (n : ℕ) (conn : Conn) : Option (Bytes × Conn) :=
  match conn.readExact n with
  | .ok (_, bytes, conn) => some (bytes ++ List.replicate (n - bytes.length) 0, conn)
  | _ => none

/-- A skip whose timeout is not looked at either. -/
def skipBytes (n : ℕ) (conn : Conn) : Bytes × Conn :=
  (readPadded n conn).getD (List.replicate n 0, { conn with incoming := [] })

def tlsCheckSocks5 (peer : Peer) (conn : Conn) : Option Conn := do
  let (resp, conn) ← readPadded 2 (peer.write conn [0x05, 0x01, 0x00])
  if resp[0]! ≠ 0x05 ∨ resp[1]! = 0xFF then none
  else
    let (header, conn) ← readPadded 4 (peer.write conn (socks5Request tlsCheckHost tlsCheckPort))
    if header[0]! ≠ 0x05 ∨ header[1]! ≠ 0x00 then none
    else if header[3]! = 0x01 then some (skipBytes 6 conn).2
    else if header[3]! = 0x03 then
      let (len, conn) := skipBytes 1 conn
      some (skipBytes (len[0]!.toNat + 2) conn).2
    else if header[3]! = 0x04 then some (skipBytes 18 conn).2
    else none

/-- Stage 3: a tunnel by the proxy's own protocol, and a TLS handshake through it. -/
def checkTlsValidity (tls : TlsConnector) (proxy : Proxy) (peer : Peer) : Bool :=
  peer.refusal.isNone &&
    match proxy.protocol with
    | .http => (tlsCheckHttpConnect peer peer.connect).any (tls peer)
    | .https => (tlsCheckHttpConnect peer peer.connect).any (tls peer)
    | .socks5 => (tlsCheckSocks5 peer peer.connect).any (tls peer)

/-- `latencyMs` is the time that stage 2 took. -/
def checkSingle (tls : TlsConnector) (proxy : Proxy) (peer : Peer) (latencyMs : ℕ) :
    String × CheckResult :=
  if checkTcpConnect peer then
    if checkHttpConnect peer then
      if checkTlsValidity tls proxy peer then (proxy.key, .ok latencyMs)
      else (proxy.key, .okNoTls latencyMs)
    else (proxy.key, .dead)
  else (proxy.key, .dead)

/-- The peer takes the connection and its answer to the check's request begins with a whole line
of valid UTF-8 that starts with an accepting HTTP/1.1 or HTTP/1.0 status. -/
def AcceptsCheck (peer : Peer) : Prop :=
  peer.refusal = none ∧ ∃ line text,
    lineOf (peer.write peer.connect (checkRequest 80)).unread
      (peer.write peer.connect (checkRequest 80)).closed = some line ∧
    Utf8.decode line = some text ∧ startsWithOk text

/-- The data path's handshake for the proxy's protocol succeeds for these hosts and all ports. -/
def DataPathWorks (proxy : Proxy) (peer : Peer) (hosts : String → Prop) : Prop :=
  ∀ host, hosts host → ∀ port, (connectThroughProxy proxy peer host port).isOk

/-- How the bytes of a line are cut does not matter. -/
theorem readLine_new (conn : Conn) :
    match (lineOf conn.unread conn.closed).bind Utf8.decode with
    | some text => ∃ r, readLine (.new conn) = .ok (text, r)
    | none => ∀ text r, readLine (.new conn) ≠ .ok (text, r) := by
  have hspec := (BufReader.new conn).readLine_spec
  have hpend : (BufReader.new conn).pending = conn.unread := List.nil_append _
  have hclosed : (BufReader.new conn).conn.closed = conn.closed := rfl
  rw [hpend, hclosed] at hspec
  unfold readLine
  cases hline : lineOf conn.unread conn.closed with
  | none =>
    rw [hline] at hspec
    have hwaits : (BufReader.new conn).readLine = .waits := hspec
    rw [hwaits]
    intro text r
    exact nofun
  | some line =>
    rw [hline] at hspec
    obtain ⟨r, hr⟩ := hspec
    rw [hr, Option.bind_some]
    cases htext : Utf8.decode line with
    | none =>
      intro text r
      simp [htext]
    | some text => exact ⟨r, by simp [htext]⟩

/-- How the answer's bytes are cut does not matter to stage 2. -/
theorem checkHttpConnect_iff (peer : Peer) : checkHttpConnect peer ↔ AcceptsCheck peer := by
  let conn := peer.write peer.connect (checkRequest 80)
  have hread := readLine_new conn
  show (peer.refusal.isNone && match readLine (.new conn) with
      | .ok (response, _) => startsWithOk response
      | _ => false) = true ↔
    peer.refusal = none ∧ ∃ line text, lineOf conn.unread conn.closed = some line ∧
      Utf8.decode line = some text ∧ startsWithOk text = true
  rw [Bool.and_eq_true, Option.isNone_iff_eq_none]
  apply and_congr_right
  intro _
  cases hline : (lineOf conn.unread conn.closed).bind Utf8.decode with
  | none =>
    rw [hline] at hread
    have hno : ¬∃ line text, lineOf conn.unread conn.closed = some line ∧
        Utf8.decode line = some text ∧ startsWithOk text = true := by
      rintro ⟨line, text, hl, htext, -⟩
      rw [hl, Option.bind_some, htext] at hline
      cases hline
    rw [iff_false_right hno]
    cases h : readLine (.new conn) with
    | ok read => exact absurd h (hread read.1 read.2)
    | err message => exact Bool.false_ne_true
    | waits => exact Bool.false_ne_true
  | some text =>
    rw [hline] at hread
    obtain ⟨r, hr⟩ := hread
    obtain ⟨line, hl, htext⟩ := Option.bind_eq_some_iff.mp hline
    rw [hr, hl]
    simp [htext]

theorem checkSingle_ne_dead_iff (tls : TlsConnector) (proxy : Proxy) (peer : Peer)
    (latencyMs : ℕ) : (checkSingle tls proxy peer latencyMs).2 ≠ .dead ↔ AcceptsCheck peer := by
  rw [← checkHttpConnect_iff]
  unfold checkSingle
  by_cases htcp : checkTcpConnect peer
  · rw [if_pos htcp]
    by_cases hhttp : checkHttpConnect peer
    · rw [if_pos hhttp]
      refine iff_of_true ?_ hhttp
      split_ifs <;> simp
    · rw [if_neg hhttp]
      exact iff_of_false (by simp) hhttp
  · rw [if_neg htcp]
    refine iff_of_false (by simp) fun hhttp => htcp ?_
    exact (Bool.and_eq_true_iff.mp hhttp).1

/-- A proxy that the data path can use is not declared dead exactly when it accepts the check's
HTTP CONNECT in the form the check reads, whatever its own protocol is. -/
theorem usable_not_dead_iff (tls : TlsConnector) (proxy : Proxy) (peer : Peer) (latencyMs : ℕ)
    (hosts : String → Prop) :
    (DataPathWorks proxy peer hosts → (checkSingle tls proxy peer latencyMs).2 ≠ .dead) ↔
      (DataPathWorks proxy peer hosts → AcceptsCheck peer) :=
  imp_congr_right fun _ => checkSingle_ne_dead_iff tls proxy peer latencyMs

/-- A SOCKS5 server that needs no login and hangs up on anything else. -/
def socksServer : Peer where
  refusal := none
  respond received :=
    if received = [] then ([], false)
    else if received = [5, 1, 0] then ([⟨[5, 0], by decide⟩], false)
    else if received.take 3 = [5, 1, 0] then
      ([⟨[5, 0, 0, 1, 0, 0, 0, 0, 0, 0], by decide⟩], false)
    else ([], true)

/-- An HTTP proxy that answers every request with a reason phrase in Latin-1. -/
def latin1Server : Peer :=
  answering [⟨Utf8.encode "HTTP/1.1 200 Conexi" ++ [0xF3] ++ Utf8.encode "n establecida\r\n\r\n",
    by decide⟩]

theorem connectRequest_ne_nil (host : String) (port : UInt16) : connectRequest host port ≠ [] := by
  intro h
  have hlen := congrArg List.length h
  have hstart : (Utf8.encode "CONNECT ").length = 8 := by decide
  simp only [connectRequest, toString, Utf8.encode_append, List.length_append, List.length_nil,
    hstart] at hlen
  omega

/-- The server grants every request that follows the greeting. -/
theorem socksServer_grants (host : String) (port : UInt16) :
    socksServer.write ⟨[5, 1, 0], [], false⟩ (socks5Request host port) =
      ⟨[5, 1, 0] ++ socks5Request host port, [⟨[5, 0, 0, 1, 0, 0, 0, 0, 0, 0], by decide⟩],
        false⟩ := by
  have hne : socks5Request host port ≠ [] := by simp [socks5Request]
  simp [Peer.write, socksServer, hne]

theorem socks5Handshake_socksServer {host : String} (hhost : (Utf8.encode host).length ≤ 255)
    (port : UInt16) : (socks5Handshake socksServer socksServer.connect host port).isOk := by
  have hgreet : readExact 2 (socksServer.write socksServer.connect [5, 1, 0]) =
      .ok ([5, 0], ⟨[5, 1, 0], [], false⟩) := rfl
  have hheader : ∀ sent, readExact 4 ⟨sent, [⟨[5, 0, 0, 1, 0, 0, 0, 0, 0, 0], by decide⟩], false⟩ =
      .ok ([5, 0, 0, 1], ⟨sent, [⟨[0, 0, 0, 0, 0, 0], by decide⟩], false⟩) := fun _ => rfl
  have hbound : ∀ sent, readExact 6 ⟨sent, [⟨[0, 0, 0, 0, 0, 0], by decide⟩], false⟩ =
      .ok ([0, 0, 0, 0, 0, 0], ⟨sent, [], false⟩) := fun _ => rfl
  simp [socks5Handshake, hgreet, Nat.not_lt.mpr hhost, socksServer_grants, hheader, hbound,
    Outcome.isOk]

theorem answering_write {segments : List Segment} {request : Bytes} (h : request ≠ []) :
    (answering segments).write (answering segments).connect request =
      ⟨request, segments, false⟩ := by
  simp [Peer.write, Peer.connect, answering, h]

/-- A SOCKS5 proxy and an HTTP proxy that the data path can always use, and that the health
check declares dead. -/
theorem usable_but_dead :
    (DataPathWorks (.new "10.0.0.1" 1080 .socks5) socksServer
        (fun host => (Utf8.encode host).length ≤ 255) ∧
      ∀ tls latencyMs,
        (checkSingle tls (.new "10.0.0.1" 1080 .socks5) socksServer latencyMs).2 = .dead) ∧
    DataPathWorks (.new "10.0.0.2" 8080 .http) latin1Server (fun _ => True) ∧
      ∀ tls latencyMs,
        (checkSingle tls (.new "10.0.0.2" 8080 .http) latin1Server latencyMs).2 = .dead := by
  refine ⟨⟨fun host hhost port => ?_, fun tls l => rfl⟩, fun host _ port => ?_, fun tls l => rfl⟩
  · exact socks5Handshake_socksServer hhost port
  · have hwrite : latin1Server.write latin1Server.connect (connectRequest host port) =
        ⟨connectRequest host port, (latin1Server.respond [0]).1, false⟩ :=
      answering_write (connectRequest_ne_nil host port)
    have hread : ∀ sent, ∃ header conn, readHeader 1024 ⟨sent, (latin1Server.respond [0]).1, false⟩
        [] = .ok (header, conn) ∧ connectStatus header = 200 := fun sent => ⟨_, _, rfl, by decide⟩
    obtain ⟨header, conn, hok, hstatus⟩ := hread (connectRequest host port)
    have hhandshake : httpConnectHandshake latin1Server latin1Server.connect host port =
        .ok conn := by
      simp [httpConnectHandshake, hwrite, hok, hstatus]
    show (httpConnectHandshake latin1Server latin1Server.connect host port).isOk = true
    rw [hhandshake]
    rfl

end VpnGateway
