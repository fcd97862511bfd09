import VpnGateway.Pool.Operations
import VpnGateway.Pool.WarmPool
import VpnGateway.Proxy.Socks5Handshake

/-! An attempt over a warm connection next to one over a fresh connection: what the handshake
finds on a connection that has been idle. -/
namespace VpnGateway

open Wire Socks5

/-- A warm connection when its handshake begins, with what its other end does from now on and
the time that the handshake would take. -/
structure WarmSocket where
  conn : Conn
  far : Peer
  took : ℕ

/-- A peek finds a byte, or finds that there is none yet. -/
def isConnectionAlive (conn : Conn) : Bool := conn.incoming ≠ [] || !conn.closed

def connectToTarget (proxy : Proxy) (peer : Peer) (target : String) (port : UInt16) :
    Outcome Conn := connectThroughProxy proxy peer target port

def handshake (protocol : Protocol) (peer : Peer) (conn : Conn) (target : String) (port : UInt16) :
    Outcome Conn :=
  match protocol with
  | .http | .https => httpConnectHandshake peer conn target port
  | .socks5 => socks5Handshake peer conn target port

/-- The handshake within ten seconds. -/
def handshakeOnStream (proxy : Proxy) (socket : WarmSocket) (target : String) (port : UInt16) :
    Outcome Conn :=
  if fromSecs 10 < socket.took then .err "Handshake on warm connection timed out"
  else match handshake proxy.protocol socket.far socket.conn target port with
    | .waits => .err "Handshake on warm connection timed out"
    | result => result

/-- What an attempt goes by besides its proxy: the queue of warm connections, how each of them
looks to the peek and then to the handshake, and what a fresh connection meets. -/
structure WarmAttempt where
  maxAge : ℕ
  now : Instant
  queue : List WarmConnection
  peeked : ℕ → Conn
  sockets : ℕ → WarmSocket
  peer : Peer

namespace WarmAttempt

variable (a : WarmAttempt) (proxy : Proxy) (target : String) (port : UInt16)

/-- The connection that `take` returns. -/
def taken : Option ℕ :=
  (popAlive a.maxAge a.now (fun conn => isConnectionAlive (a.peeked conn.stream)) a.queue).1

/-- `connect_result` of an attempt of `handle_connection`. -/
def connectResult : Outcome Conn :=
  match a.taken with
  | some stream => handshakeOnStream proxy (a.sockets stream) target port
  | none => connectToTarget proxy a.peer target port

/-- What the attempt then does to the pool. -/
def ops (client : SocketAddr) (latency : F64) : List Op :=
  match a.connectResult proxy target port with
  | .ok _ => [.recordSuccess proxy.key latency, .setOrTouch client proxy.key]
  | .err _ => [.recordFail proxy.key]
  | .waits => []

end WarmAttempt

/-- What can be read on the connection (the pending bytes, and what the other end answers as long
as it has not closed) accepts the target: an HTTP header with status 200 that fits the buffer, or
the choice of a SOCKS5 method, there once the greeting is out, and a reply without an error. -/
def Accepts (peer : Peer) (conn : Conn) (target : String) (port : UInt16) : Protocol → Prop
  | .http | .https => ∃ header rest,
      (peer.write conn (connectRequest target port)).unread = header ++ rest ∧
      findHeaderEnd header = some header.length ∧ header.length ≤ 1024 ∧ connectStatus header = 200
  | .socks5 => ∃ method reserved bound boundPort rest, method ≠ 0xFF ∧
      [5, method] <+: (peer.write conn greeting).unread ∧
      (peer.write (peer.write conn greeting) (socks5Request target port)).unread =
        [5, method] ++ encodeReply reserved bound boundPort ++ rest

variable {peer : Peer} {conn : Conn} {host : String} {port : UInt16}

theorem httpConnectHandshake_isOk_iff :
    (httpConnectHandshake peer conn host port).isOk ↔ Accepts peer conn host port .http := by
  rw [Outcome.isOk_iff]
  constructor
  · rintro ⟨stream, h⟩
    obtain ⟨⟨header, conn'⟩, hread, h⟩ := Outcome.bind_eq_ok.mp h
    obtain ⟨rest, hunread, hend, hlen⟩ := readHeader_ok hread (Nat.zero_le _)
    refine ⟨header, rest, hunread, hend, hlen, ?_⟩
    by_contra hstatus
    simp [hstatus] at h
  · rintro ⟨header, rest, hunread, hend, hlen, hstatus⟩
    obtain ⟨stream, h, -⟩ := connect_stream_exact_iff peer conn host port header rest _ hend hlen
      hstatus rfl hunread
    exact ⟨stream, h⟩

theorem readExact_append {bytes rest : Bytes} (h : conn.unread = bytes ++ rest) :
    ∃ conn', readExact bytes.length conn = .ok (bytes, conn') ∧ conn'.unread = rest ∧
      conn'.sent = conn.sent ∧ conn'.closed = conn.closed := by
  obtain ⟨conn', hread, hrest⟩ := Conn.readExact_append h
  exact ⟨conn', by simp [readExact, hread], hrest⟩

/-- An exact read has its bytes, or meets the end of the stream or silence. -/
theorem readExact_cases (n : ℕ) (conn : Conn) :
    (∃ bytes conn', readExact n conn = .ok (bytes, conn') ∧ bytes.length = n ∧
      conn.unread = bytes ++ conn'.unread ∧ conn'.sent = conn.sent ∧
      conn'.closed = conn.closed) ∨
    conn.unread.length < n ∧
      readExact n conn = if conn.closed then .err "early eof" else .waits := by
  by_cases hn : n ≤ conn.unread.length
  · left
    obtain ⟨conn', hread, hrest, hsent, hclosed⟩ :=
      readExact_append (List.take_append_drop n conn.unread).symm
    rw [List.length_take_of_le hn] at hread
    exact ⟨_, conn', hread, List.length_take_of_le hn,
      by rw [hrest, List.take_append_drop], hsent, hclosed⟩
  · right
    have htake := (Conn.takeBytes_spec n conn.incoming).1
    have hlen : (Conn.takeBytes n conn.incoming).1.length ≠ n := by
      rw [htake, List.length_take]
      change min n conn.unread.length ≠ n
      omega
    refine ⟨Nat.lt_of_not_le hn, ?_⟩
    cases hclosed : conn.closed <;>
      simp [readExact, Conn.readExact, hlen, hclosed]

theorem readExact_ok {n : ℕ} {bytes : Bytes} {conn' : Conn}
    (h : readExact n conn = .ok (bytes, conn')) :
    bytes.length = n ∧ conn.unread = bytes ++ conn'.unread ∧ conn'.sent = conn.sent ∧
      conn'.closed = conn.closed := by
  obtain ⟨bytes₁, conn₁, hread, hspec⟩ | ⟨-, hread⟩ := readExact_cases n conn
  · obtain ⟨rfl, rfl⟩ := Prod.mk.inj (Outcome.ok.inj (h.symm.trans hread))
    exact hspec
  · rw [h] at hread
    split_ifs at hread

/-- Any two bytes are some port. -/
theorem exists_be16 (high low : UInt8) : ∃ port : UInt16, be16 port.toNat = [high, low] := by
  have hhigh := high.toNat_lt
  have hlow := low.toNat_lt
  refine ⟨UInt16.ofNat (fromBe16 high low), ?_⟩
  rw [UInt16.toNat_ofNat', Nat.mod_eq_of_lt (by simp only [fromBe16]; omega)]
  simp only [be16, fromBe16, List.cons.injEq, and_true, UInt8.ext_iff, UInt8.toNat_ofNat']
  omega

theorem exists_octets {n : ℕ} {bytes : Bytes} (h : bytes.length = n + 2) :
    ∃ (octets : Bytes) (port : UInt16), octets.length = n ∧ bytes = octets ++ be16 port.toNat := by
  have hrest : (bytes.drop n).length = 2 := by rw [List.length_drop, h, Nat.add_sub_cancel_left]
  obtain ⟨high, low, hlast⟩ := List.length_eq_two.mp hrest
  obtain ⟨port, hport⟩ := exists_be16 high low
  refine ⟨bytes.take n, port, List.length_take_of_le (by omega), ?_⟩
  rw [hport, ← hlast, List.take_append_drop]

/-- The bound address is skipped exactly where there is one. -/
theorem skipBound_isOk_iff {atyp : UInt8} :
    (Session.result (skipBound atyp) peer conn).isOk ↔
      ∃ (bound : Addr) (boundPort : UInt16) (rest : Bytes), atyp = bound.type ∧
        conn.unread = bound.body ++ be16 boundPort.toNat ++ rest := by
  constructor
  · intro h
    obtain ⟨stream, h⟩ := Outcome.isOk_iff.mp h
    unfold skipBound at h
    split_ifs at h with h1 h3 h4
    · rw [result_receive_bind] at h
      obtain ⟨⟨bytes, conn'⟩, hread, -⟩ := Outcome.bind_eq_ok.mp h
      obtain ⟨hlen, hunread, -, -⟩ := readExact_ok hread
      obtain ⟨octets, boundPort, hfour, rfl⟩ := exists_octets hlen
      exact ⟨.ipv4 ⟨octets, hfour⟩, boundPort, conn'.unread, h1, hunread⟩
    · rw [result_receive_bind] at h
      obtain ⟨⟨count, mid⟩, hcount, h⟩ := Outcome.bind_eq_ok.mp h
      obtain ⟨hone, hmid, -, -⟩ := readExact_ok hcount
      obtain ⟨len, rfl⟩ := List.length_eq_one_iff.mp hone
      rw [result_receive_bind] at h
      obtain ⟨⟨bytes, conn'⟩, hread, -⟩ := Outcome.bind_eq_ok.mp h
      obtain ⟨hlen, hunread, -, -⟩ := readExact_ok hread
      obtain ⟨name, boundPort, hname, rfl⟩ := exists_octets hlen
      have hbyte : UInt8.ofNat name.length = len := by
        rw [show name.length = len.toNat from hname, UInt8.ofNat_toNat]
      have hfits : name.length ≤ 255 := by
        have := len.toNat_lt
        rw [show name.length = len.toNat from hname]
        omega
      refine ⟨.domain ⟨name, hfits⟩, boundPort, conn'.unread, h3, ?_⟩
      show conn.unread = UInt8.ofNat name.length :: name ++ be16 boundPort.toNat ++ conn'.unread
      rw [hbyte, hmid, hunread]
      rfl
    · rw [result_receive_bind] at h
      obtain ⟨⟨bytes, conn'⟩, hread, -⟩ := Outcome.bind_eq_ok.mp h
      obtain ⟨hlen, hunread, -, -⟩ := readExact_ok hread
      obtain ⟨octets, boundPort, hsixteen, rfl⟩ := exists_octets hlen
      exact ⟨.ipv6 ⟨octets, hsixteen⟩, boundPort, conn'.unread, h4, hunread⟩
    · cases h
  · rintro ⟨bound, boundPort, rest, rfl, hunread⟩
    obtain ⟨conn', hskip, -, -⟩ := skipBound_append peer bound boundPort hunread
    simp [Session.result, hskip, Outcome.isOk]

theorem socks5Handshake_isOk_iff : (socks5Handshake peer conn host port).isOk ↔
    (Utf8.encode host).length ≤ 255 ∧ Accepts peer conn host port .socks5 := by
  rw [← result_socks5Session, socks5Session, result_send_bind, result_receive_bind]
  constructor
  · intro h
    obtain ⟨stream, h⟩ := Outcome.isOk_iff.mp h
    obtain ⟨⟨resp, mid⟩, hresp, h⟩ := Outcome.bind_eq_ok.mp h
    obtain ⟨htwo, hmid, hsent, hclosed⟩ := readExact_ok hresp
    obtain ⟨version, method, rfl⟩ := List.length_eq_two.mp htwo
    dsimp only at h
    split_ifs at h with hversion hmethod hlong
    · cases h
    · cases h
    · cases h
    rw [result_send_bind, result_receive_bind] at h
    obtain ⟨⟨header, tail⟩, hheader, h⟩ := Outcome.bind_eq_ok.mp h
    obtain ⟨hfour, htail, -, -⟩ := readExact_ok hheader
    obtain ⟨version', code, reserved, atyp, rfl⟩ : ∃ a b c d, header = [a, b, c, d] := by
      match header, hfour with
      | [a, b, c, d], _ => exact ⟨a, b, c, d, rfl⟩
    dsimp only at h
    split_ifs at h with hversion' hcode
    · cases h
    · cases h
    obtain ⟨bound, boundPort, rest, hatyp, hbound⟩ :=
      skipBound_isOk_iff.mp (Outcome.isOk_iff.mpr ⟨stream, h⟩)
    simp only [List.getElem!_cons_zero, not_not] at hversion hversion'
    simp only [List.getElem!_cons_succ, List.getElem!_cons_zero, not_not] at hmethod hcode hatyp
    subst hversion hversion' hcode hatyp
    refine ⟨by omega, method, reserved, bound, boundPort, rest, hmethod, ?_, ?_⟩
    · exact ⟨mid.unread, hmid.symm⟩
    have hdelivered := peer.unread_write_append hmid hsent hclosed (socks5Request host port)
    refine hdelivered.trans ?_
    rw [htail, hbound]
    simp [encodeReply, Addr.encode]
  · rintro ⟨hhost, method, reserved, bound, boundPort, rest, hmethod, ⟨more, hmore⟩, hunread⟩
    obtain ⟨mid, hresp, hmid, hsent, hclosed⟩ := readExact_append hmore.symm
    have hreply : (peer.write mid (socks5Request host port)).unread =
        [5, 0, reserved, bound.type] ++ (bound.body ++ be16 boundPort.toNat ++ rest) := by
      have hfront := peer.unread_write_append (hmore.symm.trans (by rw [hmid])) hsent hclosed
        (socks5Request host port)
      rw [hunread, List.append_assoc] at hfront
      rw [← List.append_cancel_left hfront]
      simp [encodeReply, Addr.encode]
    obtain ⟨tail, hheader, htail, -, -⟩ := readExact_append hreply
    have hskip : (Session.result (skipBound bound.type) peer tail).isOk :=
      skipBound_isOk_iff.mpr ⟨bound, boundPort, rest, rfl, htail⟩
    rw [show readExact 2 (peer.write conn [5, 1, 0]) = _ from hresp, Outcome.ok_bind]
    dsimp only
    rw [if_neg (by simp), if_neg (by simpa using hmethod), if_neg (by omega), result_send_bind,
      result_receive_bind, show readExact 4 (peer.write mid _) = _ from hheader, Outcome.ok_bind]
    dsimp only
    rw [if_neg (by simp), if_neg (by simp)]
    exact hskip

/-- The handshake succeeds on what accepts a target whose name fits the SOCKS5 request. -/
theorem handshake_isOk_iff {protocol : Protocol} :
    (handshake protocol peer conn host port).isOk ↔
      (protocol = .socks5 → (Utf8.encode host).length ≤ 255) ∧
        Accepts peer conn host port protocol := by
  cases protocol with
  | http => exact httpConnectHandshake_isOk_iff.trans (and_iff_right nofun).symm
  | https => exact httpConnectHandshake_isOk_iff.trans (and_iff_right nofun).symm
  | socks5 => simpa [handshake] using socks5Handshake_isOk_iff

theorem connectToTarget_eq {proxy : Proxy} (h : (connectToTarget proxy peer host port).isOk) :
    connectToTarget proxy peer host port =
      handshake proxy.protocol peer peer.connect host port := by
  unfold connectToTarget connectThroughProxy at h ⊢
  cases hr : peer.refusal with
  | some e => simp [hr, Outcome.isOk] at h
  | none => cases hp : proxy.protocol <;> rfl

theorem handshakeOnStream_isOk_iff {proxy : Proxy} {socket : WarmSocket} :
    (handshakeOnStream proxy socket host port).isOk ↔ socket.took ≤ fromSecs 10 ∧
      (handshake proxy.protocol socket.far socket.conn host port).isOk := by
  unfold handshakeOnStream
  split_ifs with htime
  · simp [Outcome.isOk, htime]
  · rw [Nat.not_lt] at htime
    cases handshake proxy.protocol socket.far socket.conn host port <;> simp [Outcome.isOk, htime]

/-- On a connection that looks and behaves like a fresh one, the handshake ends like there. -/
theorem handshakeOnStream_fresh {proxy : Proxy} {took : ℕ} (htime : took ≤ fromSecs 10)
    (h : (connectToTarget proxy peer host port).isOk) :
    handshakeOnStream proxy ⟨peer.connect, peer, took⟩ host port =
      connectToTarget proxy peer host port := by
  have heq := connectToTarget_eq h
  rw [heq] at h ⊢
  rw [handshakeOnStream, if_neg (Nat.not_lt.mpr htime)]
  obtain ⟨stream, hok⟩ := Outcome.isOk_iff.mp h
  simp only [hok]

/-- Where a fresh connection would succeed, an attempt with a warm connection succeeds too, and
does not count a failure, exactly if the handshake is through in ten seconds and what it reads
on the warm connection accepts the target. -/
theorem warm_attempt_iff (a : WarmAttempt) (proxy : Proxy) (target : String) (port : UInt16)
    (client : SocketAddr) (latency : F64) {stream : ℕ}
    (hfresh : (connectToTarget proxy a.peer target port).isOk) (hwarm : a.taken = some stream) :
    (a.connectResult proxy target port).isOk ∧
        .recordFail proxy.key ∉ a.ops proxy target port client latency ↔
      (a.sockets stream).took ≤ fromSecs 10 ∧
        Accepts (a.sockets stream).far (a.sockets stream).conn target port proxy.protocol := by
  have hfits : proxy.protocol = .socks5 → (Utf8.encode target).length ≤ 255 := by
    rw [connectToTarget_eq hfresh] at hfresh
    exact (handshake_isOk_iff.mp hfresh).1
  have hresult : a.connectResult proxy target port =
      handshakeOnStream proxy (a.sockets stream) target port := by
    rw [WarmAttempt.connectResult, hwarm]
  have hops : (a.connectResult proxy target port).isOk →
      .recordFail proxy.key ∉ a.ops proxy target port client latency := by
    intro h
    obtain ⟨conn, hok⟩ := Outcome.isOk_iff.mp h
    simp [WarmAttempt.ops, hok]
  rw [and_iff_left_of_imp hops, hresult, handshakeOnStream_isOk_iff, handshake_isOk_iff,
    and_iff_right hfits]

private def timeoutReply : Bytes := Utf8.encode "HTTP/1.1 408 Request Timeout\r\n\r\n"

/-- A proxy that accepts every target. -/
private def willing : Peer := answering [⟨okHeader, by decide⟩]

private def listed : Proxy := Proxy.new "10.0.0.1" 8080 .http

/-- One warm connection, on which these segments are pending and which may have been closed. -/
private def oneWarm (pending : List Segment) (closed : Bool) : WarmAttempt where
  maxAge := fromSecs 45
  now := fromSecs 30
  queue := [⟨7, listed.key, fromSecs 10⟩]
  peeked _ := ⟨[], pending, closed⟩
  sockets _ := ⟨⟨[], pending, closed⟩, willing, 0⟩
  peer := willing

theorem warm_attempt_quiet :
    ((oneWarm [] false).connectResult listed "example.com" 443).isOk ∧
      .recordFail listed.key ∉
        (oneWarm [] false).ops listed "example.com" 443 ⟨.v4 167772162, 40000⟩ (.finite 50) :=
  (warm_attempt_iff (oneWarm [] false) listed "example.com" 443 ⟨.v4 167772162, 40000⟩ (.finite 50)
    rfl rfl).mpr ⟨Nat.zero_le _, okHeader, [], rfl, by decide, by decide, by decide⟩

/-- A proxy has sent its timeout reply and closed: the peek takes the connection for alive, and
the handshake takes the reply for its own. -/
theorem warm_attempt_fails :
    let a := oneWarm [⟨timeoutReply, by decide⟩] true
    (connectToTarget listed a.peer "example.com" 443).isOk ∧ a.taken = some 7 ∧
      ¬ (a.connectResult listed "example.com" 443).isOk ∧
      .recordFail listed.key ∈
        a.ops listed "example.com" 443 ⟨.v4 167772162, 40000⟩ (.finite 50) := by
  refine ⟨rfl, rfl, Bool.false_ne_true, ?_⟩
  exact List.mem_singleton.mpr rfl

end VpnGateway
