import VpnGateway.Core.Socks5
import VpnGateway.Proxy.Upstream

/-! The SOCKS5 handshake as a conversation: what it has sent at its end and where it leaves the
stream. -/
namespace VpnGateway

open Wire Socks5

/-- Read and discard BND.ADDR and BND.PORT. -/
def skipBound (atyp : UInt8) : Session Unit :=
  if atyp = 0x01 then do
    let _ ← Session.receive 6
    pure ()
  else if atyp = 0x03 then do
    let len ← Session.receive 1
    let _ ← Session.receive (len[0]!.toNat + 2)
    pure ()
  else if atyp = 0x04 then do
    let _ ← Session.receive 18
    pure ()
  else Session.fail s!"SOCKS5: unknown ATYP in response: {atyp}"

/-- `socks5_handshake`, with the connection it leaves behind when it fails. -/
def socks5Session (host : String) (port : UInt16) : Session Unit := do
  Session.send [0x05, 0x01, 0x00]
  let resp ← Session.receive 2
  if resp[0]! ≠ 0x05 then Session.fail s!"SOCKS5: server returned wrong version: {resp[0]!}"
  else if resp[1]! = 0xFF then Session.fail "SOCKS5: no acceptable auth methods"
  else if 255 < (Utf8.encode host).length then
    Session.fail s!"SOCKS5: domain too long: {host}"
  else
    Session.send (socks5Request host port)
    let header ← Session.receive 4
    if header[0]! ≠ 0x05 then Session.fail s!"SOCKS5: wrong version in response: {header[0]!}"
    else if header[1]! ≠ 0x00 then
      Session.fail s!"SOCKS5 CONNECT failed: {socks5ErrorText header[1]!} (code {header[1]!})"
    else skipBound header[3]!

theorem result_send_bind (bytes : Bytes) (f : Unit → Session Unit) (peer : Peer) (conn : Conn) :
    Session.result (Session.send bytes >>= f) peer conn =
      Session.result (f ()) peer (peer.write conn bytes) := by
  rw [Session.result_bind]
  rfl

theorem result_receive_bind (n : ℕ) (f : Bytes → Session Unit) (peer : Peer) (conn : Conn) :
    Session.result (Session.receive n >>= f) peer conn =
      (readExact n conn >>= fun read => Session.result (f read.1) peer read.2) := by
  rw [Session.result_bind]
  unfold Session.receive readExact
  rcases conn.readExact n with ⟨_ | _, bytes, conn⟩ | message | _ <;> rfl

/-- The conversation computes the handshake. -/
theorem result_socks5Session (peer : Peer) (conn : Conn) (host : String) (port : UInt16) :
    (socks5Session host port).result peer conn = socks5Handshake peer conn host port := by
  unfold socks5Session socks5Handshake
  rw [result_send_bind, result_receive_bind]
  congr 1
  funext ⟨resp, conn⟩
  dsimp only
  split_ifs <;> try rfl
  rw [result_send_bind, result_receive_bind]
  congr 1
  funext ⟨header, conn⟩
  dsimp only [skipBound]
  split_ifs
  · rfl
  · rfl
  · rw [result_receive_bind]
    rfl
  · rw [result_receive_bind]
    congr 1
    funext ⟨len, conn⟩
    rw [result_receive_bind]
    rfl
  · rw [result_receive_bind]
    rfl
  · rfl

/-- A bound address of any type is skipped to its last byte. -/
theorem skipBound_append (peer : Peer) {conn : Conn} (bound : Addr) (port : UInt16) {rest : Bytes}
    (h : conn.unread = bound.body ++ be16 port.toNat ++ rest) :
    ∃ conn', skipBound bound.type peer conn = (.ok (), conn') ∧ conn'.unread = rest ∧
      conn'.sent = conn.sent := by
  cases bound with
  | ipv4 octets =>
    have hlen : (octets.val ++ be16 port.toNat).length = 6 := by simp [octets.property]
    obtain ⟨conn', hread, hrest, hsent, -⟩ := Session.receive_append peer h
    refine ⟨conn', ?_, hrest, hsent⟩
    show (Session.receive 6 >>= fun _ => pure ()) peer conn = _
    rw [Session.bind_of_ok (hlen ▸ hread)]
    rfl
  | domain name =>
    have hcons : conn.unread =
        [UInt8.ofNat name.val.length] ++ (name.val ++ be16 port.toNat ++ rest) := by
      rw [h]
      simp [Addr.body]
    obtain ⟨mid, hlen, hmid, hsent, -⟩ := Session.receive_append peer hcons
    obtain ⟨conn', hread, hrest, hsent', -⟩ := Session.receive_append peer hmid
    have hnat : (UInt8.ofNat name.val.length).toNat = name.val.length := by
      have := name.property
      rw [UInt8.toNat_ofNat', Nat.mod_eq_of_lt (by omega)]
    refine ⟨conn', ?_, hrest, hsent'.trans hsent⟩
    have hbody : Session.receive (name.val.length + 2) peer mid =
        (.ok (name.val ++ be16 port.toNat), conn') := by simpa using hread
    apply (Session.bind_of_ok (x := Session.receive 1) hlen).trans
    show (Session.receive ((UInt8.ofNat name.val.length).toNat + 2) >>= fun _ => pure ()) peer mid =
      _
    rw [hnat, Session.bind_of_ok hbody]
    rfl
  | ipv6 octets =>
    have hlen : (octets.val ++ be16 port.toNat).length = 18 := by simp [octets.property]
    obtain ⟨conn', hread, hrest, hsent, -⟩ := Session.receive_append peer h
    refine ⟨conn', ?_, hrest, hsent⟩
    show (Session.receive 18 >>= fun _ => pure ()) peer conn = _
    rw [Session.bind_of_ok (hlen ▸ hread)]
    rfl

/-- The request that is sent is the one the format defines. -/
theorem socks5Request_eq (host : String) (port : UInt16) (h : (Utf8.encode host).length ≤ 255) :
    socks5Request host port = encodeRequest (.domain ⟨Utf8.encode host, h⟩) port := by
  have hport : portBytes port = be16 port.toNat := by
    simp [portBytes, be16, UInt8.ext_iff, Nat.shiftRight_eq_div_pow]
  simp [socks5Request, encodeRequest, Addr.encode, Addr.type, Addr.body, hport]

/-- The greeting is answered, and nothing is left in the stream behind the answer. -/
theorem receive_method (server : Server) :
    ∃ conn, Session.receive 2 server.peer (server.peer.write server.peer.connect greeting) =
      (.ok noAuth, conn) ∧ conn.unread = [] ∧ conn.sent = greeting ∧ conn.closed = false := by
  have hunread : (server.peer.write server.peer.connect greeting).unread = noAuth ++ [] := by
    rw [Peer.unread_write rfl, List.append_nil, ← server.flatten_method]
    rfl
  obtain ⟨conn, hread, hrest, hsent, hclosed⟩ :=
    Session.receive_append server.peer hunread
  exact ⟨conn, hread, hrest, hsent, hclosed⟩

/-- A host that does not fit the length byte ends the conversation after the greeting. -/
theorem socks5Session_long (server : Server) (host : String) (port : UInt16)
    (h : 255 < (Utf8.encode host).length) :
    ∃ conn, socks5Session host port server.peer server.peer.connect =
      (.err s!"SOCKS5: domain too long: {host}", conn) ∧ conn.sent = greeting := by
  obtain ⟨conn, hread, -, hsent, -⟩ := receive_method server
  refine ⟨conn, ?_, hsent⟩
  show (Session.receive 2 >>= _) server.peer (server.peer.write server.peer.connect greeting) = _
  rw [Session.bind_of_ok hread]
  simp [noAuth, h, Session.fail]

/-- A host that fits is asked for, and the reply is read to its end. -/
theorem socks5Session_short (server : Server) (host : String) (port : UInt16)
    (h : (Utf8.encode host).length ≤ 255) :
    ∃ conn, socks5Session host port server.peer server.peer.connect = (.ok (), conn) ∧
      conn.unread = server.payload ∧
      conn.sent = greeting ++ encodeRequest (.domain ⟨Utf8.encode host, h⟩) port := by
  let request := encodeRequest (.domain ⟨Utf8.encode host, h⟩) port
  obtain ⟨conn, hread, hnil, hsent, hopen⟩ := receive_method server
  have hreply : (server.peer.write conn request).unread =
      [5, 0, server.reserved, server.bound.type] ++
        (server.bound.body ++ be16 server.boundPort.toNat ++ server.payload) := by
    rw [Peer.unread_write hopen, hnil, hsent, server.respond_request, server.flatten_reply]
    simp [encodeReply, Addr.encode]
  obtain ⟨mid, hhead, hmid, hsent', -⟩ := Session.receive_append server.peer hreply
  obtain ⟨conn', hskip, hrest, hsent''⟩ :=
    skipBound_append server.peer server.bound server.boundPort hmid
  refine ⟨conn', ?_, hrest, ?_⟩
  · apply (Session.bind_of_ok (x := Session.receive 2) hread).trans
    rw [noAuth, if_neg (by simp), if_neg (by simp), if_neg (by omega)]
    rw [socks5Request_eq host port h]
    apply (Session.bind_of_ok (x := Session.receive 4) hhead).trans
    rw [if_neg (by simp), if_neg (by simp)]
    exact hskip
  · rw [hsent'', hsent', Peer.sent_write, hsent]

/-- Against a server that follows the protocol, however its bytes are cut: a host of at most 255
bytes is asked for in one request that the server's decoder reads back, and the stream is left at
the first byte behind the reply; of a longer host nothing is sent. -/
theorem socks5Handshake_conforming (server : Server) (host : String) (port : UInt16) :
    if h : (Utf8.encode host).length ≤ 255 then
      ∃ conn request, socks5Handshake server.peer server.peer.connect host port = .ok conn ∧
        conn.unread = server.payload ∧ conn.sent = greeting ++ request ∧
        decodeRequest request = some (.domain ⟨Utf8.encode host, h⟩, port, [])
    else
      ∃ conn message, socks5Handshake server.peer server.peer.connect host port = .err message ∧
        socks5Session host port server.peer server.peer.connect = (.err message, conn) ∧
        conn.sent = greeting := by
  split_ifs with h
  · obtain ⟨conn, hrun, hunread, hsent⟩ := socks5Session_short server host port h
    have hread := decodeRequest_encodeRequest (.domain ⟨Utf8.encode host, h⟩) port []
    rw [List.append_nil] at hread
    refine ⟨conn, _, ?_, hunread, hsent, hread⟩
    rw [← result_socks5Session, Session.result, hrun]
  · obtain ⟨conn, hrun, hsent⟩ := socks5Session_long server host port (Nat.lt_of_not_le h)
    refine ⟨conn, _, ?_, hrun, hsent⟩
    rw [← result_socks5Session, Session.result, hrun]

end VpnGateway
