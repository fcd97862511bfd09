import VpnGateway.Pool.CheckFuture
import VpnGateway.Proxy.WarmConnections

/-! The two SOCKS5 clients, of the data path and of the health check, on every finite transcript
of a server: what each of them accepts, what it has sent by then, and where it leaves the stream. -/
namespace Wire

/-- A server that sends these segments, whatever it is sent, and then ends the stream or falls
silent. -/
def reciting (segments : List Segment) (ends : Bool) : Peer where
  refusal := none
  respond sent := (if sent = [] then segments else [], ends)

/-- What is written to such a server does not change what can be read. -/
theorem write_reciting (segments : List Segment) {ends : Bool} {conn : Conn}
    (hends : conn.closed = ends) {bytes : Bytes} (hne : bytes ≠ []) :
    ((reciting segments ends).write conn bytes).unread = conn.unread ∧
      ((reciting segments ends).write conn bytes).closed = ends := by
  have hsent : conn.sent ++ bytes ≠ [] := by simp [hne]
  cases ends with
  | true => simp [Peer.write, hends, Conn.unread]
  | false => simp [Peer.write, hends, Conn.unread, reciting, hsent]

end Wire

namespace VpnGateway

open Wire Socks5

/-- A method that is not a refusal, and the fixed part of a reply without an error. -/
def HeaderOk (transcript : Bytes) : Prop :=
  ∃ method reserved atyp rest, method ≠ 0xFF ∧ (atyp = 1 ∨ atyp = 3 ∨ atyp = 4) ∧
    transcript = [5, method, 5, 0, reserved, atyp] ++ rest

/-- The method, and after it a whole reply without an error, in front of the rest. -/
def RepliesWith (method : UInt8) (transcript rest : Bytes) : Prop :=
  ∃ reserved bound boundPort,
    transcript = [5, method] ++ encodeReply reserved bound boundPort ++ rest

variable {peer : Peer} {conn : Conn} {host : String} {port : UInt16} {method : UInt8}
  {segments : List Segment} {ends : Bool}

theorem RepliesWith.headerOk {transcript rest : Bytes} (h : RepliesWith method transcript rest)
    (hmethod : method ≠ 0xFF) : HeaderOk transcript := by
  obtain ⟨reserved, bound, boundPort, rfl⟩ := h
  refine ⟨method, reserved, bound.type, bound.body ++ be16 boundPort.toNat ++ rest, hmethod, ?_, ?_⟩
  · cases bound <;> simp [Addr.type]
  · simp [encodeReply, Addr.encode]

theorem greet_reciting (segments : List Segment) (ends : Bool) :
    let peer := reciting segments ends
    (peer.write peer.connect greeting).unread = flatten segments ∧
      (peer.write peer.connect greeting).closed = ends :=
  write_reciting segments rfl (List.cons_ne_nil _ _)

theorem request_reciting (segments : List Segment) (ends : Bool) (host : String) (port : UInt16) :
    let peer := reciting segments ends
    (peer.write (peer.write peer.connect greeting) (socks5Request host port)).unread =
      flatten segments := by
  intro peer
  obtain ⟨hgreeted, hclosed⟩ := greet_reciting segments ends
  have hne : socks5Request host port ≠ [] := by simp [socks5Request]
  exact (write_reciting segments hclosed hne).1.trans hgreeted

theorem keepsSent_skipBound (atyp : UInt8) : Session.KeepsSent (skipBound atyp) := by
  unfold skipBound
  split_ifs
  · exact (Session.keepsSent_receive _).bind fun _ => Session.keepsSent_pure _
  · exact (Session.keepsSent_receive _).bind fun _ =>
      (Session.keepsSent_receive _).bind fun _ => Session.keepsSent_pure _
  · exact (Session.keepsSent_receive _).bind fun _ => Session.keepsSent_pure _
  · exact Session.keepsSent_fail _

/-- The end of `socks5_handshake`, when the request is out. -/
def replySession : Session Unit := do
  let header ← Session.receive 4
  if header[0]! ≠ 0x05 then Session.fail s!"SOCKS5: wrong version in response: {header[0]!}"
  else if header[1]! ≠ 0x00 then
    Session.fail s!"SOCKS5 CONNECT failed: {socks5ErrorText header[1]!} (code {header[1]!})"
  else skipBound header[3]!

theorem keepsSent_replySession : Session.KeepsSent replySession := by
  refine (Session.keepsSent_receive 4).bind fun header => ?_
  split_ifs
  · exact Session.keepsSent_fail _
  · exact Session.keepsSent_fail _
  · exact keepsSent_skipBound _

/-- What the handshake does when it has read version 5 and a method. -/
theorem socks5Session_method (host : String) (port : UInt16) (ends : Bool) {rest : Bytes}
    (h : flatten segments = [5, method] ++ rest) :
    ∃ conn, conn.sent = greeting ∧ conn.unread = rest ∧ conn.closed = ends ∧
      socks5Session host port (reciting segments ends) (reciting segments ends).connect =
        if method = 0xFF then (.err "SOCKS5: no acceptable auth methods", conn)
        else if 255 < (Utf8.encode host).length then
          (.err s!"SOCKS5: domain too long: {host}", conn)
        else replySession (reciting segments ends)
          ((reciting segments ends).write conn (socks5Request host port)) := by
  let peer := reciting segments ends
  obtain ⟨hgreeted, hends⟩ := greet_reciting segments ends
  obtain ⟨conn, hread, hrest, hsent, hclosed⟩ := Session.receive_append peer (hgreeted.trans h)
  refine ⟨conn, hsent.trans (by simp [reciting, Peer.connect]), hrest, hclosed.trans hends, ?_⟩
  apply (Session.bind_of_ok (x := Session.receive 2) hread).trans
  simp only [List.getElem!_cons_zero, List.getElem!_cons_succ, ne_eq, not_true_eq_false,
    ↓reduceIte]
  split_ifs <;> rfl

/-- On a transcript the handshake succeeds exactly after a method that is no refusal and a whole
reply, if the host fits the request. -/
theorem socks5Handshake_reciting_isOk_iff :
    (socks5Handshake (reciting segments ends) (reciting segments ends).connect host port).isOk ↔
      (Utf8.encode host).length ≤ 255 ∧
        ∃ method rest, method ≠ 0xFF ∧ RepliesWith method (flatten segments) rest := by
  rw [socks5Handshake_isOk_iff, Accepts, (greet_reciting segments ends).1,
    request_reciting segments ends host port]
  refine and_congr_right fun _ => ?_
  constructor
  · rintro ⟨method, reserved, bound, boundPort, rest, hmethod, -, heq⟩
    exact ⟨method, rest, hmethod, reserved, bound, boundPort, heq⟩
  · rintro ⟨method, rest, hmethod, reserved, bound, boundPort, heq⟩
    refine ⟨method, reserved, bound, boundPort, rest, hmethod, ?_, heq⟩
    exact ⟨encodeReply reserved bound boundPort ++ rest, by rw [heq, List.append_assoc]⟩

/-- Whatever the server sends, the handshake ends well only after the one method it has offered and
a whole reply, and a method that it has not offered ends it before its request is out. -/
structure OnlyOffered (host : String) (port : UInt16) (segments : List Segment) (ends : Bool) :
    Prop where
  granted : (socks5Handshake (reciting segments ends) (reciting segments ends).connect host
    port).isOk → ∃ rest, RepliesWith 0 (flatten segments) rest
  unoffered : ∀ method rest, flatten segments = [5, method] ++ rest → method ≠ 0 →
    ∃ message conn,
      socks5Session host port (reciting segments ends) (reciting segments ends).connect =
        (.err message, conn) ∧ conn.sent = greeting

/-- That is so unless the server selects another method than "no authentication" or a refusal, for
a host that fits the request. -/
theorem onlyOffered_iff (host : String) (port : UInt16) (segments : List Segment) (ends : Bool) :
    OnlyOffered host port segments ends ↔
      ∀ method rest, flatten segments = [5, method] ++ rest → method ≠ 0 → method ≠ 0xFF →
        255 < (Utf8.encode host).length := by
  constructor
  · intro h method rest hmethod hzero hrefusal
    obtain ⟨conn, hsent, -, -, hrun⟩ :=
      socks5Session_method host port ends hmethod
    by_contra hfits
    rw [if_neg hrefusal, if_neg hfits] at hrun
    obtain ⟨message, last, herr, hlast⟩ := h.unoffered method rest hmethod hzero
    -- the request is out, and the rest of the handshake takes nothing back
    have hkept := keepsSent_replySession (reciting segments ends)
      ((reciting segments ends).write conn (socks5Request host port))
    rw [← hrun, herr, Peer.sent_write, hsent, hlast] at hkept
    simp [socks5Request] at hkept
  · intro h
    constructor
    · intro hok
      obtain ⟨hfits, method, rest, hrefusal, hreply⟩ := socks5Handshake_reciting_isOk_iff.mp hok
      obtain ⟨reserved, bound, boundPort, heq⟩ := hreply
      by_cases hzero : method = 0
      · subst hzero
        exact ⟨rest, reserved, bound, boundPort, heq⟩
      · rw [List.append_assoc] at heq
        exact absurd (h method _ heq hzero hrefusal) (Nat.not_lt.mpr hfits)
    · intro method rest hmethod hzero
      obtain ⟨conn, hsent, -, -, hrun⟩ :=
        socks5Session_method host port ends hmethod
      rw [hrun]
      by_cases hrefusal : method = 0xFF
      · rw [if_pos hrefusal]
        exact ⟨_, conn, rfl, hsent⟩
      · rw [if_neg hrefusal, if_pos (h method rest hmethod hzero hrefusal)]
        exact ⟨_, conn, rfl, hsent⟩

/-- A server that asks for a user name and a password, and then grants every request. -/
def passwordServer : List Segment :=
  [⟨[5, 2], by decide⟩, ⟨[5, 0, 0, 1, 10, 0, 0, 1, 0, 80], by decide⟩]

theorem not_onlyOffered_password :
    (socks5Handshake (reciting passwordServer true) (reciting passwordServer true).connect
      "example.com" 443).isOk ∧
    ¬ OnlyOffered "example.com" 443 passwordServer true := by
  have hok : (socks5Handshake (reciting passwordServer true)
      (reciting passwordServer true).connect "example.com" 443).isOk := rfl
  refine ⟨hok, fun h => ?_⟩
  obtain ⟨rest, reserved, bound, boundPort, heq⟩ := h.granted hok
  have hmethod := congrArg (fun bytes => bytes[1]!) heq
  simp [passwordServer] at hmethod

/-! The health check on a transcript that ends. -/

/-- Behind the end of the stream a buffer keeps its zeros. -/
theorem readPadded_closed (hclosed : conn.closed = true) (n : ℕ) : ∃ buffer conn',
    readPadded n conn = some (buffer, conn') ∧
    (∀ i < n, buffer[i]! = conn.unread.getD i 0) ∧
    conn'.unread = conn.unread.drop n ∧ conn'.closed = true := by
  obtain ⟨htake, hdrop⟩ := Conn.takeBytes_spec n conn.incoming
  have hunread : flatten conn.incoming = conn.unread := rfl
  rw [hunread] at htake hdrop
  have hbuffer : ∀ i < n, (conn.unread.take n ++
      List.replicate (n - (conn.unread.take n).length) 0)[i]! = conn.unread.getD i 0 := by
    intro i hi
    rw [List.getElem!_eq_getElem?_getD, List.getD_eq_getElem?_getD]
    by_cases hlt : i < conn.unread.length
    · rw [List.getElem?_append_left (by simp; omega), List.getElem?_take_of_lt hi,
        List.getElem?_eq_getElem hlt]
      rfl
    · rw [List.getElem?_append_right (by simp; omega), List.getElem?_replicate,
        List.getElem?_eq_none (by omega)]
      split_ifs <;> rfl
  unfold readPadded Conn.readExact
  simp only [htake, hclosed, ↓reduceIte]
  split_ifs with hn
  · exact ⟨_, ⟨conn.sent, (Conn.takeBytes n conn.incoming).2, true⟩, rfl, hbuffer, hdrop, rfl⟩
  · refine ⟨_, ⟨conn.sent, [], true⟩, rfl, hbuffer, ?_, rfl⟩
    rw [List.length_take] at hn
    exact (List.drop_eq_nil_iff.mpr (by omega)).symm

theorem readPadded_append {bytes rest : Bytes} (h : conn.unread = bytes ++ rest) :
    ∃ conn', readPadded bytes.length conn = some (bytes, conn') ∧ conn'.unread = rest ∧
      conn'.closed = conn.closed := by
  obtain ⟨conn', hread, hrest, -, hclosed⟩ := Conn.readExact_append h
  exact ⟨conn', by simp [readPadded, hread], hrest, hclosed⟩

theorem skipBytes_append {n : ℕ} {bytes rest : Bytes} (h : conn.unread = bytes ++ rest)
    (hn : bytes.length = n) : ∃ conn', skipBytes n conn = (bytes, conn') ∧ conn'.unread = rest := by
  subst hn
  obtain ⟨conn', hread, hrest, -⟩ := readPadded_append h
  exact ⟨conn', by simp [skipBytes, hread], hrest⟩

/-- The fixed part of the reply is all that decides. -/
theorem tlsCheckReply_isSome_iff {header : Bytes} {conn' : Conn}
    (h : readPadded 4 conn = some (header, conn')) : (tlsCheckReply conn).isSome ↔
      header[0]! = 5 ∧ header[1]! = 0 ∧ (header[3]! = 1 ∨ header[3]! = 3 ∨ header[3]! = 4) := by
  unfold tlsCheckReply
  simp only [h, Option.bind_eq_bind, Option.bind_some]
  split_ifs with hbad hv4 hname hv6
  · simp only [Option.isSome_none, Bool.false_eq_true, false_iff]
    tauto
  · simpa [hv4] using hbad
  · simpa [hname] using hbad
  · simpa [hv6] using hbad
  · simp only [Option.isSome_none, Bool.false_eq_true, false_iff]
    tauto

/-- A stream that breaks off inside the fixed part does not pass for one, since no address type
is zero. -/
theorem headerOk_iff (transcript : Bytes) : HeaderOk transcript ↔
    (transcript.getD 0 0 = 5 ∧ transcript.getD 1 0 ≠ 0xFF) ∧
      transcript.getD 2 0 = 5 ∧ transcript.getD 3 0 = 0 ∧
      (transcript.getD 5 0 = 1 ∨ transcript.getD 5 0 = 3 ∨ transcript.getD 5 0 = 4) := by
  constructor
  · rintro ⟨method, reserved, atyp, rest, hmethod, hatyp, rfl⟩
    exact ⟨⟨rfl, hmethod⟩, rfl, rfl, hatyp⟩
  · match transcript with
    | version :: method :: version' :: code :: reserved :: atyp :: rest =>
      rintro ⟨⟨rfl, hmethod⟩, rfl, rfl, hatyp⟩
      exact ⟨method, reserved, atyp, rest, hmethod, hatyp, rfl⟩
    | [] | [_] | [_, _] | [_, _, _] | [_, _, _, _] | [_, _, _, _, _] => simp

/-- The health check takes the tunnel for open when the fixed part of the reply is there. -/
theorem tlsCheckSocks5_isSome_iff :
    (tlsCheckSocks5 (reciting segments true) (reciting segments true).connect).isSome ↔
      HeaderOk (flatten segments) := by
  obtain ⟨hgreeted, hclosed⟩ := greet_reciting segments true
  obtain ⟨resp, conn, hresp, hbytes, hrest, hclosed⟩ := readPadded_closed hclosed 2
  have hne : socks5Request tlsCheckHost tlsCheckPort ≠ [] := by simp [socks5Request]
  obtain ⟨hwritten, hclosed⟩ := write_reciting segments hclosed hne
  obtain ⟨header, conn', hheader, hbytes', -, -⟩ := readPadded_closed hclosed 4
  rw [hgreeted] at hbytes hrest
  rw [hwritten, hrest] at hbytes'
  have hreply := tlsCheckReply_isSome_iff hheader
  rw [hbytes' 0 (by norm_num), hbytes' 1 (by norm_num), hbytes' 3 (by norm_num)] at hreply
  simp only [List.getD_eq_getElem?_getD, List.getElem?_drop] at hreply
  unfold greeting at hresp
  rw [headerOk_iff, tlsCheckSocks5_eq, hresp]
  simp only [Option.bind_eq_bind, Option.bind_some]
  rw [hbytes 0 (by norm_num), hbytes 1 (by norm_num)]
  split_ifs with hbad
  · simp only [Option.isSome_none, Bool.false_eq_true, false_iff]
    tauto
  · rw [not_or, not_not] at hbad
    rw [hreply, and_iff_right hbad]
    simp only [List.getD_eq_getElem?_getD]

/-- A bound address that is there is skipped to its last byte. -/
theorem tlsCheckReply_append (reserved : UInt8) (bound : Addr) (boundPort : UInt16) (rest : Bytes)
    (h : conn.unread = [5, 0, reserved, bound.type] ++
      (bound.body ++ be16 boundPort.toNat ++ rest)) :
    ∃ conn', tlsCheckReply conn = some conn' ∧ conn'.unread = rest := by
  obtain ⟨mid, hheader, hmid, -⟩ := readPadded_append h
  have hfixed : readPadded 4 conn = some ([5, 0, reserved, bound.type], mid) := hheader
  unfold tlsCheckReply
  simp only [hfixed, Option.bind_eq_bind, Option.bind_some]
  cases bound with
  | ipv4 octets =>
    obtain ⟨conn', hskip, hrest⟩ :=
      skipBytes_append (n := 6) hmid (by simp [Addr.body, octets.property])
    exact ⟨conn', by simp [Addr.type, hskip], hrest⟩
  | domain name =>
    have hcons : mid.unread = [UInt8.ofNat name.val.length] ++
        (name.val ++ be16 boundPort.toNat ++ rest) := by
      rw [hmid]
      simp [Addr.body]
    obtain ⟨next, hlen, hnext⟩ := skipBytes_append (n := 1) hcons rfl
    have hnat : (UInt8.ofNat name.val.length).toNat = name.val.length := by
      have := name.property
      rw [UInt8.toNat_ofNat', Nat.mod_eq_of_lt (by omega)]
    obtain ⟨conn', hskip, hrest⟩ := skipBytes_append (n := name.val.length + 2) hnext (by simp)
    refine ⟨conn', ?_, hrest⟩
    simp [Addr.type, hlen, hnat, hskip]
  | ipv6 octets =>
    obtain ⟨conn', hskip, hrest⟩ :=
      skipBytes_append (n := 18) hmid (by simp [Addr.body, octets.property])
    exact ⟨conn', by simp [Addr.type, hskip], hrest⟩

/-- The health check leaves the stream behind the reply. -/
theorem tlsCheckSocks5_reply {rest : Bytes} (hmethod : method ≠ 0xFF)
    (h : RepliesWith method (flatten segments) rest) : ∃ conn,
    tlsCheckSocks5 (reciting segments true) (reciting segments true).connect = some conn ∧
      conn.unread = rest := by
  obtain ⟨reserved, bound, boundPort, heq⟩ := h
  obtain ⟨hgreeted, hclosed⟩ := greet_reciting segments true
  rw [heq, List.append_assoc] at hgreeted
  obtain ⟨mid, hresp, hmid, hends⟩ := readPadded_append hgreeted
  have hne : socks5Request tlsCheckHost tlsCheckPort ≠ [] := by simp [socks5Request]
  have hwritten := (write_reciting segments (hends.trans hclosed) hne).1
  obtain ⟨conn, hreply, hrest⟩ := tlsCheckReply_append reserved bound boundPort rest
    (hwritten.trans (hmid.trans (by simp [encodeReply, Addr.encode])))
  refine ⟨conn, ?_, hrest⟩
  have hmethod' : readPadded 2 _ = some ([5, method], mid) := hresp
  unfold greeting at hmethod'
  rw [tlsCheckSocks5_eq, hmethod']
  simpa [hmethod] using hreply

/-- So does the data path. -/
theorem socks5Handshake_reply (port : UInt16) (ends : Bool) {rest : Bytes}
    (hfits : (Utf8.encode host).length ≤ 255) (hmethod : method ≠ 0xFF)
    (h : RepliesWith method (flatten segments) rest) : ∃ conn,
    socks5Handshake (reciting segments ends) (reciting segments ends).connect host port =
      .ok conn ∧ conn.unread = rest := by
  obtain ⟨reserved, bound, boundPort, heq⟩ := h
  rw [List.append_assoc] at heq
  obtain ⟨mid, -, hmid, hclosed, hrun⟩ := socks5Session_method host port ends heq
  rw [if_neg hmethod, if_neg (Nat.not_lt.mpr hfits)] at hrun
  have hne : socks5Request host port ≠ [] := by simp [socks5Request]
  have hwritten := (write_reciting segments hclosed hne).1
  have hreply : ((reciting segments ends).write mid (socks5Request host port)).unread =
      [5, 0, reserved, bound.type] ++ (bound.body ++ be16 boundPort.toNat ++ rest) := by
    rw [hwritten, hmid]
    simp [encodeReply, Addr.encode]
  obtain ⟨tail, hheader, htail, -⟩ := Session.receive_append (reciting segments ends) hreply
  obtain ⟨conn, hskip, hrest, -⟩ := skipBound_append (reciting segments ends) bound boundPort htail
  refine ⟨conn, ?_, hrest⟩
  have hsession : replySession (reciting segments ends)
      ((reciting segments ends).write mid (socks5Request host port)) = (.ok (), conn) := by
    apply (Session.bind_of_ok (x := Session.receive 4) hheader).trans
    rw [if_neg (by simp), if_neg (by simp)]
    exact hskip
  rw [← result_socks5Session, Session.result, hrun, hsession]

/-- On a transcript that ends, both clients come to the same verdict and leave the stream at the
same place. -/
structure SameVerdict (host : String) (port : UInt16) (segments : List Segment) : Prop where
  verdict : (tlsCheckSocks5 (reciting segments true) (reciting segments true).connect).isSome ↔
    (socks5Handshake (reciting segments true) (reciting segments true).connect host port).isOk
  offset : ∀ conn conn',
    tlsCheckSocks5 (reciting segments true) (reciting segments true).connect = some conn →
    socks5Handshake (reciting segments true) (reciting segments true).connect host port =
      .ok conn' → conn.unread = conn'.unread

/-- They do unless the stream ends inside the bound address or the port, which the health check
skips without looking, or the data path does not ask for so long a host. -/
theorem sameVerdict_iff (host : String) (port : UInt16) (segments : List Segment) :
    SameVerdict host port segments ↔ (HeaderOk (flatten segments) →
      (Utf8.encode host).length ≤ 255 ∧
        ∃ method rest, method ≠ 0xFF ∧ RepliesWith method (flatten segments) rest) := by
  constructor
  · intro h hheader
    exact socks5Handshake_reciting_isOk_iff.mp
      (h.verdict.mp (tlsCheckSocks5_isSome_iff.mpr hheader))
  · intro h
    constructor
    · rw [tlsCheckSocks5_isSome_iff, socks5Handshake_reciting_isOk_iff]
      constructor
      · exact h
      · rintro ⟨-, method, rest, hmethod, hreply⟩
        exact hreply.headerOk hmethod
    · intro conn conn' hcheck hdata
      obtain ⟨hfits, method, rest, hmethod, hreply⟩ :=
        socks5Handshake_reciting_isOk_iff.mp (Outcome.isOk_iff.mpr ⟨conn', hdata⟩)
      obtain ⟨last, hlast, hrest⟩ := tlsCheckSocks5_reply hmethod hreply
      obtain ⟨last', hlast', hrest'⟩ :=
        socks5Handshake_reply port true hfits hmethod hreply
      obtain rfl := Option.some.inj (hcheck.symm.trans hlast)
      obtain rfl := Outcome.ok.inj (hdata.symm.trans hlast')
      rw [hrest, hrest']

/-- The reply breaks off behind its address type: the health check goes on to the TLS handshake,
and the data path reports an error. -/
theorem not_sameVerdict_truncated :
    let segments : List Segment := [⟨[5, 0], by decide⟩, ⟨[5, 0, 0, 1], by decide⟩]
    (tlsCheckSocks5 (reciting segments true) (reciting segments true).connect).isSome ∧
    (∃ message, socks5Handshake (reciting segments true) (reciting segments true).connect
      tlsCheckHost tlsCheckPort = .err message) ∧
    ¬ SameVerdict tlsCheckHost tlsCheckPort segments := by
  intro segments
  have hcheck : (tlsCheckSocks5 (reciting segments true) (reciting segments true).connect).isSome :=
    rfl
  have hdata : socks5Handshake (reciting segments true) (reciting segments true).connect
      tlsCheckHost tlsCheckPort = .err "early eof" := rfl
  refine ⟨hcheck, ⟨_, hdata⟩, fun h => ?_⟩
  have hok := h.verdict.mp hcheck
  rw [hdata] at hok
  cases hok

end VpnGateway
