import VpnGateway.Pool.HealthChecker
import VpnGateway.Proxy.WarmConnections

/-! An upstream proxy that accepts a connection and falls silent: how far each handshake must get
before it can do without another read. -/
namespace VpnGateway

open Wire

/-- What happens on an accepted connection; after the last event the upstream is silent forever. -/
inductive UpstreamEvent where
  | bytes (segment : Segment)
  | eof
  | error

namespace UpstreamEvent

/-- What can be read before the stream ends, if it does. -/
def segments : List UpstreamEvent → List Segment
  | .bytes segment :: events => segment :: segments events
  | _ => []

/-- Whether the stream ends. An error ends it as the end of file does: no read from then on waits,
and every handshake fails at its next one. -/
def ends : List UpstreamEvent → Bool
  | .bytes _ :: events => ends events
  | [] => false
  | _ => true

def scripted (events : List UpstreamEvent) : Peer where
  refusal := none
  respond received := if received = [] then (segments events, ends events) else ([], false)

def received (events : List UpstreamEvent) : Bytes := flatten (segments events)

end UpstreamEvent

open UpstreamEvent

/-- Whether the address that follows a SOCKS5 reply is complete, or of no known type. -/
def boundComplete (atyp : UInt8) (bound : Bytes) : Bool :=
  if atyp = 0x01 then 6 ≤ bound.length
  else if atyp = 0x03 then
    match bound with
    | len :: rest => len.toNat + 2 ≤ rest.length
    | [] => false
  else if atyp = 0x04 then 18 ≤ bound.length
  else true

/-- Whether these bytes decide what a SOCKS5 reply says: a refusal, or a tunnel. -/
def replyDecided : Bytes → Bool
  | version :: code :: _ :: atyp :: bound =>
    version ≠ 0x05 || code ≠ 0x00 || boundComplete atyp bound
  | _ => false

/-- Whether these bytes decide the SOCKS5 handshake: an error at one of its stages, or all. -/
def socks5Decided (tooLong : Bool) : Bytes → Bool
  | version :: method :: reply =>
    version ≠ 0x05 || method = 0xFF || tooLong || replyDecided reply
  | _ => false

theorem replyDecided_of_short {bytes : Bytes} (h : bytes.length < 4) :
    replyDecided bytes = false := by
  match bytes with
  | _ :: _ :: _ :: _ :: _ =>
    simp only [List.length_cons] at h
    omega
  | [] | [_] | [_, _] | [_, _, _] => rfl

theorem socks5Decided_of_short {tooLong : Bool} {bytes : Bytes} (h : bytes.length < 2) :
    socks5Decided tooLong bytes = false := by
  match bytes with
  | _ :: _ :: _ =>
    simp only [List.length_cons] at h
    omega
  | [] | [_] => rfl

/-- Whether these bytes decide the handshake: for HTTP a header, or as many as its buffer holds. -/
def decided (protocol : Protocol) (target : String) (bytes : Bytes) : Bool :=
  match protocol with
  | .http | .https => 1024 ≤ bytes.length || (findHeaderEnd bytes).isSome
  | .socks5 => socks5Decided (255 < (Utf8.encode target).length) bytes

variable {conn : Conn} {host : String} {port : UInt16}

/-- The reads of a header wait for more where the stream has neither ended nor shown a header nor
filled the buffer. -/
theorem readHeader_eq_waits_iff {reads : ℕ} {conn : Conn} {buf : Bytes}
    (hreads : 1024 ≤ reads + buf.length) (hnone : findHeaderEnd buf = none) :
    readHeader reads conn buf = .waits ↔ conn.closed = false ∧
      (buf ++ conn.unread).length < 1024 ∧ findHeaderEnd (buf ++ conn.unread) = none := by
  have hlong : 1024 ≤ buf.length → ¬ (buf ++ conn.unread).length < 1024 := fun hfull => by
    rw [List.length_append]
    omega
  induction reads generalizing conn buf with
  | zero => exact iff_of_false (by simp [readHeader]) fun h => hlong (by omega) h.2.1
  | succ reads ih =>
    unfold readHeader
    split_ifs with hfull
    · exact iff_of_false (by simp) fun h => hlong hfull h.2.1
    obtain ⟨chunk, conn₁, hread, hchunk, hlen, hunread⟩ | ⟨hread, hunread⟩ :=
      conn.read_cases (n := 1024 - buf.length) (by omega)
    · rw [hread]
      simp only [if_neg hchunk]
      rw [hunread, ← List.append_assoc, ← Conn.closed_of_read hread]
      cases hend : findHeaderEnd (buf ++ chunk) with
      | some n =>
        rw [findHeaderEnd_append hend]
        exact iff_of_false (by simp) fun h => by simp at h
      | none =>
        have hpos := List.length_pos_iff.mpr hchunk
        refine ih (by rw [List.length_append]; omega) hend fun hfull => ?_
        rw [List.length_append]
        omega
    · rw [hread, hunread, List.append_nil]
      cases conn.closed with
      | true => exact iff_of_false (by simp) fun h => by simp at h
      | false => exact iff_of_true rfl ⟨rfl, Nat.lt_of_not_le hfull, hnone⟩

/-- A scripted upstream has nothing to add to what a client sends it. -/
theorem write_scripted (events : List UpstreamEvent) (conn : Conn) {bytes : Bytes}
    (h : bytes ≠ []) : ((scripted events).write conn bytes).unread = conn.unread ∧
      ((scripted events).write conn bytes).closed = conn.closed := by
  cases hclosed : conn.closed <;> simp [Peer.write, scripted, hclosed, h, Conn.unread]

theorem httpConnectHandshake_eq_waits_iff (events : List UpstreamEvent) :
    httpConnectHandshake (scripted events) conn host port = .waits ↔ conn.closed = false ∧
      conn.unread.length < 1024 ∧ findHeaderEnd conn.unread = none := by
  obtain ⟨hunread, hclosed⟩ := write_scripted events conn (connectRequest_ne_nil host port)
  have hheader : readHeader 1024 ((scripted events).write conn (connectRequest host port)) [] =
      .waits ↔ _ := readHeader_eq_waits_iff (by simp) rfl
  rw [List.nil_append, hunread, hclosed] at hheader
  rw [← hheader, httpConnectHandshake, Outcome.bind_eq_waits, or_iff_left]
  rintro ⟨⟨header, conn'⟩, -, h⟩
  simp only at h
  split_ifs at h

/-- The last read of a handshake. -/
theorem readExact_pure_eq_waits_iff (n : ℕ) (conn : Conn) :
    (readExact n conn >>= fun read => pure read.2) = .waits ↔
      conn.closed = false ∧ conn.unread.length < n := by
  obtain ⟨bytes, conn', hread, hlen, hunread, -⟩ | ⟨hshort, hread⟩ := readExact_cases n conn
  · refine iff_of_false (by simp [hread]) fun h => ?_
    rw [hunread, List.length_append] at h
    omega
  · cases hclosed : conn.closed <;> simp [hread, hclosed, hshort]

/-- The last reads of a handshake whose reply names a domain. -/
theorem readDomain_eq_waits_iff (conn : Conn) :
    (readExact 1 conn >>= fun len =>
      readExact (len.1[0]!.toNat + 2) len.2 >>= fun read => pure read.2) = .waits ↔
      conn.closed = false ∧ boundComplete 0x03 conn.unread = false := by
  obtain ⟨bytes, conn', hread, hlen, hunread, -, hclosed⟩ | ⟨hshort, hread⟩ :=
    readExact_cases 1 conn
  · obtain ⟨len, rfl⟩ := List.length_eq_one_iff.mp hlen
    rw [hread, Outcome.ok_bind, readExact_pure_eq_waits_iff, hunread, ← hclosed]
    simp [boundComplete]
  · have hnil : conn.unread = [] := List.length_eq_zero_iff.mp (by omega)
    cases hclosed : conn.closed <;> simp [hread, hclosed, hnil, boundComplete]

/-- A handshake waits where its bytes leave it undecided and the stream has not ended. -/
theorem socks5Handshake_eq_waits_iff (events : List UpstreamEvent) :
    socks5Handshake (scripted events) conn host port = .waits ↔ conn.closed = false ∧
      socks5Decided (255 < (Utf8.encode host).length) conn.unread = false := by
  have hgreeting : ([0x05, 0x01, 0x00] : Bytes) ≠ [] := by simp
  obtain ⟨hun, hcl⟩ := write_scripted events conn hgreeting
  unfold socks5Handshake
  dsimp only
  rw [← hun, ← hcl]
  generalize (scripted events).write conn [0x05, 0x01, 0x00] = conn₁
  obtain ⟨bytes, conn₂, hread, hlen, hunread, -, hclosed⟩ | ⟨hshort, hread⟩ :=
    readExact_cases 2 conn₁
  · obtain ⟨version, method, rfl⟩ := List.length_eq_two.mp hlen
    have hrequest : socks5Request host port ≠ [] := by simp [socks5Request]
    obtain ⟨hun, hcl⟩ := write_scripted events conn₂ hrequest
    rw [hread, hunread, ← hclosed, ← hun, ← hcl, Outcome.ok_bind]
    generalize (scripted events).write conn₂ (socks5Request host port) = conn₃
    simp only [List.getElem!_cons_zero, List.getElem!_cons_succ]
    split_ifs with hversion hmethod hlong
    · exact iff_of_false (by simp) (by simp [socks5Decided, hversion])
    · exact iff_of_false (by simp) (by simp [socks5Decided, hmethod])
    · exact iff_of_false (by simp) (by simp [socks5Decided, hlong])
    have hreply : socks5Decided (255 < (Utf8.encode host).length)
        ([version, method] ++ conn₃.unread) = replyDecided conn₃.unread := by
      simp [socks5Decided, not_not.mp hversion, hmethod, hlong]
    rw [hreply]
    obtain ⟨header, conn₄, hread, hlen, hunread, -, hclosed⟩ | ⟨hshort, hread⟩ :=
      readExact_cases 4 conn₃
    · obtain ⟨version', code, reserved, atyp, rfl⟩ := List.length_eq_four.mp hlen
      rw [hread, hunread, ← hclosed, Outcome.ok_bind]
      simp only [List.getElem!_cons_zero, List.getElem!_cons_succ]
      split_ifs with hversion' hcode hv4 hname hv6
      · exact iff_of_false (by simp) (by simp [replyDecided, hversion'])
      · exact iff_of_false (by simp) (by simp [replyDecided, hcode])
      all_goals
        have hbound : replyDecided ([version', code, reserved, atyp] ++ conn₄.unread) =
            boundComplete atyp conn₄.unread := by
          simp [replyDecided, not_not.mp hversion', not_not.mp hcode]
        rw [hbound]
      · refine (readExact_pure_eq_waits_iff 6 conn₄).trans ?_
        simp [boundComplete, hv4]
      · rw [hname]
        exact readDomain_eq_waits_iff conn₄
      · refine (readExact_pure_eq_waits_iff 18 conn₄).trans ?_
        simp [boundComplete, hv6]
      · exact iff_of_false (by simp) (by simp [boundComplete, hv4, hname, hv6])
    · cases hclosed : conn₃.closed <;> simp [hread, hclosed, replyDecided_of_short hshort]
  · cases hclosed : conn₁.closed <;> simp [hread, hclosed, socks5Decided_of_short hshort]

/-- The cold path has no timeout after the TCP connect, so it comes to a result exactly when the
stream ends or its bytes decide the handshake before the silence. -/
theorem connectToTarget_settles_iff (proxy : Proxy) (events : List UpstreamEvent)
    (target : String) (port : UInt16) :
    connectToTarget proxy (scripted events) target port ≠ .waits ↔
      ends events = true ∨ decided proxy.protocol target (received events) = true := by
  have hwaits : connectToTarget proxy (scripted events) target port = .waits ↔
      ends events = false ∧ decided proxy.protocol target (received events) = false := by
    have hclosed : (scripted events).connect.closed = ends events := rfl
    have hunread : (scripted events).connect.unread = received events := rfl
    have hhttp : httpConnectHandshake (scripted events) (scripted events).connect target port =
        .waits ↔ ends events = false ∧ decided .http target (received events) = false := by
      rw [httpConnectHandshake_eq_waits_iff, hclosed, hunread]
      simp [decided]
    unfold connectToTarget connectThroughProxy
    cases proxy.protocol with
    | http => exact hhttp
    | https => exact hhttp
    | socks5 => exact socks5Handshake_eq_waits_iff events
  rw [ne_eq, hwaits]
  simp [or_iff_not_imp_left]

/-- The warm path comes to a result whatever its upstream does. -/
theorem handshakeOnStream_settles (proxy : Proxy) (socket : WarmSocket) (target : String)
    (port : UInt16) : handshakeOnStream proxy socket target port ≠ .waits := by
  unfold handshakeOnStream
  split_ifs
  · exact nofun
  · split
    · exact nofun
    · assumption

/-- An HTTP proxy that never answers, and a SOCKS5 proxy that falls silent after its choice of
a method. -/
theorem connectToTarget_waits_on_silence :
    connectToTarget (.new "10.0.0.1" 8080 .http) (scripted []) "example.com" 443 = .waits ∧
      connectToTarget (.new "10.0.0.1" 1080 .socks5)
        (scripted [.bytes ⟨[0x05, 0x00], by decide⟩]) "example.com" 443 = .waits := by
  constructor <;> rfl

end VpnGateway
