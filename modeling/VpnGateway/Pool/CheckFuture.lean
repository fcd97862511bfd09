import VpnGateway.Core.Futures
import VpnGateway.Pool.HealthChecker

/-! The health check as a future, which goes from one awaited operation to the next, each under a
timeout of its own. Driven by what a peer answers, it comes to the verdict of `check_single`. -/
namespace VpnGateway

open Wire Futures

/-- What an awaited operation meets under its own timeout: what it reads, an error behind some
bytes, or nothing in time. A write that fails shows as a failure of the read that follows it. -/
inductive Met where
  | done (bytes : Bytes)
  | failed (bytes : Bytes)
  | elapsed

namespace Met

def ok : Met → Bool
  | done _ => true
  | _ => false

/-- `read_line` brings an accepting status. -/
def accepts : Met → Bool
  | done bytes => (Utf8.decode bytes).any startsWithOk
  | _ => false

/-- `read_line` brings a line after which the drain goes on. -/
def isHeader : Met → Bool
  | done bytes =>
    0 < bytes.length && (Utf8.decode bytes).any fun drain => !drain.all Text.isWhitespace
  | _ => false

/-- What a `read_exact` whose own result is not looked at leaves in its buffer. -/
def buffer (n : ℕ) : Met → Option Bytes
  | done bytes | failed bytes => some (bytes ++ List.replicate (n - bytes.length) 0)
  | elapsed => none

end Met

/-- The operation that `check_single` awaits. -/
inductive Awaited where
  | tcpConnect
  | httpConnect
  | httpStatus
  | tlsConnect
  | tunnelStatus
  | drain
  | socksMethod
  | socksReply
  | socksLen
  | socksSkip (n : ℕ)
  | tlsHandshake
  deriving DecidableEq

def checkPoll (protocol : Protocol) (latencyMs : ℕ) : Awaited → Met → Awaited ⊕ CheckResult
  | .tcpConnect, m => if m.ok then .inl .httpConnect else .inr .dead
  | .httpConnect, m => if m.ok then .inl .httpStatus else .inr .dead
  | .httpStatus, m => if m.accepts then .inl .tlsConnect else .inr .dead
  | .tlsConnect, m =>
    if m.ok then
      match protocol with
      | .http | .https => .inl .tunnelStatus
      | .socks5 => .inl .socksMethod
    else .inr (.okNoTls latencyMs)
  | .tunnelStatus, m => if m.accepts then .inl .drain else .inr (.okNoTls latencyMs)
  | .drain, m => if m.isHeader then .inl .drain else .inl .tlsHandshake
  | .socksMethod, m =>
    match m.buffer 2 with
    | some resp =>
      if resp[0]! ≠ 0x05 ∨ resp[1]! = 0xFF then .inr (.okNoTls latencyMs) else .inl .socksReply
    | none => .inr (.okNoTls latencyMs)
  | .socksReply, m =>
    match m.buffer 4 with
    | some header =>
      if header[0]! ≠ 0x05 ∨ header[1]! ≠ 0x00 then .inr (.okNoTls latencyMs)
      else if header[3]! = 0x01 then .inl (.socksSkip 6)
      else if header[3]! = 0x03 then .inl .socksLen
      else if header[3]! = 0x04 then .inl (.socksSkip 18)
      else .inr (.okNoTls latencyMs)
    | none => .inr (.okNoTls latencyMs)
  | .socksLen, m => .inl (.socksSkip (((m.buffer 1).getD [0])[0]!.toNat + 2))
  | .socksSkip _, _ => .inl .tlsHandshake
  | .tlsHandshake, m => .inr (if m.ok then .ok latencyMs else .okNoTls latencyMs)

/-- How the check of a proxy stands after `n` awaited operations. -/
def checkAfter (protocol : Protocol) (latencyMs : ℕ) (behaviour : ℕ → Met) (n : ℕ) :
    Awaited ⊕ CheckResult :=
  after (checkPoll protocol latencyMs) (.inl .tcpConnect) behaviour n

/-! What the operations meet at a peer whose stream is finite. -/

def connectMet (peer : Peer) : Met := if peer.refusal.isNone then .done [] else .failed []

def lineMet (r : BufReader) : Met :=
  match r.readLine with
  | .ok (line, _) => .done line
  | .err _ => .failed []
  | .waits => .elapsed

def exactMet (n : ℕ) (conn : Conn) : Met :=
  match conn.readExact n with
  | .ok (true, bytes, _) => .done bytes
  | .ok (false, bytes, _) => .failed bytes
  | _ => .elapsed

/-- What is left behind a read that came to no end in time is not looked at. -/
def afterLine (r : BufReader) : BufReader :=
  match r.readLine with
  | .ok (_, r) => r
  | _ => { r with conn := { r.conn with incoming := [] } }

/-- What an operation meets, and the connection behind it with the next request on it. -/
def answer (tls : TlsConnector) (protocol : Protocol) (peer : Peer) (r : BufReader) :
    Awaited → Met × BufReader
  | .tcpConnect => (connectMet peer, r)
  | .httpConnect =>
    (connectMet peer, .new (peer.write peer.connect (checkRequest connectCheckPort)))
  | .tlsConnect =>
    (connectMet peer, .new (peer.write peer.connect (match protocol with
      | .http | .https => checkRequest tlsCheckPort
      | .socks5 => [0x05, 0x01, 0x00])))
  | .httpStatus | .tunnelStatus | .drain => (lineMet r, afterLine r)
  | .socksMethod =>
    (exactMet 2 r.conn,
      .new (peer.write (skipBytes 2 r.conn).2 (socks5Request tlsCheckHost tlsCheckPort)))
  | .socksReply => (exactMet 4 r.conn, .new (skipBytes 4 r.conn).2)
  | .socksLen => (exactMet 1 r.conn, .new (skipBytes 1 r.conn).2)
  | .socksSkip n => (exactMet n r.conn, .new (skipBytes n r.conn).2)
  | .tlsHandshake => (if tls peer r.conn then .done [] else .failed [], r)

/-- The check comes to this verdict when it goes on from here with what the peer answers. -/
inductive Settles (tls : TlsConnector) (protocol : Protocol) (latencyMs : ℕ) (peer : Peer) :
    Awaited → BufReader → CheckResult → Prop
  | complete {s : Awaited} {r : BufReader} {verdict : CheckResult}
      (h : checkPoll protocol latencyMs s (answer tls protocol peer r s).1 = .inr verdict) :
      Settles tls protocol latencyMs peer s r verdict
  | goOn {s : Awaited} (next : Awaited) {r : BufReader} {verdict : CheckResult}
      (h : checkPoll protocol latencyMs s (answer tls protocol peer r s).1 = .inl next)
      (rest : Settles tls protocol latencyMs peer next (answer tls protocol peer r s).2 verdict) :
      Settles tls protocol latencyMs peer s r verdict

namespace Settles

variable {tls : TlsConnector} {protocol : Protocol} {latencyMs : ℕ} {peer : Peer} {s : Awaited}
  {r : BufReader} {verdict : CheckResult}

/-- Such a check is a run of the future. -/
theorem exists_after (h : Settles tls protocol latencyMs peer s r verdict) :
    ∃ behaviour n, after (checkPoll protocol latencyMs) (.inl s) behaviour n = .inr verdict := by
  induction h with
  | complete h => exact ⟨fun _ => _, 1, h⟩
  | @goOn s next r verdict h _ ih =>
    obtain ⟨behaviour, n, hn⟩ := ih
    let first := (answer tls protocol peer r s).1
    have hfirst : advance (checkPoll protocol latencyMs) (.inl s) first = .inl next := h
    exact ⟨cons first behaviour, 1 + n, by rw [after_cons, hfirst, hn]⟩

end Settles

section Answers

variable {tls : TlsConnector} {protocol : Protocol} {latencyMs : ℕ} {peer : Peer} {r : BufReader}

theorem buffer_exactMet (n : ℕ) (conn : Conn) :
    (exactMet n conn).buffer n = (readPadded n conn).map Prod.fst := by
  unfold exactMet readPadded
  rcases conn.readExact n with ⟨_ | _, bytes, conn'⟩ | _ | _ <;> rfl

theorem accepts_lineMet (r : BufReader) :
    (lineMet r).accepts = match readLine r with
      | .ok (response, _) => startsWithOk response
      | _ => false := by
  unfold lineMet readLine
  rcases r.readLine with ⟨line, r'⟩ | _ | _
  · cases htext : Utf8.decode line <;> simp [Met.accepts, htext]
  · rfl
  · rfl

/-- The verdict of stage 3 on what it has for a tunnel. -/
def tunnelVerdict (tls : TlsConnector) (peer : Peer) (latencyMs : ℕ) (tunnel : Option Conn) :
    CheckResult :=
  if tunnel.any (tls peer) then .ok latencyMs else .okNoTls latencyMs

/-- The TLS handshake is the last operation. -/
theorem settles_tlsHandshake (r : BufReader) :
    Settles tls protocol latencyMs peer .tlsHandshake r
      (tunnelVerdict tls peer latencyMs (some r.conn)) := by
  refine .complete ?_
  cases htls : tls peer r.conn <;> simp [checkPoll, answer, htls, Met.ok, tunnelVerdict]

theorem settles_of_drained {conn : Conn} (h : (lineMet r).isHeader = false)
    (hconn : (afterLine r).conn = conn) :
    Settles tls protocol latencyMs peer .drain r
      (tunnelVerdict tls peer latencyMs (some conn)) := by
  subst hconn
  exact .goOn _ (by simp [checkPoll, answer, h]) (settles_tlsHandshake _)

/-- The drain of a finite stream ends, since every header takes a byte off it. -/
theorem settles_drain {fuel : ℕ} (hfuel : r.pending.length < fuel) :
    Settles tls protocol latencyMs peer .drain r
      (tunnelVerdict tls peer latencyMs (some (drainHeaders fuel r))) := by
  induction fuel generalizing r with
  | zero => omega
  | succ fuel ih =>
    unfold drainHeaders
    cases hread : r.readLine with
    | err message =>
      exact settles_of_drained (by simp [lineMet, hread, Met.isHeader]) (by rw [afterLine, hread])
    | waits =>
      exact settles_of_drained (by simp [lineMet, hread, Met.isHeader]) (by rw [afterLine, hread])
    | ok read =>
      obtain ⟨line, r'⟩ := read
      have hnext : afterLine r = r' := by rw [afterLine, hread]
      cases htext : Utf8.decode line with
      | none =>
        exact settles_of_drained (by simp [lineMet, hread, Met.isHeader, htext])
          (by simp only [hnext, htext])
      | some drain =>
        simp only [htext]
        by_cases hblank : drain.all Text.isWhitespace
        · rw [if_pos hblank]
          exact settles_of_drained (by simp [lineMet, hread, Met.isHeader, htext, hblank])
            (by rw [hnext])
        · rw [if_neg hblank]
          have hpos : 0 < line.length := by
            rw [List.length_pos_iff]
            rintro rfl
            obtain rfl := Option.some.inj htext
            exact hblank rfl
          have hpend := congrArg List.length (BufReader.readLine_append hread)
          rw [List.length_append] at hpend
          have hheader : (lineMet r).isHeader := by
            simp [lineMet, hread, Met.isHeader, htext, hpos, hblank]
          refine .goOn .drain (by simp [checkPoll, answer, hheader]) ?_
          show Settles tls protocol latencyMs peer .drain (afterLine r) _
          rw [hnext]
          exact ih (by omega)

theorem afterLine_of_readLine {response : List Char} {r' : BufReader}
    (h : readLine r = .ok (response, r')) : afterLine r = r' := by
  obtain ⟨⟨line, r₁⟩, hread, h⟩ := Outcome.bind_eq_ok.mp h
  rw [afterLine, hread]
  cases htext : Utf8.decode line with
  | none => simp [htext] at h
  | some text =>
    simp only [htext] at h
    exact (Prod.mk.inj (Outcome.ok.inj h)).2

theorem settles_tunnelStatus {conn : Conn}
    (hconn : conn = peer.write peer.connect (checkRequest tlsCheckPort)) :
    Settles tls protocol latencyMs peer .tunnelStatus (.new conn)
      (tunnelVerdict tls peer latencyMs (tlsCheckHttpConnect peer peer.connect)) := by
  have haccepts := accepts_lineMet (.new conn)
  unfold tlsCheckHttpConnect
  rw [← hconn]
  cases hread : readLine (.new conn) with
  | ok read =>
    obtain ⟨response, r'⟩ := read
    rw [hread] at haccepts
    simp only at haccepts ⊢
    by_cases hok : startsWithOk response
    · refine .goOn .drain (by simp [checkPoll, answer, haccepts, hok]) ?_
      show Settles tls protocol latencyMs peer .drain (afterLine (.new conn)) _
      rw [afterLine_of_readLine hread, if_pos hok]
      exact settles_drain (Nat.lt_succ_self _)
    · rw [if_neg hok]
      exact .complete (by simp [checkPoll, answer, haccepts, hok, tunnelVerdict])
  | err message =>
    rw [hread] at haccepts
    exact .complete (by simp [checkPoll, answer, haccepts, tunnelVerdict])
  | waits =>
    rw [hread] at haccepts
    exact .complete (by simp [checkPoll, answer, haccepts, tunnelVerdict])

theorem settles_socksSkip (n : ℕ) (conn : Conn) :
    Settles tls protocol latencyMs peer (.socksSkip n) (.new conn)
      (tunnelVerdict tls peer latencyMs (some (skipBytes n conn).2)) :=
  .goOn _ rfl (settles_tlsHandshake _)

/-- The end of `tls_check_socks5`: the reply, and the address behind it. -/
def tlsCheckReply (conn : Conn) : Option Conn := do
  let (header, conn) ← readPadded 4 conn
  if header[0]! ≠ 0x05 ∨ header[1]! ≠ 0x00 then none
  else if header[3]! = 0x01 then some (skipBytes 6 conn).2
  else if header[3]! = 0x03 then
    let (len, conn) := skipBytes 1 conn
    some (skipBytes (len[0]!.toNat + 2) conn).2
  else if header[3]! = 0x04 then some (skipBytes 18 conn).2
  else none

theorem tlsCheckSocks5_eq (peer : Peer) (conn : Conn) :
    tlsCheckSocks5 peer conn = (do
      let (resp, conn) ← readPadded 2 (peer.write conn [0x05, 0x01, 0x00])
      if resp[0]! ≠ 0x05 ∨ resp[1]! = 0xFF then none
      else tlsCheckReply (peer.write conn (socks5Request tlsCheckHost tlsCheckPort))) := rfl

/-- The length of a domain is what a read leaves in its buffer. -/
theorem settles_socksLen (conn : Conn) :
    Settles tls protocol latencyMs peer .socksLen (.new conn)
      (tunnelVerdict tls peer latencyMs
        (some (skipBytes ((skipBytes 1 conn).1[0]!.toNat + 2) (skipBytes 1 conn).2).2)) := by
  have hlen : ((exactMet 1 conn).buffer 1).getD [0] = (skipBytes 1 conn).1 := by
    rw [buffer_exactMet, skipBytes]
    cases readPadded 1 conn <;> rfl
  refine .goOn (.socksSkip ((skipBytes 1 conn).1[0]!.toNat + 2)) ?_ (settles_socksSkip _ _)
  simp only [checkPoll, answer, BufReader.new, hlen]

theorem settles_socksReply (conn : Conn) :
    Settles tls protocol latencyMs peer .socksReply (.new conn)
      (tunnelVerdict tls peer latencyMs (tlsCheckReply conn)) := by
  have hbuffer := buffer_exactMet 4 conn
  unfold tlsCheckReply
  cases hread : readPadded 4 conn with
  | none =>
    rw [hread] at hbuffer
    exact .complete (by simp [checkPoll, answer, BufReader.new, hbuffer, tunnelVerdict])
  | some read =>
    obtain ⟨header, conn₁⟩ := read
    rw [hread] at hbuffer
    have hpoll : checkPoll protocol latencyMs .socksReply
        (answer tls protocol peer (.new conn) .socksReply).1 =
          if header[0]! ≠ 0x05 ∨ header[1]! ≠ 0x00 then .inr (.okNoTls latencyMs)
          else if header[3]! = 0x01 then .inl (.socksSkip 6)
          else if header[3]! = 0x03 then .inl .socksLen
          else if header[3]! = 0x04 then .inl (.socksSkip 18)
          else .inr (.okNoTls latencyMs) := by
      simp only [checkPoll, answer, BufReader.new, hbuffer, Option.map_some]
    have hnext : (answer tls protocol peer (.new conn) .socksReply).2 = .new conn₁ := by
      simp [answer, BufReader.new, skipBytes, hread]
    simp only [Option.bind_eq_bind, Option.bind_some]
    split_ifs at hpoll ⊢ with hbad hv4 hname hv6
    · exact .complete hpoll
    · refine .goOn _ hpoll ?_
      rw [hnext]
      exact settles_socksSkip 6 conn₁
    · refine .goOn _ hpoll ?_
      rw [hnext]
      exact settles_socksLen conn₁
    · refine .goOn _ hpoll ?_
      rw [hnext]
      exact settles_socksSkip 18 conn₁
    · exact .complete hpoll

theorem settles_socksMethod {conn : Conn}
    (hconn : conn = peer.write peer.connect [0x05, 0x01, 0x00]) :
    Settles tls protocol latencyMs peer .socksMethod (.new conn)
      (tunnelVerdict tls peer latencyMs (tlsCheckSocks5 peer peer.connect)) := by
  have hbuffer := buffer_exactMet 2 conn
  rw [tlsCheckSocks5_eq, ← hconn]
  cases hread : readPadded 2 conn with
  | none =>
    rw [hread] at hbuffer
    exact .complete (by simp [checkPoll, answer, BufReader.new, hbuffer, tunnelVerdict])
  | some read =>
    obtain ⟨resp, conn₁⟩ := read
    rw [hread] at hbuffer
    have hpoll : checkPoll protocol latencyMs .socksMethod
        (answer tls protocol peer (.new conn) .socksMethod).1 =
          if resp[0]! ≠ 0x05 ∨ resp[1]! = 0xFF then .inr (.okNoTls latencyMs)
          else .inl .socksReply := by
      simp only [checkPoll, answer, BufReader.new, hbuffer, Option.map_some]
    have hnext : (answer tls protocol peer (.new conn) .socksMethod).2 =
        .new (peer.write conn₁ (socks5Request tlsCheckHost tlsCheckPort)) := by
      simp [answer, BufReader.new, skipBytes, hread]
    simp only [Option.bind_eq_bind, Option.bind_some]
    by_cases hbad : resp[0]! ≠ 0x05 ∨ resp[1]! = 0xFF
    · rw [if_pos hbad] at hpoll ⊢
      exact .complete hpoll
    · rw [if_neg hbad] at hpoll ⊢
      refine .goOn _ hpoll ?_
      rw [hnext]
      exact settles_socksReply _

/-- The verdict of `check_single` on a proxy that takes connections. -/
theorem checkSingle_of_connect (tls : TlsConnector) (proxy : Proxy) {peer : Peer}
    (h : peer.refusal.isNone) (latencyMs : ℕ) :
    (checkSingle tls proxy peer latencyMs).2 =
      if (lineMet (.new (peer.write peer.connect (checkRequest connectCheckPort)))).accepts then
        tunnelVerdict tls peer latencyMs
          (match proxy.protocol with
            | .http | .https => tlsCheckHttpConnect peer peer.connect
            | .socks5 => tlsCheckSocks5 peer peer.connect)
      else .dead := by
  have hhttp : checkHttpConnect peer =
      (lineMet (.new (peer.write peer.connect (checkRequest connectCheckPort)))).accepts := by
    rw [accepts_lineMet, checkHttpConnect, h]
    exact Bool.true_and _
  have htls : checkTlsValidity tls proxy peer =
      (match proxy.protocol with
        | .http | .https => tlsCheckHttpConnect peer peer.connect
        | .socks5 => tlsCheckSocks5 peer peer.connect).any (tls peer) := by
    rw [checkTlsValidity, h, Bool.true_and]
    cases proxy.protocol <;> rfl
  rw [checkSingle, checkTcpConnect, h, if_pos rfl, hhttp, htls, tunnelVerdict]
  split_ifs <;> rfl

/-- Driven by the answers of a peer, the future comes to the verdict of `check_single`. -/
theorem settles_checkSingle (tls : TlsConnector) (proxy : Proxy) (peer : Peer) (latencyMs : ℕ)
    (r : BufReader) :
    Settles tls proxy.protocol latencyMs peer .tcpConnect r
      (checkSingle tls proxy peer latencyMs).2 := by
  cases hconnect : peer.refusal.isNone with
  | false =>
    exact .complete (by simp [checkPoll, answer, connectMet, hconnect, Met.ok, checkSingle,
      checkTcpConnect])
  | true =>
    have hok : (connectMet peer).ok := by simp [connectMet, hconnect, Met.ok]
    rw [checkSingle_of_connect tls proxy hconnect]
    refine .goOn .httpConnect (if_pos hok) (.goOn .httpStatus (if_pos hok) ?_)
    simp only [answer]
    split_ifs with haccepts
    · refine .goOn .tlsConnect (if_pos haccepts) ?_
      cases proxy.protocol with
      | http =>
        exact .goOn .tunnelStatus (if_pos hok) (settles_tunnelStatus rfl)
      | https =>
        exact .goOn .tunnelStatus (if_pos hok) (settles_tunnelStatus rfl)
      | socks5 =>
        exact .goOn .socksMethod (if_pos hok) (settles_socksMethod rfl)
    · exact .complete (if_neg haccepts)

/-- So the check of a peer whose stream is finite is over after some operations. -/
theorem checkAfter_eq_checkSingle (tls : TlsConnector) (proxy : Proxy) (peer : Peer)
    (latencyMs : ℕ) : ∃ behaviour n, checkAfter proxy.protocol latencyMs behaviour n =
      .inr (checkSingle tls proxy peer latencyMs).2 :=
  (settles_checkSingle tls proxy peer latencyMs (.new peer.connect)).exists_after

end Answers

end VpnGateway
