import VpnGateway.Core.Pipe
import VpnGateway.Proxy.ConnectionCount
import VpnGateway.Proxy.Sniff
import VpnGateway.Proxy.Socks5Transcripts
import VpnGateway.Proxy.WarmConnections

/-! The bytes of one client connection on their way through the gateway: peeked at for the target,
kept while upstream proxies are tried, and relayed over the connection that the handshake was made
on. -/
namespace VpnGateway

open Wire Runs

/-- What the gateway takes for the target; `none` where `sniff` panics. -/
def DataPath.targetHost (targetIp : String) (peeked : Bytes) : Option String :=
  (sniff peeked).map fun
    | .tlsSni domain => domain
    | .httpHost host => host
    | .unknown => targetIp

/-! What a handshake writes. -/

def handshakeBytes (protocol : Protocol) (host : String) (port : UInt16) : Bytes :=
  match protocol with
  | .http | .https => connectRequest host port
  | .socks5 => Socks5.greeting ++ socks5Request host port

/-- What has been written on the connection when `handshake` ends, however it ends. -/
def handshakeSent (protocol : Protocol) (peer : Peer) (conn : Conn) (host : String)
    (port : UInt16) : Bytes :=
  match protocol with
  | .http | .https => conn.sent ++ connectRequest host port
  | .socks5 => (socks5Session host port peer conn).2.sent

variable {peer : Peer} {conn conn' : Conn} {host targetIp : String} {port : UInt16}
  {protocol : Protocol}

theorem sent_of_read {n : ℕ} {chunk : Bytes} (h : conn.read n = .ok (chunk, conn')) :
    conn'.sent = conn.sent := by
  unfold Conn.read at h
  split at h
  · split_ifs at h
    obtain ⟨-, rfl⟩ := Prod.mk.inj (Outcome.ok.inj h)
    rfl
  · obtain ⟨-, rfl⟩ := Prod.mk.inj (Outcome.ok.inj h)
    rfl

theorem sent_of_readHeader {reads : ℕ} {buf header : Bytes}
    (h : readHeader reads conn buf = .ok (header, conn')) : conn'.sent = conn.sent := by
  induction reads generalizing conn buf with
  | zero => cases h
  | succ reads ih =>
    unfold readHeader at h
    split_ifs at h
    split at h
    next => cases h
    next => cases h
    next hread =>
      split_ifs at h
      split at h
      next =>
        obtain ⟨-, rfl⟩ := Prod.mk.inj (Outcome.ok.inj h)
        exact sent_of_read hread
      next => exact (ih h).trans (sent_of_read hread)

/-- The SOCKS5 conversation writes the greeting and then the request, and nothing else. -/
theorem sends_socks5Session (host : String) (port : UInt16) :
    Session.Sends (socks5Session host port) (Socks5.greeting ++ socks5Request host port) := by
  have hrequest : Session.Sends (Session.send (socks5Request host port) >>= fun _ => replySession)
      (socks5Request host port) := by
    have hsends := (Session.sends_send (socks5Request host port)).bind fun _ =>
      keepsSent_replySession.sends
    rwa [List.append_nil] at hsends
  refine (Session.sends_send Socks5.greeting).bind fun _ => ?_
  refine (Session.keepsSent_receive 2).sends.bind fun resp => ?_
  split_ifs
  · exact Session.sends_fail _ _
  · exact Session.sends_fail _ _
  · exact Session.sends_fail _ _
  · exact hrequest

/-- However a handshake ends, it has written a beginning of its bytes. -/
theorem handshakeSent_le (protocol : Protocol) (peer : Peer) (conn : Conn) (host : String)
    (port : UInt16) : ∃ written, handshakeSent protocol peer conn host port =
      conn.sent ++ written ∧ written <+: handshakeBytes protocol host port := by
  cases protocol with
  | http | https => exact ⟨connectRequest host port, rfl, List.prefix_rfl⟩
  | socks5 =>
    obtain ⟨written, hsent, hstarts, -⟩ := sends_socks5Session host port peer conn
    exact ⟨written, hsent, hstarts⟩

/-- A handshake that succeeds has written all its bytes. -/
theorem sent_of_handshake (h : handshake protocol peer conn host port = .ok conn') :
    conn'.sent = conn.sent ++ handshakeBytes protocol host port := by
  have hhttp (h : httpConnectHandshake peer conn host port = .ok conn') :
      conn'.sent = conn.sent ++ connectRequest host port := by
    obtain ⟨⟨header, read⟩, hread, hstatus⟩ := Outcome.bind_eq_ok.mp h
    have hsent := sent_of_readHeader hread
    dsimp only at hstatus
    split_ifs at hstatus
    obtain rfl := Outcome.ok.inj hstatus
    rw [hsent, Peer.sent_write]
  cases protocol with
  | http | https => exact hhttp h
  | socks5 =>
    have hresult : (socks5Session host port).result peer conn = .ok conn' :=
      (result_socks5Session peer conn host port).trans h
    obtain ⟨written, hsent, -, hok⟩ := sends_socks5Session host port peer conn
    unfold Session.result at hresult
    rcases hrun : socks5Session host port peer conn with ⟨_ | _ | _, last⟩ <;>
      rw [hrun] at hresult hsent hok
    · obtain rfl := Outcome.ok.inj hresult
      rw [hsent, hok rfl]
      rfl
    · cases hresult
    · cases hresult

namespace WarmAttempt

variable {a : WarmAttempt} {proxy : Proxy} {left : List Bytes}

/-- The connection that the attempt makes its handshake on, if it gets one. -/
def connection (a : WarmAttempt) : Option (Peer × Conn) :=
  match a.taken with
  | some stream => some ((a.sockets stream).far, (a.sockets stream).conn)
  | none => if a.peer.refusal = none then some (a.peer, a.peer.connect) else none

/-- Nothing has been written to a warm connection. -/
def Unused (a : WarmAttempt) : Prop := ∀ stream, (a.sockets stream).conn.sent = []

/-- What a failed attempt has written when it drops its connection. A timeout or an error cuts the
handshake off anywhere. -/
def Leaves (a : WarmAttempt) (proxy : Proxy) (host : String) (port : UInt16) (left : List Bytes) :
    Prop :=
  match a.connection with
  | some (peer, conn) =>
    ∃ bytes, left = [bytes] ∧ bytes <+: handshakeSent proxy.protocol peer conn host port
  | none => left = []

theorem sent_of_connection (hunused : a.Unused) (h : a.connection = some (peer, conn)) :
    conn.sent = [] := by
  unfold connection at h
  split at h
  next stream _ =>
    obtain ⟨-, rfl⟩ := Prod.mk.inj (Option.some.inj h)
    exact hunused stream
  next =>
    split_ifs at h
    obtain ⟨rfl, rfl⟩ := Prod.mk.inj (Option.some.inj h)
    rfl

theorem Leaves.length_le (h : a.Leaves proxy host port left) : left.length ≤ 1 := by
  unfold Leaves at h
  split at h
  · obtain ⟨bytes, rfl, -⟩ := h
    exact le_rfl
  · rw [h]
    exact Nat.zero_le 1

theorem Leaves.isPrefix (h : a.Leaves proxy host port left) (hunused : a.Unused) {bytes : Bytes}
    (hmem : bytes ∈ left) : bytes <+: handshakeBytes proxy.protocol host port := by
  unfold Leaves at h
  split at h
  next peer conn hconnection =>
    obtain ⟨bytes', rfl, hbytes⟩ := h
    obtain rfl := List.mem_singleton.mp hmem
    obtain ⟨written, hsent, hstarts⟩ := handshakeSent_le proxy.protocol peer conn host port
    rw [hsent, sent_of_connection hunused hconnection, List.nil_append] at hbytes
    exact hbytes.trans hstarts
  next =>
    rw [h] at hmem
    cases hmem

/-- Before the relay begins, its connection has been sent the handshake and nothing else. -/
theorem sent_of_connectResult (hunused : a.Unused)
    (h : a.connectResult proxy host port = .ok conn) :
    conn.sent = handshakeBytes proxy.protocol host port := by
  unfold connectResult at h
  split at h
  next stream _ =>
    unfold handshakeOnStream at h
    split_ifs at h
    split at h
    next => cases h
    next =>
      rw [sent_of_handshake h, hunused stream]
      rfl
  next =>
    have hok : (connectToTarget proxy a.peer host port).isOk := Outcome.isOk_iff.mpr ⟨conn, h⟩
    rw [connectToTarget_eq hok] at h
    exact sent_of_handshake h

end WarmAttempt

/-- An upstream connection with a relay. -/
structure Link where
  protocol : Protocol
  /-- As the handshake leaves it. -/
  conn : Conn

/-- Where `handle_connection` is; the link is there from the handshake on. -/
inductive DataPath.Phase where
  | peeking
  | trying (attempt : ℕ)
  | relaying (link : Link)
  | relayed (link : Link)
  | closed (link : Option Link)

/-- A client connection. The bytes that it has sent wait in the pipe upwards from the start. -/
structure DataPath where
  up : Pipe UInt8
  down : Pipe UInt8
  host : Option String
  phase : DataPath.Phase
  /-- What each connection that was given up has been sent. -/
  abandoned : List Bytes

namespace DataPath

def Phase.link : Phase → Option Link
  | .peeking | .trying _ => none
  | .relaying link | .relayed link => some link
  | .closed link => link

inductive Event where
  | client
  | peeks
  | attempts
  | upstream
  | copies
  | ends
  deriving DecidableEq

def peekSize : ℕ := 4096

/-- The buffer that `copy_bidirectional` has for each direction. -/
def copySize : ℕ := 8192

def start : DataPath := ⟨.fresh [] false, .fresh [] false, none, .peeking, []⟩

/-- The steps of `handle_connection` and of the two sides. Each attempt goes by whatever proxy and
connections there are. -/
inductive Step (targetIp : String) (port : UInt16) (w : DataPath) : Event → DataPath → Prop
  | client {up : Pipe UInt8} (h : w.up.Source up) : Step targetIp port w .client { w with up := up }
  | peek (n : ℕ) {host : String} (hphase : w.phase = .peeking) (hsize : n ≤ peekSize)
      (hn : n ≤ w.up.unread.length) (hready : 0 < n ∨ w.up.ended = true)
      (hhost : targetHost targetIp (w.up.unread.take n) = some host) :
      Step targetIp port w .peeks { w with host := some host, phase := .trying 0 }
  -- a timeout, an error, or a panic of `sniff`
  | peekFails (hphase : w.phase = .peeking) :
      Step targetIp port w .peeks { w with phase := .closed none }
  -- no proxy, not even after the wait for one; an attempt that itself waits for ever has no step
  | noProxy {attempt : ℕ} (hphase : w.phase = .trying attempt) :
      Step targetIp port w .attempts { w with phase := .closed none }
  | fails {attempt : ℕ} {host message : String} {left : List Bytes} (a : WarmAttempt)
      (proxy : Proxy) (hphase : w.phase = .trying attempt) (hhost : w.host = some host)
      (hunused : a.Unused) (hresult : a.connectResult proxy host port = .err message)
      (hleft : a.Leaves proxy host port left) :
      Step targetIp port w .attempts
        { w with
          phase := if attempt + 1 < Listener.maxRetries then .trying (attempt + 1) else .closed none
          abandoned := left ++ w.abandoned }
  | connects {attempt : ℕ} {host : String} {conn : Conn} (a : WarmAttempt) (proxy : Proxy)
      (hphase : w.phase = .trying attempt) (hhost : w.host = some host) (hunused : a.Unused)
      (hresult : a.connectResult proxy host port = .ok conn) :
      Step targetIp port w .attempts
        { w with
          phase := .relaying ⟨proxy.protocol, conn⟩
          down := .fresh conn.unread conn.closed }
  | upstream {link : Link} {down : Pipe UInt8} (hphase : w.phase = .relaying link)
      (h : w.down.Source down) : Step targetIp port w .upstream { w with down := down }
  | copiesUp {link : Link} {up : Pipe UInt8} (hphase : w.phase = .relaying link)
      (h : w.up.Copy copySize up) : Step targetIp port w .copies { w with up := up }
  | copiesDown {link : Link} {down : Pipe UInt8} (hphase : w.phase = .relaying link)
      (h : w.down.Copy copySize down) : Step targetIp port w .copies { w with down := down }
  | completes {link : Link} (hphase : w.phase = .relaying link) (hup : w.up.shut = true)
      (hdown : w.down.shut = true) : Step targetIp port w .ends { w with phase := .relayed link }
  -- an error, or the timeout of the relay
  | breaks {link : Link} (hphase : w.phase = .relaying link) :
      Step targetIp port w .ends { w with phase := .closed (some link) }

/-- The target comes from the first bytes that the client has sent. -/
def Targeted (targetIp : String) (w : DataPath) : Prop :=
  ∀ host, w.host = some host → ∃ n ≤ peekSize, n ≤ w.up.offered.length ∧
    targetHost targetIp (w.up.offered.take n) = some host

/-- A connection that was given up has been sent a beginning of a handshake for the target. -/
def HandshakesOnly (port : UInt16) (w : DataPath) : Prop :=
  ∀ bytes ∈ w.abandoned, ∃ host, w.host = some host ∧
    ∃ protocol, bytes <+: handshakeBytes protocol host port

/-- The connection in use has been sent the handshake for the target before the relay, which
begins with what can be read behind the reply. -/
def Tunnels (port : UInt16) (w : DataPath) (link : Link) : Prop :=
  ∃ host, w.host = some host ∧ link.conn.sent = handshakeBytes link.protocol host port ∧
    link.conn.unread <+: w.down.offered

def Phase.tries : Phase → ℕ
  | .peeking => 0
  | .trying attempt => attempt
  | .relaying _ | .relayed _ | .closed (some _) => 2
  | .closed none => 3

structure Inv (targetIp : String) (port : UInt16) (w : DataPath) : Prop where
  targeted : w.Targeted targetIp
  handshakesOnly : w.HandshakesOnly port
  tries : w.abandoned.length ≤ w.phase.tries
  inTime : ∀ attempt, w.phase = .trying attempt → attempt < Listener.maxRetries
  untouched : w.phase.link = none → w.up.Untouched ∧ w.down.Untouched
  tunnels : ∀ link, w.phase.link = some link → w.Tunnels port link
  up : w.up.Exact copySize
  down : w.down.Exact copySize
  complete : ∀ link, w.phase = .relayed link → w.up.shut = true ∧ w.down.shut = true

variable {w w' : DataPath} {es : List Event} {e : Event}

theorem inv_start : start.Inv targetIp port where
  targeted _ h := absurd h.symm (Option.some_ne_none _)
  handshakesOnly _ h := absurd h List.not_mem_nil
  tries := le_rfl
  inTime _ h := Phase.noConfusion h
  untouched _ := ⟨Pipe.untouched_fresh _ _, Pipe.untouched_fresh _ _⟩
  tunnels _ h := absurd h.symm (Option.some_ne_none _)
  up := (Pipe.untouched_fresh _ _).exact
  down := (Pipe.untouched_fresh _ _).exact
  complete _ h := Phase.noConfusion h

theorem Targeted.mono (h : w.Targeted targetIp) (hhost : w'.host = w.host)
    (hup : w.up.offered <+: w'.up.offered) : w'.Targeted targetIp := by
  intro host hw'
  obtain ⟨n, hsize, hn, htarget⟩ := h host (hhost.symm.trans hw')
  obtain ⟨more, hmore⟩ := hup
  refine ⟨n, hsize, ?_, ?_⟩
  · rw [← hmore, List.length_append]
    exact hn.trans (Nat.le_add_right _ _)
  · rw [← hmore, List.take_append_of_le_length hn]
    exact htarget

/-- Nothing is copied while there is no connection to copy to. -/
theorem Inv.of_link_none (hs : w.Inv targetIp port) {phase : Phase} (hphase : phase.link = none)
    (htries : w.abandoned.length ≤ phase.tries)
    (hinTime : ∀ attempt, phase = .trying attempt → attempt < Listener.maxRetries)
    (hlink : w.phase.link = none) : { w with phase := phase }.Inv targetIp port where
  targeted := hs.targeted
  handshakesOnly := hs.handshakesOnly
  tries := htries
  inTime := hinTime
  untouched _ := hs.untouched hlink
  tunnels link h := absurd (hphase.symm.trans h).symm (Option.some_ne_none link)
  up := hs.up
  down := hs.down
  complete link h := by
    rw [show phase = .relayed link from h] at hphase
    cases hphase

/-- Whatever moves while the relay is on, nothing that was sent is forgotten. -/
theorem Inv.of_relaying (hs : w.Inv targetIp port) {link : Link} (hphase : w.phase = .relaying link)
    {up down : Pipe UInt8} (hup : up.Exact copySize) (hdown : down.Exact copySize)
    (hupSent : w.up.offered <+: up.offered) (hdownSent : w.down.offered <+: down.offered) :
    { w with up := up, down := down }.Inv targetIp port where
  targeted := hs.targeted.mono rfl hupSent
  handshakesOnly := hs.handshakesOnly
  tries := hs.tries
  inTime := hs.inTime
  untouched h := by
    have hlink : w.phase.link = some link := by rw [hphase]; rfl
    exact absurd (hlink.symm.trans h) (Option.some_ne_none link)
  tunnels link' hlink := by
    obtain ⟨host, hhost, hsent, hunread⟩ := hs.tunnels link' hlink
    exact ⟨host, hhost, hsent, hunread.trans hdownSent⟩
  up := hup
  down := hdown
  complete link' h := by
    rw [show w.phase = .relayed link' from h] at hphase
    cases hphase

theorem Inv.of_stop (hs : w.Inv targetIp port) {link : Link} (hphase : w.phase = .relaying link)
    {phase : Phase} (hlink : phase.link = some link) (htries : 2 ≤ phase.tries)
    (hcomplete : ∀ link', phase = .relayed link' → w.up.shut = true ∧ w.down.shut = true) :
    { w with phase := phase }.Inv targetIp port where
  targeted := hs.targeted
  handshakesOnly := hs.handshakesOnly
  tries := by
    have hold := hs.tries
    rw [hphase] at hold
    exact hold.trans htries
  inTime attempt h := by
    rw [show phase = .trying attempt from h] at hlink
    cases hlink
  untouched h := absurd (hlink.symm.trans h) (Option.some_ne_none link)
  tunnels link' h := hs.tunnels link' (by rw [hphase]; exact hlink.symm.trans h)
  up := hs.up
  down := hs.down
  complete := hcomplete

theorem inv_step (hs : w.Inv targetIp port) (h : Step targetIp port w e w') :
    w'.Inv targetIp port := by
  cases h with
  | client h =>
    exact {
      hs with
      targeted := hs.targeted.mono rfl h.isPrefix_offered
      untouched := fun hlink => ⟨(hs.untouched hlink).1.source h, (hs.untouched hlink).2⟩
      up := hs.up.source h
      complete := fun link hphase => ⟨h.shut_eq.trans (hs.complete link hphase).1,
        (hs.complete link hphase).2⟩ }
  | @peek n host hphase hsize hn hready hhost =>
    have hlink : w.phase.link = none := by rw [hphase]; rfl
    have hunread := (hs.untouched hlink).1.unread
    have hnone : w.abandoned = [] := by
      have htries := hs.tries
      rw [hphase] at htries
      exact List.eq_nil_of_length_eq_zero (Nat.le_zero.mp htries)
    have htargeted : ({ w with host := some host } : DataPath).Targeted targetIp := by
      intro host' hhost'
      obtain rfl := Option.some.inj hhost'
      exact ⟨n, hsize, hunread ▸ hn, hunread ▸ hhost⟩
    exact {
      targeted := htargeted
      handshakesOnly := fun bytes hmem => absurd (hnone ▸ hmem) List.not_mem_nil
      tries := by rw [hnone]; exact Nat.zero_le _
      inTime := fun attempt h => by
        obtain rfl := Phase.trying.inj h
        decide
      untouched := fun _ => hs.untouched hlink
      tunnels := fun link h => absurd h.symm (Option.some_ne_none link)
      up := hs.up
      down := hs.down
      complete := fun link h => Phase.noConfusion h }
  | peekFails hphase =>
    have hlink : w.phase.link = none := by rw [hphase]; rfl
    have htries := hs.tries
    rw [hphase] at htries
    exact hs.of_link_none rfl (htries.trans (Nat.zero_le _)) (fun _ h => Phase.noConfusion h) hlink
  | noProxy hphase =>
    have hlink : w.phase.link = none := by rw [hphase]; rfl
    have htries := hs.tries
    rw [hphase] at htries
    exact hs.of_link_none rfl (htries.trans (hs.inTime _ hphase).le)
      (fun _ h => Phase.noConfusion h) hlink
  | @fails attempt host message left a proxy hphase hhost hunused hresult hleft =>
    have hlink : w.phase.link = none := by rw [hphase]; rfl
    have htries := hs.tries
    rw [hphase] at htries
    have hlen : (left ++ w.abandoned).length ≤ attempt + 1 := by
      rw [List.length_append, add_comm]
      exact Nat.add_le_add htries hleft.length_le
    have hleftOnly :
        ({ w with abandoned := left ++ w.abandoned } : DataPath).HandshakesOnly port := by
      intro bytes hmem
      rcases List.mem_append.mp hmem with hnew | hold
      · exact ⟨host, hhost, proxy.protocol, hleft.isPrefix hunused hnew⟩
      · exact hs.handshakesOnly bytes hold
    have hleftInv : ({ w with
        phase := .closed none, abandoned := left ++ w.abandoned } : DataPath).Inv targetIp port := {
      targeted := hs.targeted
      handshakesOnly := hleftOnly
      tries := hlen.trans (hs.inTime _ hphase)
      inTime := fun _ h => Phase.noConfusion h
      untouched := fun _ => hs.untouched hlink
      tunnels := fun link h => absurd h.symm (Option.some_ne_none link)
      up := hs.up
      down := hs.down
      complete := fun link h => Phase.noConfusion h }
    split_ifs with hretry
    · exact hleftInv.of_link_none rfl hlen
        (fun next h => by obtain rfl := Phase.trying.inj h; exact hretry) rfl
    · exact hleftInv
  | @connects attempt host conn a proxy hphase hhost hunused hresult =>
    have hlink : w.phase.link = none := by rw [hphase]; rfl
    have htries := hs.tries
    rw [hphase] at htries
    exact {
      targeted := hs.targeted
      handshakesOnly := hs.handshakesOnly
      tries := htries.trans (Nat.le_of_lt_succ (hs.inTime _ hphase))
      inTime := fun _ h => Phase.noConfusion h
      untouched := fun h => absurd h (Option.some_ne_none _)
      tunnels := fun link h => by
        obtain rfl := Option.some.inj h
        exact ⟨host, hhost, WarmAttempt.sent_of_connectResult hunused hresult, List.prefix_rfl⟩
      up := hs.up
      down := (Pipe.untouched_fresh _ _).exact
      complete := fun link h => Phase.noConfusion h }
  | upstream hphase h =>
    exact hs.of_relaying hphase hs.up (hs.down.source h) List.prefix_rfl h.isPrefix_offered
  | copiesUp hphase h =>
    exact hs.of_relaying hphase (hs.up.copy h) hs.down (h.source_eq.1 ▸ List.prefix_rfl)
      List.prefix_rfl
  | copiesDown hphase h =>
    exact hs.of_relaying hphase hs.up (hs.down.copy h) List.prefix_rfl
      (h.source_eq.1 ▸ List.prefix_rfl)
  | completes hphase hup hdown => exact hs.of_stop hphase rfl le_rfl fun _ _ => ⟨hup, hdown⟩
  | breaks hphase => exact hs.of_stop hphase rfl le_rfl fun _ h => Phase.noConfusion h

/-! How the relay comes to its end. -/

def remaining (w : DataPath) : ℕ := w.up.rank + w.down.rank

/-- The two sides have done nothing, and the relay is still on if it was. -/
structure SameSides (w w' : DataPath) : Prop where
  phase : w'.phase = w.phase
  up : w'.up.offered = w.up.offered ∧ w'.up.ended = w.up.ended
  down : w'.down.offered = w.down.offered ∧ w'.down.ended = w.down.ended

theorem Step.copies_lt (h : Step targetIp port w .copies w') :
    w'.remaining < w.remaining ∧ w.SameSides w' := by
  cases h with
  | copiesUp _ h => exact ⟨Nat.add_lt_add_right h.rank_lt _, rfl, h.source_eq, rfl, rfl⟩
  | copiesDown _ h => exact ⟨Nat.add_lt_add_left h.rank_lt _, rfl, ⟨rfl, rfl⟩, h.source_eq⟩

theorem copies_le_of_run (h : Run (Step targetIp port) w es w') (hcopies : ∀ e ∈ es, e = .copies) :
    es.length + w'.remaining ≤ w.remaining ∧ w.SameSides w' := by
  induction h with
  | nil w => exact ⟨(Nat.zero_add _).le, rfl, ⟨rfl, rfl⟩, rfl, rfl⟩
  | @cons w u w' e es head _ ih =>
    obtain ⟨he, hes⟩ := List.forall_mem_cons.mp hcopies
    subst he
    obtain ⟨hlt, hfirst⟩ := head.copies_lt
    obtain ⟨hle, hrest⟩ := ih hes
    rw [List.length_cons]
    exact ⟨by omega, hrest.phase.trans hfirst.phase,
      ⟨hrest.up.1.trans hfirst.up.1, hrest.up.2.trans hfirst.up.2⟩,
      ⟨hrest.down.1.trans hfirst.down.1, hrest.down.2.trans hfirst.down.2⟩⟩

/-- With both sides at their end, only the end of both directions stops the copying. -/
theorem shut_of_stuck {link : Link} (hphase : w.phase = .relaying link) (hup : w.up.ended = true)
    (hdown : w.down.ended = true) (hstuck : ∀ w', ¬ Step targetIp port w .copies w') :
    w.up.shut = true ∧ w.down.shut = true := by
  constructor
  · by_contra hopen
    obtain ⟨up, hcopy⟩ := Pipe.exists_copy (by decide : 0 < copySize) hup
      (Bool.eq_false_iff.mpr hopen)
    exact hstuck _ (.copiesUp hphase hcopy)
  · by_contra hopen
    obtain ⟨down, hcopy⟩ := Pipe.exists_copy (by decide : 0 < copySize) hdown
      (Bool.eq_false_iff.mpr hopen)
    exact hstuck _ (.copiesDown hphase hcopy)

/-- No byte of a client goes astray, whatever proxies are tried, warm or not, and in whatever order
the two sides send and the gateway reads and writes. The target comes from the first bytes that the
client has sent. At most three connections are given up, and each has been sent the beginning of a
handshake for the target and no byte of the client; until a connection is found, all the client has
sent is still there to be read. That connection has been sent its handshake, and then what the
client has sent, in this order, without a gap and once; the client gets what can be read behind the
reply in the same way, with at most eight KiB on their way in each direction. A relay that completes
has delivered everything, and once both sides have ended, copying comes to that point after a
bounded number of steps. -/
theorem tunnel_transparent (h : Run (Step targetIp port) start es w) :
    w.Targeted targetIp ∧ w.abandoned.length ≤ Listener.maxRetries ∧ w.HandshakesOnly port ∧
    (w.phase.link = none → w.up.unread = w.up.offered ∧ w.down.written = []) ∧
    (∀ link, w.phase.link = some link → w.Tunnels port link) ∧
    w.up.Exact copySize ∧ w.down.Exact copySize ∧
    (∀ link, w.phase = .relayed link →
      w.up.written = w.up.offered ∧ w.down.written = w.down.offered) ∧
    ∀ link, w.phase = .relaying link → w.up.ended = true → w.down.ended = true →
      ∀ es' w', Run (Step targetIp port) w es' w' → (∀ e ∈ es', e = .copies) →
        es'.length ≤ w.remaining ∧
        ((∀ w'', ¬ Step targetIp port w' .copies w'') →
          w'.up.written = w.up.offered ∧ w'.down.written = w.down.offered ∧
          ∃ w'', Step targetIp port w' .ends w'' ∧ w''.phase = .relayed link) := by
  have hinv : w.Inv targetIp port := h.invariant (fun _ _ _ hs hstep => inv_step hs hstep) inv_start
  have htries : w.phase.tries ≤ Listener.maxRetries := by
    cases hphase : w.phase with
    | trying attempt => exact (hinv.inTime attempt hphase).le
    | closed link => cases link <;> exact Nat.le_of_ble_eq_true rfl
    | peeking | relaying | relayed => exact Nat.le_of_ble_eq_true rfl
  refine ⟨hinv.targeted, hinv.tries.trans htries, hinv.handshakesOnly, fun hnone => ?_,
    hinv.tunnels, hinv.up, hinv.down, fun link hdone => ?_,
    fun link hphase hup hdown es' w' hrun hcopies => ?_⟩
  · exact ⟨(hinv.untouched hnone).1.unread, (hinv.untouched hnone).2.written⟩
  · obtain ⟨hup, hdown⟩ := hinv.complete link hdone
    exact ⟨hinv.up.written_eq hup, hinv.down.written_eq hdown⟩
  · obtain ⟨hle, hsides⟩ := copies_le_of_run hrun hcopies
    have hinv' := hrun.invariant (fun _ _ _ hs hstep => inv_step hs hstep) hinv
    have hphase' := hsides.phase.trans hphase
    refine ⟨(Nat.le_add_right _ _).trans hle, fun hstuck => ?_⟩
    obtain ⟨hup', hdown'⟩ := shut_of_stuck hphase' (hsides.up.2.trans hup)
      (hsides.down.2.trans hdown) hstuck
    exact ⟨(hinv'.up.written_eq hup').trans hsides.up.1,
      (hinv'.down.written_eq hdown').trans hsides.down.1, _,
      .completes hphase' hup' hdown', rfl⟩

/-- An attempt without a warm connection. -/
def coldAttempt (peer : Peer) : WarmAttempt where
  maxAge := 0
  now := 0
  queue := []
  peeked _ := peer.connect
  sockets _ := ⟨peer.connect, peer, 0⟩
  peer := peer

def refusing : Peer := ⟨some "connection refused", fun _ => ([], false)⟩

theorem okHeader_ne_nil : okHeader ≠ [] := by decide

def accepting : Peer := answering [⟨okHeader, okHeader_ne_nil⟩]

def httpProxy : Proxy := .new "10.0.0.1" 8080 .http

def secondTry : Link := ⟨.http, ⟨connectRequest "1.2.3.4" 80, [], false⟩⟩

/-- The first proxy refuses the connection; over the second one a byte goes up. -/
def oneByte (phase : Phase) (up : Pipe UInt8) (down : Pipe UInt8) : DataPath :=
  ⟨up, down, some "1.2.3.4", phase, []⟩

theorem run_oneByte : Run (Step "1.2.3.4" 80) start
    [.client, .peeks, .attempts, .attempts, .client, .upstream, .copies, .copies, .copies, .copies,
      .ends]
    (oneByte (.relayed secondTry) ⟨[7], [], true, [], [7], true⟩ ⟨[], [], true, [], [], true⟩) := by
  refine .cons (.client (.sends [7] rfl)) ?_
  refine .cons (.peek 1 rfl (by decide) (by decide) (Or.inl Nat.one_pos) rfl) ?_
  refine .cons (.fails (coldAttempt refusing) httpProxy rfl rfl (fun _ => rfl) rfl rfl) ?_
  refine .cons (.connects (coldAttempt accepting) httpProxy rfl rfl (fun _ => rfl) rfl) ?_
  refine .cons (.client (.ends rfl)) (.cons (.upstream rfl (.ends rfl)) ?_)
  refine .cons (.copiesUp rfl (.reads 1 Nat.one_pos le_rfl (by decide))) ?_
  refine .cons (.copiesUp rfl (.writes 1 Nat.one_pos le_rfl)) ?_
  refine .cons (.copiesUp rfl (.shuts rfl rfl rfl rfl)) ?_
  refine .cons (.copiesDown rfl (.shuts rfl rfl rfl rfl)) ?_
  exact .single (.completes rfl rfl rfl)

theorem tunnel_transparent_oneByte : ∃ w : DataPath, w.phase = .relayed secondTry ∧
    w.abandoned.length ≤ Listener.maxRetries ∧ w.Tunnels 80 secondTry ∧
      w.up.written = w.up.offered ∧ w.up.offered = [7] := by
  obtain ⟨-, htries, -, -, htunnels, -, -, hdone, -⟩ := tunnel_transparent run_oneByte
  exact ⟨_, rfl, htries, htunnels secondTry rfl, (hdone secondTry rfl).1, rfl⟩

end DataPath

end VpnGateway
