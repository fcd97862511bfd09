import VpnGateway.Core.Runs
import VpnGateway.Proxy.Udp

/-! The datagrams that wait at the sockets of the UDP sessions: who sent what the relay hands to
its clients. -/
namespace VpnGateway

open Runs Wire

structure Datagram where
  source : SocketAddr
  data : Bytes
  deriving DecidableEq

/-- A socket is open from its `bind` on: first the handler that is to insert it has it, then the
table. -/
def UdpRelay.IsOpen (s : UdpRelay) (port : UInt16) : Prop :=
  0 < s.handlers.countP (fun h => h.stage = .insert port) ∨
    0 < s.sessions.countP fun session => session.upstream = port

instance (s : UdpRelay) (port : UInt16) : Decidable (s.IsOpen port) :=
  inferInstanceAs (Decidable (_ ∨ _))

/-- Only an answer that gets through adds to the replies. -/
theorem UdpRelay.Step.replies {dnsUpstream : String} {s t : UdpRelay} {e : Instant × UdpEvent}
    (h : UdpRelay.Step dnsUpstream s e t) :
    (∃ id data handler, e.2 = .answer id (.response data true) ∧ s.reading id = some handler ∧
      t.replies = (handler.clientAddr, data) :: s.replies) ∨
    (∀ id data, e.2 ≠ .answer id (.response data true)) ∧ t.replies = s.replies := by
  obtain ⟨now, event⟩ := e
  simp only [UdpRelay.Step] at h
  cases event with
  | recvFrom j client data =>
    simp only [UdpRelay.apply] at h
    split_ifs at h <;> obtain rfl := Option.some.inj h <;> exact .inr ⟨by simp, rfl⟩
  | request task =>
    simp only [UdpRelay.apply] at h
    split_ifs at h
    obtain ⟨access, -, rfl⟩ := Option.map_eq_some_iff.mp h
    exact .inr ⟨by simp, rfl⟩
  | acquire task =>
    obtain ⟨lock, -, rfl⟩ := Option.map_eq_some_iff.mp h
    exact .inr ⟨by simp, rfl⟩
  | sendTo j ok =>
    simp only [UdpRelay.apply] at h
    split at h
    next =>
      obtain ⟨session, -, rfl⟩ := Option.map_eq_some_iff.mp h
      cases ok <;> exact .inr ⟨by simp, rfl⟩
    next => contradiction
  | noSession j =>
    simp only [UdpRelay.apply] at h
    split at h
    next =>
      split_ifs at h
      obtain rfl := Option.some.inj h
      exact .inr ⟨by simp, rfl⟩
    next => contradiction
  | answer j answer =>
    simp only [UdpRelay.apply] at h
    split at h
    next client data hread =>
      obtain rfl := Option.some.inj h
      cases answer with
      | response data delivered =>
        cases delivered with
        | true => exact .inl ⟨j, data, _, rfl, hread, rfl⟩
        | false => exact .inr ⟨by simp, rfl⟩
      | error => exact .inr ⟨by simp, rfl⟩
      | timeout => exact .inr ⟨by simp, rfl⟩
    next => contradiction
  | bind j upstream =>
    simp only [UdpRelay.apply] at h
    split at h
    next =>
      obtain rfl := Option.some.inj h
      cases upstream <;> exact .inr ⟨by simp, rfl⟩
    next => contradiction
  | cleanupSessions =>
    simp only [UdpRelay.apply] at h
    split_ifs at h
    obtain rfl := Option.some.inj h
    exact .inr ⟨by simp, rfl⟩
  | lookUp j | insert j | touch j =>
    simp only [UdpRelay.apply] at h
    split at h
    next =>
      obtain rfl := Option.some.inj h
      exact .inr ⟨by simp, rfl⟩
    next => contradiction

inductive UdpNetEvent where
  | relay (event : UdpEvent)
  /-- A datagram from anywhere reaches the port. One that the kernel drops is no event. -/
  | arrive (port : UInt16) (datagram : Datagram)
  deriving DecidableEq

/-- The event is no datagram of a third party. -/
def UdpNetEvent.isOwn (resolver : SocketAddr) : UdpNetEvent → Bool
  | .arrive _ d => d.source = resolver
  | .relay _ => true

/-- What one `recv_from` takes, for which client, and what waits behind it. -/
structure UdpRead where
  client : SocketAddr
  port : UInt16
  datagram : Datagram
  rest : List Datagram

structure UdpNet where
  relay : UdpRelay
  /-- What waits at each local port, oldest first. -/
  inbox : UInt16 → List Datagram
  /-- The datagrams handed to clients, with the sender that `handle_udp_packet` ignores. -/
  relayed : List (SocketAddr × Datagram)

namespace UdpNet

def start : UdpNet := ⟨.start, fun _ => [], []⟩

/-- The oldest datagram at the socket of the session whose answer the handler waits for. -/
def read (s : UdpNet) (id : ℕ) : Option UdpRead :=
  (s.relay.reading id).bind fun h =>
    (s.relay.sessions.get h.clientAddr).bind fun session =>
      match s.inbox session.upstream with
      | datagram :: rest => some ⟨h.clientAddr, session.upstream, datagram, rest⟩
      | [] => none

def setInbox (s : UdpNet) (port : UInt16) (datagrams : List Datagram) : UdpNet :=
  { s with inbox := Function.update s.inbox port datagrams }

/-- The read and what becomes of it. -/
def receive (s : UdpNet) (r : UdpRead) (delivered : Bool) : UdpNet :=
  let relayed := if delivered then (r.client, r.datagram) :: s.relayed else s.relayed
  { s.setInbox r.port r.rest with relayed := relayed }

/-- The part of an event of the relay that concerns the sockets. -/
def sockets (s : UdpNet) : UdpEvent → Option UdpNet
  | .bind _ (some port) => if s.relay.IsOpen port then none else some (s.setInbox port [])
  | .answer id (.response data delivered) =>
    match s.read id with
    | some r => if r.datagram.data = data then some (s.receive r delivered) else none
    | none => none
  | _ => some s

/-- The state after one event; `none` where the event cannot happen. A wait may end in an error
or a timeout whatever is there to read. -/
def apply (dnsUpstream : String) (now : Instant) (s : UdpNet) : UdpNetEvent → Option UdpNet
  | .arrive port datagram =>
    some (if s.relay.IsOpen port then s.setInbox port (s.inbox port ++ [datagram]) else s)
  | .relay event =>
    (s.relay.apply dnsUpstream now event).bind fun relay =>
      (s.sockets event).map fun net => { net with relay := relay }

def Step (dnsUpstream : String) (s : UdpNet) (e : Instant × UdpNetEvent) (t : UdpNet) : Prop :=
  s.apply dnsUpstream e.1 e.2 = some t

/-- The event reads this datagram, and it gets to the client or does not. -/
inductive Reads (s : UdpNet) : UdpNetEvent → Bool → Datagram → Prop where
  | response {id : ℕ} {r : UdpRead} (hread : s.read id = some r) (data : Bytes)
      (delivered : Bool) : Reads s (.relay (.answer id (.response data delivered))) delivered
        r.datagram

/-- Every datagram handed to a client was sent by the resolver. -/
def RelaysOnly (resolver : SocketAddr) (s : UdpNet) : Prop :=
  ∀ r ∈ s.relayed, r.2.source = resolver

/-- If the event hands a waiting datagram to a client, the resolver sent it. -/
def HandsOverOnly (resolver : SocketAddr) (s : UdpNet) (e : Instant × UdpNetEvent) : Prop :=
  ∀ d, s.Reads e.2 true d → d.source = resolver

/-- If the event reads a waiting datagram, the resolver sent it. -/
def ReadsOnly (resolver : SocketAddr) (s : UdpNet) (e : Instant × UdpNetEvent) : Prop :=
  ∀ delivered d, s.Reads e.2 delivered d → d.source = resolver

/-- Nobody but the resolver sends to an open socket. -/
def AdmitsOnly (resolver : SocketAddr) (s : UdpNet) (e : Instant × UdpNetEvent) : Prop :=
  ∀ port d, e.2 = .arrive port d → s.relay.IsOpen port → d.source = resolver

/-- Everything that waits was sent by the resolver. -/
def HoldsOnly (resolver : SocketAddr) (s : UdpNet) : Prop :=
  ∀ port, ∀ d ∈ s.inbox port, d.source = resolver

/-- The state without what third parties have sent. -/
def keepOwn (resolver : SocketAddr) (s : UdpNet) : UdpNet :=
  { s with inbox := fun port => (s.inbox port).filter fun d => d.source = resolver }

variable {dnsUpstream : String} {resolver : SocketAddr} {s t net : UdpNet}
  {e : Instant × UdpNetEvent} {es : List (Instant × UdpNetEvent)} {event : UdpEvent}
  {delivered : Bool} {d : Datagram}

/-- An event reads from a socket, empties one at its `bind`, or leaves them all alone. -/
theorem sockets_cases (h : s.sockets event = some net) :
    (∃ id data delivered r, event = .answer id (.response data delivered) ∧
      s.read id = some r ∧ r.datagram.data = data ∧ net = s.receive r delivered) ∨
    (∀ id data delivered, event ≠ .answer id (.response data delivered)) ∧
      ((net = s ∧ ∀ s' : UdpNet, s'.sockets event = some s') ∨
        ∃ id port, event = .bind id (some port) ∧ ¬ s.relay.IsOpen port ∧
          net = s.setInbox port []) := by
  unfold sockets at h
  split at h
  next id port =>
    split_ifs at h with hopen
    exact .inr ⟨nofun, .inr ⟨id, port, rfl, hopen, (Option.some.inj h).symm⟩⟩
  next id data delivered =>
    split at h
    next r hread =>
      split_ifs at h with hdata
      exact .inl ⟨id, data, delivered, r, rfl, hread, hdata, (Option.some.inj h).symm⟩
    next => contradiction
  next hbind hanswer =>
    exact .inr ⟨hanswer, .inl ⟨(Option.some.inj h).symm, fun s' => by simp [sockets]⟩⟩

/-- A step is an arrival, or one of the relay with what it does to the sockets. -/
theorem Step.cases (h : Step dnsUpstream s e t) :
    (∃ port d, e.2 = .arrive port d ∧
      t = if s.relay.IsOpen port then s.setInbox port (s.inbox port ++ [d]) else s) ∨
    ∃ event net relay, e.2 = .relay event ∧ s.sockets event = some net ∧
      s.relay.apply dnsUpstream e.1 event = some relay ∧ t = { net with relay := relay } := by
  obtain ⟨now, event⟩ := e
  cases event with
  | arrive port d => exact .inl ⟨port, d, rfl, (Option.some.inj h).symm⟩
  | relay event =>
    obtain ⟨relay, hrelay, h⟩ := Option.bind_eq_some_iff.mp h
    obtain ⟨net, hnet, rfl⟩ := Option.map_eq_some_iff.mp h
    exact .inr ⟨event, net, relay, rfl, hnet, hrelay, rfl⟩

theorem run_of_apply (h : exec (fun s e => apply dnsUpstream e.1 s e.2) s es = some t) :
    Run (Step dnsUpstream) s es t := by
  have hall : ∀ e ∈ es, True := fun _ _ => trivial
  exact run_of_exec (fun _ _ _ _ h => h) hall h

theorem Step.unique {u : UdpNet} (h : Step dnsUpstream s e t) (h' : Step dnsUpstream s e u) :
    t = u := Option.some.inj (h.symm.trans h')

/-- Only a delivered read adds to what was relayed. -/
theorem Step.relayed (h : Step dnsUpstream s e t) :
    t.relayed = s.relayed ∧ (∀ d, ¬ s.Reads e.2 true d) ∨
      ∃ client d, s.Reads e.2 true d ∧ t.relayed = (client, d) :: s.relayed := by
  rcases h.cases with ⟨port, d, he, rfl⟩ | ⟨event, net, relay, he, hnet, -, rfl⟩
  · refine .inl ⟨by split <;> rfl, fun d hreads => ?_⟩
    rw [he] at hreads
    cases hreads
  rcases sockets_cases hnet with ⟨id, data, delivered, r, rfl, hread, -, rfl⟩ | ⟨hno, hnet⟩
  · cases delivered with
    | true => exact .inr ⟨r.client, r.datagram, he ▸ .response hread data true, rfl⟩
    | false =>
      refine .inl ⟨rfl, fun d hreads => ?_⟩
      rw [he] at hreads
      cases hreads
  · refine .inl ⟨?_, fun d hreads => ?_⟩
    · rcases hnet with ⟨rfl, -⟩ | ⟨-, -, -, -, rfl⟩ <;> rfl
    · rw [he] at hreads
      cases hreads
      exact hno _ _ _ rfl

theorem Reads.unique {d' : Datagram} {ev : UdpNetEvent} (h : s.Reads ev delivered d)
    (h' : s.Reads ev delivered d') : d = d' := by
  cases h with
  | response hread =>
    cases h' with
    | response hread' => rw [Option.some.inj (hread.symm.trans hread')]

theorem relaysOnly_step_iff (hs : s.RelaysOnly resolver) (h : Step dnsUpstream s e t) :
    t.RelaysOnly resolver ↔ s.HandsOverOnly resolver e := by
  rcases h.relayed with ⟨hsame, hno⟩ | ⟨client, d, hreads, hmore⟩
  · refine iff_of_true ?_ fun d hreads => absurd hreads (hno d)
    rw [RelaysOnly, hsame]
    exact hs
  · rw [RelaysOnly, hmore, List.forall_mem_cons]
    constructor
    · rintro ⟨hd, -⟩ d' hreads'
      rw [← hreads.unique hreads']
      exact hd
    · intro hown
      exact ⟨hown d hreads, hs⟩

theorem inbox_of_read {id : ℕ} {r : UdpRead} (h : s.read id = some r) :
    s.inbox r.port = r.datagram :: r.rest := by
  obtain ⟨handler, -, h⟩ := Option.bind_eq_some_iff.mp h
  obtain ⟨session, -, h⟩ := Option.bind_eq_some_iff.mp h
  split at h
  next datagram rest hinbox =>
    obtain rfl := Option.some.inj h
    exact hinbox
  next => contradiction

theorem readsOnly_of_holdsOnly (hs : s.HoldsOnly resolver) (e : Instant × UdpNetEvent) :
    s.ReadsOnly resolver e := by
  intro delivered d hreads
  generalize e.2 = event at hreads
  obtain ⟨hread, -, -⟩ := hreads
  exact hs _ _ (by rw [inbox_of_read hread]; exact List.mem_cons_self)

theorem HoldsOnly.setInbox (hs : s.HoldsOnly resolver) (port : UInt16) {ds : List Datagram}
    (hds : ∀ d ∈ ds, d.source = resolver) : (s.setInbox port ds).HoldsOnly resolver := by
  intro other d hd
  simp only [UdpNet.setInbox, Function.update_apply] at hd
  split_ifs at hd
  · exact hds d hd
  · exact hs other d hd

theorem HoldsOnly.sockets (hs : s.HoldsOnly resolver) (h : s.sockets event = some net) :
    net.HoldsOnly resolver := by
  rcases sockets_cases h with ⟨_, _, _, r, -, hread, -, rfl⟩ |
    ⟨-, ⟨rfl, -⟩ | ⟨-, port, -, -, rfl⟩⟩
  · refine hs.setInbox r.port fun d hd => hs r.port d ?_
    rw [inbox_of_read hread]
    exact List.mem_cons_of_mem _ hd
  · exact hs
  · exact hs.setInbox port nofun

theorem HoldsOnly.step (hs : s.HoldsOnly resolver) (h : Step dnsUpstream s e t)
    (he : s.AdmitsOnly resolver e) : t.HoldsOnly resolver := by
  rcases h.cases with ⟨port, d, harrive, rfl⟩ | ⟨event, net, relay, -, hnet, -, rfl⟩
  · split_ifs with hopen
    · refine hs.setInbox port fun d' hd' => ?_
      rcases List.mem_append.mp hd' with hd' | hd'
      · exact hs port d' hd'
      · rw [List.mem_singleton.mp hd']
        exact he port d harrive hopen
    · exact hs
  · exact fun port d hd => hs.sockets hnet port d hd

theorem keepOwn_setInbox (s : UdpNet) (port : UInt16) (ds : List Datagram) :
    (s.setInbox port ds).keepOwn resolver =
      (s.keepOwn resolver).setInbox port (ds.filter fun d => d.source = resolver) := by
  simp only [keepOwn, setInbox, mk.injEq, true_and, and_true]
  funext other
  simp only [Function.update_apply]
  split_ifs <;> rfl

theorem keepOwn_receive (s : UdpNet) (r : UdpRead) (delivered : Bool) :
    (s.receive r delivered).keepOwn resolver = (s.keepOwn resolver).receive
      { r with rest := r.rest.filter fun d => d.source = resolver } delivered := by
  have hinbox : ((s.setInbox r.port r.rest).keepOwn resolver).inbox = _ :=
    congrArg inbox (keepOwn_setInbox s r.port r.rest)
  simp only [keepOwn, setInbox] at hinbox
  simp only [keepOwn, receive, setInbox, hinbox]

theorem read_keepOwn {id : ℕ} {r : UdpRead} (h : s.read id = some r)
    (hown : r.datagram.source = resolver) :
    (s.keepOwn resolver).read id =
      some { r with rest := r.rest.filter fun d => d.source = resolver } := by
  obtain ⟨handler, hhandler, h⟩ := Option.bind_eq_some_iff.mp h
  obtain ⟨session, hsession, h⟩ := Option.bind_eq_some_iff.mp h
  split at h
  next datagram rest hinbox =>
    obtain rfl := Option.some.inj h
    have hfilter : (s.keepOwn resolver).inbox session.upstream =
        datagram :: rest.filter fun d => d.source = resolver := by
      simp only [keepOwn, hinbox]
      exact List.filter_cons_of_pos (by simpa using hown)
    simp only [read, keepOwn, hhandler, hsession, Option.bind_some] at hfilter ⊢
    rw [hfilter]
  next => contradiction

theorem sockets_keepOwn (h : s.sockets event = some net)
    (hown : ∀ delivered d, s.Reads (.relay event) delivered d → d.source = resolver) :
    (s.keepOwn resolver).sockets event = some (net.keepOwn resolver) := by
  rcases sockets_cases h with ⟨id, data, delivered, r, rfl, hread, hdata, rfl⟩ |
    ⟨-, ⟨rfl, hsame⟩ | ⟨id, port, rfl, hopen, rfl⟩⟩
  · have hkeep := read_keepOwn hread (hown delivered _ (.response hread data delivered))
    simp only [sockets, hkeep, if_pos hdata, keepOwn_receive]
  · exact hsame _
  · rw [keepOwn_setInbox]
    exact if_neg hopen

/-- Without the waiting datagrams of third parties the relay takes the same step, and the arrival
of one is no step at all. -/
theorem Step.keepOwn (h : Step dnsUpstream s e t) (hreads : s.ReadsOnly resolver e) :
    (e.2.isOwn resolver → Step dnsUpstream (s.keepOwn resolver) e (t.keepOwn resolver)) ∧
      (¬ e.2.isOwn resolver → t.keepOwn resolver = s.keepOwn resolver) := by
  obtain ⟨now, ev⟩ := e
  rcases h.cases with ⟨port, d, rfl, rfl⟩ | ⟨event, net, relay, rfl, hnet, hrelay, rfl⟩
  · have hafter : (if s.relay.IsOpen port then s.setInbox port (s.inbox port ++ [d])
        else s).keepOwn resolver = if s.relay.IsOpen port then (s.keepOwn resolver).setInbox port
          ((s.keepOwn resolver).inbox port ++ [d].filter fun d => d.source = resolver)
        else s.keepOwn resolver := by
      split_ifs
      · rw [keepOwn_setInbox, List.filter_append]
        rfl
      · rfl
    rw [hafter]
    constructor
    · intro hown
      have hd : decide (d.source = resolver) = true := hown
      rw [List.filter_cons, if_pos hd]
      rfl
    · intro hthird
      have hd : ¬ decide (d.source = resolver) = true := hthird
      rw [List.filter_cons, if_neg hd, List.filter_nil, List.append_nil]
      split_ifs
      · simp [setInbox]
      · rfl
  · refine ⟨fun _ => ?_, fun hthird => absurd rfl hthird⟩
    have hsockets := sockets_keepOwn hnet hreads
    simp only [Step, apply]
    rw [show (s.keepOwn resolver).relay = s.relay from rfl, hrelay, Option.bind_some, hsockets]
    rfl

/-- Where every read takes a datagram of the resolver, the run without the datagrams of third
parties is a run too, and nothing but what waits at the sockets differs. -/
theorem run_keepOwn (h : Run (Step dnsUpstream) s es t)
    (hreads : ∀ before e after u, es = before ++ e :: after → Run (Step dnsUpstream) s before u →
      u.ReadsOnly resolver e) :
    Run (Step dnsUpstream) (s.keepOwn resolver) (es.filter fun e => e.2.isOwn resolver)
      (t.keepOwn resolver) := by
  induction h with
  | nil => exact .nil _
  | @cons s u t e es head tail ih =>
    obtain ⟨hown, hthird⟩ := head.keepOwn (hreads [] e es s rfl (.nil s))
    have hrest := ih fun before e' after v has hv =>
      hreads (e :: before) e' after v (by rw [has]; rfl) (.cons head hv)
    by_cases he : e.2.isOwn resolver
    · rw [List.filter_cons, if_pos he]
      exact .cons (hown he) hrest
    · rw [List.filter_cons, if_neg he, ← hthird he]
      exact hrest

/-- What was relayed is what the clients got, sender and all. -/
def Replied (s : UdpNet) : Prop := s.relay.replies = s.relayed.map fun r => (r.1, r.2.data)

theorem client_of_read {id : ℕ} {r : UdpRead} (h : s.read id = some r) :
    ∃ handler, s.relay.reading id = some handler ∧ handler.clientAddr = r.client := by
  obtain ⟨handler, hhandler, h⟩ := Option.bind_eq_some_iff.mp h
  obtain ⟨session, -, h⟩ := Option.bind_eq_some_iff.mp h
  split at h
  next =>
    obtain rfl := Option.some.inj h
    exact ⟨handler, hhandler, rfl⟩
  next => contradiction

theorem Step.replied (h : Step dnsUpstream s e t) (hs : s.Replied) : t.Replied := by
  rcases h.cases with ⟨port, d, -, rfl⟩ | ⟨event, net, relay, he, hnet, hrelay, rfl⟩
  · split_ifs
    · exact hs
    · exact hs
  have hreplies := UdpRelay.Step.replies (e := (e.1, event)) hrelay
  unfold Replied at hs ⊢
  rcases sockets_cases hnet with ⟨id, data, delivered, r, rfl, hread, rfl, rfl⟩ | ⟨hno, hnet⟩
  · obtain ⟨handler, hhandler, hclient⟩ := client_of_read hread
    rcases hreplies with ⟨_, _, handler', heq, hhandler', hnew⟩ | ⟨hno, hsame⟩
    · obtain ⟨rfl, rfl, rfl⟩ : id = _ ∧ r.datagram.data = _ ∧ delivered = true := by
        simpa using heq
      obtain rfl := Option.some.inj (hhandler.symm.trans hhandler')
      simp [hnew, hs, receive, hclient]
    · cases delivered with
      | true => exact absurd rfl (hno id _)
      | false => simp [hsame, hs, receive, setInbox]
  · rcases hreplies with ⟨_, _, _, heq, -⟩ | ⟨-, hsame⟩
    · exact absurd heq (hno _ _ _)
    · rcases hnet with ⟨rfl, -⟩ | ⟨-, -, -, -, rfl⟩ <;> simpa [hsame, setInbox] using hs

/-- Everything relayed in a run was sent by the resolver exactly if every delivered read took a
datagram of the resolver. If every read does, the run without the third parties gives the clients
the same replies; and every read does where no third party sends to an open socket. -/
theorem relays_only_resolver_iff (resolver : SocketAddr) (h : Run (Step dnsUpstream) start es t) :
    t.Replied ∧
    ((∀ before after u, es = before ++ after → Run (Step dnsUpstream) start before u →
        u.RelaysOnly resolver) ↔
      ∀ before e after u, es = before ++ e :: after → Run (Step dnsUpstream) start before u →
        u.HandsOverOnly resolver e) ∧
    ((∀ before e after u, es = before ++ e :: after → Run (Step dnsUpstream) start before u →
        u.ReadsOnly resolver e) →
      ∃ t', Run (Step dnsUpstream) start (es.filter fun e => e.2.isOwn resolver) t' ∧
        t'.relay = t.relay ∧ t'.relayed = t.relayed) ∧
    ((∀ before e after u, es = before ++ e :: after → Run (Step dnsUpstream) start before u →
        u.AdmitsOnly resolver e) →
      ∀ before e after u, es = before ++ e :: after → Run (Step dnsUpstream) start before u →
        u.ReadsOnly resolver e) := by
  have hunique : ∀ (s : UdpNet) e t u, Step dnsUpstream s e t → Step dnsUpstream s e u → t = u :=
    fun _ _ _ _ ht hu => ht.unique hu
  refine ⟨h.invariant (fun _ _ _ hs hstep => hstep.replied hs) rfl, ?_, fun hreads => ?_,
    fun hadmits before e after u hes hu => ?_⟩
  · have hgood : ∀ (s : UdpNet) e t, True → s.RelaysOnly resolver → Step dnsUpstream s e t →
        (t.RelaysOnly resolver ↔ s.HandsOverOnly resolver e) :=
      fun _ _ _ _ hs hstep => relaysOnly_step_iff hs hstep
    exact h.forall_good_iff hunique (fun _ _ _ _ _ => trivial) hgood trivial nofun
  · exact ⟨_, run_keepOwn h hreads, rfl, rfl⟩
  · have hguarded := h.guarded hadmits
    obtain ⟨u', hu', -⟩ := run_append.mp (hes ▸ hguarded)
    obtain rfl := hu'.unguarded.unique hunique hu
    have hholds : u'.HoldsOnly resolver :=
      hu'.invariant (fun s e t hs hstep => hs.step hstep.2 hstep.1) nofun
    exact readsOnly_of_holdsOnly hholds e

private def resolverAddr : SocketAddr := ⟨.v4 168627457, 53⟩

private def thirdParty : SocketAddr := ⟨.v4 3405803777, 53⟩

private def querying : SocketAddr := ⟨.v4 167772162, 40000⟩

/-- A first packet up to the wait for its answer; the datagrams arrive as soon as the socket is
bound. -/
private def queryWith (arrivals : List Datagram) : List (Instant × UdpNetEvent) :=
  [(0, .relay (.recvFrom 0 querying [1])), (0, .relay (.request (some 0))),
    (0, .relay (.acquire (some 0))), (0, .relay (.lookUp 0)),
    (0, .relay (.bind 0 (some 50000)))] ++
  arrivals.map (fun d => (0, .arrive 50000 d)) ++
  [(0, .relay (.request (some 0))), (0, .relay (.acquire (some 0))), (0, .relay (.insert 0)),
    (0, .relay (.request (some 0))), (0, .relay (.acquire (some 0))),
    (0, .relay (.sendTo 0 true)), (1, .arrive 50000 ⟨resolverAddr, [7]⟩)]

private def answered (arrivals : List Datagram) (data : Bytes) : List (Instant × UdpNetEvent) :=
  queryWith arrivals ++ [(1, .relay (.answer 0 (.response data true)))]

private theorem exists_run_answered : ∃ t, Run (Step "10.13.13.1:53") start (answered [] [7]) t ∧
    t.relayed = [(querying, ⟨resolverAddr, [7]⟩)] ∧ t.relay.replies = [(querying, [7])] := by
  have hexec : ∃ t, exec (fun s e => apply "10.13.13.1:53" e.1 s e.2) start (answered [] [7]) =
      some t ∧ t.relayed = [(querying, ⟨resolverAddr, [7]⟩)] ∧
        t.relay.replies = [(querying, [7])] := ⟨_, rfl, rfl, rfl⟩
  obtain ⟨t, hexec, ht⟩ := hexec
  exact ⟨t, run_of_apply hexec, ht⟩

/-- A query and its answer, with no third party about. -/
theorem relays_only_resolver_alone :
    ∃ t, Run (Step "10.13.13.1:53") start (answered [] [7]) t ∧
      t.relayed = [(querying, ⟨resolverAddr, [7]⟩)] ∧ t.RelaysOnly resolverAddr := by
  obtain ⟨t, h, hrelayed, -⟩ := exists_run_answered
  have hown : ∀ e ∈ answered [] [7], ∀ port d, e.2 = .arrive port d → d.source = resolverAddr := by
    simp [answered, queryWith]
  obtain ⟨-, hiff, -, hreads⟩ := relays_only_resolver_iff resolverAddr h
  have hreads' := hreads fun before e after u hes _ port d harrive _ =>
    hown e (by rw [hes]; simp) port d harrive
  refine ⟨t, h, hrelayed, hiff.mpr ?_ _ [] t (List.append_nil _).symm h⟩
  exact fun before e after u hes hu d hd => hreads' before e after u hes hu true d hd

/-- What a third party sends before the query goes out is the answer that the client gets, in
the place of the resolver's. -/
theorem third_party_relayed : ∃ t t',
    Run (Step "10.13.13.1:53") start (answered [⟨thirdParty, [6]⟩] [6]) t ∧
      ¬ t.RelaysOnly resolverAddr ∧ t.relay.replies = [(querying, [6])] ∧
    Run (Step "10.13.13.1:53") start (answered [] [7]) t' ∧
      t'.relay.replies = [(querying, [7])] := by
  have hexec : ∃ t, exec (fun s e => apply "10.13.13.1:53" e.1 s e.2) start
      (answered [⟨thirdParty, [6]⟩] [6]) = some t ∧
        t.relayed = [(querying, ⟨thirdParty, [6]⟩)] ∧ t.relay.replies = [(querying, [6])] :=
    ⟨_, rfl, rfl, rfl⟩
  obtain ⟨t, hexec, hrelayed, hreplies⟩ := hexec
  obtain ⟨t', h', -, hreplies'⟩ := exists_run_answered
  refine ⟨t, t', run_of_apply hexec, fun honly => ?_, hreplies, h', hreplies'⟩
  have hmem : (querying, ⟨thirdParty, [6]⟩) ∈ t.relayed := by
    rw [hrelayed]
    exact List.mem_singleton_self _
  exact absurd (honly _ hmem) (by decide)

end UdpNet

end VpnGateway
