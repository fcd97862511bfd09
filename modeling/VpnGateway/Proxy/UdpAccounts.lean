import VpnGateway.Core.Totals
import VpnGateway.Proxy.Udp

/-! What goes through the UDP relay against what came in: every query is a packet that a client
sent, sent on once; every reply answers a query of its client; the relay works on a thousand
packets at most. -/
namespace VpnGateway

open Runs Wire

namespace UdpStage

/-- The packet has not been sent on. -/
def unsent : UdpStage → Bool
  | lookUp | bind | insert _ | send => true
  | await | touch => false

/-- The client has not been answered. -/
def unanswered : UdpStage → Bool
  | touch => false
  | _ => true

end UdpStage

namespace UdpRelay

variable {dnsUpstream : String} {s t : UdpRelay} {e : Instant × UdpEvent}

/-- What one event does to the handlers, the queries and the replies. -/
inductive HandlerEffect (dnsUpstream : String) (s : UdpRelay) (e : Instant × UdpEvent)
    (t : UdpRelay) : Prop where
  | kept (hhandlers : t.handlers = s.handlers) (hqueries : t.queries = s.queries)
      (hreplies : t.replies = s.replies)
  | accepted (id : ℕ) (clientAddr : SocketAddr) (data : Bytes)
      (hevent : e.2 = .recvFrom id clientAddr data) (hid : id ∉ s.handlers)
      (hroom : s.handlers.len < maxUdpTasks)
      (hhandlers : t.handlers = s.handlers.insert id ⟨clientAddr, data, .lookUp⟩)
      (hqueries : t.queries = s.queries) (hreplies : t.replies = s.replies)
  | moved (id : ℕ) (h : UdpHandler) (stage : UdpStage) (hget : s.handlers.get id = some h)
      (hunsent : stage.unsent → h.stage.unsent) (hunanswered : h.stage.unanswered)
      (hawait : stage ≠ .await)
      (hhandlers : t.handlers = s.handlers.modify id fun h => { h with stage := stage })
      (hqueries : t.queries = s.queries) (hreplies : t.replies = s.replies)
  | sent (id : ℕ) (h : UdpHandler) (upstream : UInt16) (hget : s.handlers.get id = some h)
      (hstage : h.stage = .send)
      (hhandlers : t.handlers = s.handlers.modify id fun h => { h with stage := .await })
      (hqueries : t.queries = (upstream, dnsUpstream, h.data) :: s.queries)
      (hreplies : t.replies = s.replies)
  | replied (id : ℕ) (h : UdpHandler) (data : Bytes) (hget : s.handlers.get id = some h)
      (hstage : h.stage = .await)
      (hhandlers : t.handlers = s.handlers.modify id fun h => { h with stage := .touch })
      (hqueries : t.queries = s.queries) (hreplies : t.replies = (h.clientAddr, data) :: s.replies)
  | finished (id : ℕ) (h : UdpHandler) (hget : s.handlers.get id = some h)
      (hhandlers : t.handlers = s.handlers.remove id) (hqueries : t.queries = s.queries)
      (hreplies : t.replies = s.replies)

theorem get_of_writing {id : ℕ} {h : UdpHandler} (hw : s.writing id = some h) :
    s.handlers.get id = some h := by
  unfold writing at hw
  split_ifs at hw
  exact hw

theorem Step.handlerEffect (h : Step dnsUpstream s e t) : HandlerEffect dnsUpstream s e t := by
  obtain ⟨now, event⟩ := e
  simp only [Step] at h
  cases event with
  | recvFrom id clientAddr data =>
    simp only [apply] at h
    split_ifs at h with hid hroom <;> obtain rfl := Option.some.inj h
    · exact .accepted id clientAddr data rfl hid hroom rfl rfl rfl
    · exact .kept rfl rfl rfl
  | request task =>
    simp only [apply] at h
    split_ifs at h
    obtain ⟨access, -, rfl⟩ := Option.map_eq_some_iff.mp h
    exact .kept rfl rfl rfl
  | acquire task =>
    obtain ⟨lock, -, rfl⟩ := Option.map_eq_some_iff.mp h
    exact .kept rfl rfl rfl
  | lookUp id =>
    simp only [apply] at h
    split at h
    next hr =>
      obtain rfl := Option.some.inj h
      refine .moved id _ _ (reading_eq_some hr).2 (fun _ => rfl) rfl ?_ rfl rfl rfl
      split <;> simp
    next => contradiction
  | bind id upstream =>
    simp only [apply] at h
    split at h
    next hget =>
      obtain rfl := Option.some.inj h
      cases upstream with
      | none => exact .finished id _ hget rfl rfl rfl
      | some upstream =>
        exact .moved id _ _ hget (fun _ => rfl) rfl (by simp) rfl rfl rfl
    next => contradiction
  | insert id =>
    simp only [apply] at h
    split at h
    next hw =>
      obtain rfl := Option.some.inj h
      exact .moved id _ _ (get_of_writing hw) (fun _ => rfl) rfl (by simp) rfl rfl rfl
    next => contradiction
  | sendTo id ok =>
    simp only [apply] at h
    split at h
    next hr =>
      obtain ⟨session, -, rfl⟩ := Option.map_eq_some_iff.mp h
      cases ok with
      | false => exact .finished id _ (reading_eq_some hr).2 rfl rfl rfl
      | true =>
        refine .sent id _ session.upstream (reading_eq_some hr).2 rfl rfl ?_ rfl
        rw [if_pos rfl, detectUpstream_eq]
        rfl
    next => contradiction
  | noSession id =>
    simp only [apply] at h
    split at h
    next hr =>
      split_ifs at h
      obtain rfl := Option.some.inj h
      exact .moved id _ _ (reading_eq_some hr).2 (fun _ => rfl) rfl (by simp) rfl rfl rfl
    next => contradiction
  | answer id answer =>
    simp only [apply] at h
    split at h
    next hr =>
      obtain rfl := Option.some.inj h
      have hget := (reading_eq_some hr).2
      cases answer with
      | response data delivered =>
        cases delivered with
        | false => exact .finished id _ hget rfl rfl rfl
        | true => exact .replied id _ data hget rfl rfl rfl rfl
      | error =>
        exact .moved id _ .touch hget (absurd · Bool.false_ne_true) rfl (by simp) rfl rfl rfl
      | timeout =>
        exact .moved id _ .touch hget (absurd · Bool.false_ne_true) rfl (by simp) rfl rfl rfl
    next => contradiction
  | touch id =>
    simp only [apply] at h
    split at h
    next hw =>
      obtain rfl := Option.some.inj h
      exact .finished id _ (get_of_writing hw) rfl rfl rfl
    next => contradiction
  | cleanupSessions =>
    simp only [apply] at h
    split_ifs at h
    obtain rfl := Option.some.inj h
    exact .kept rfl rfl rfl

/-- The packet that a client has sent. -/
def received : Instant × UdpEvent → Option (SocketAddr × Bytes)
  | (_, .recvFrom _ clientAddr data) => some (clientAddr, data)
  | _ => none

theorem received_of_recvFrom {e : Instant × UdpEvent} {id : ℕ} {clientAddr : SocketAddr}
    {data : Bytes} (hevent : e.2 = .recvFrom id clientAddr data) :
    received e = some (clientAddr, data) := by
  obtain ⟨now, event⟩ := e
  obtain rfl := hevent
  rfl

/-- The query that the handler still has to send. -/
def toSend (dnsUpstream : String) (h : UdpHandler) : Multiset (String × Bytes) :=
  if h.stage.unsent then {(dnsUpstream, h.data)} else 0

/-- The client that the handler can still answer. -/
def toAnswer (h : UdpHandler) : Multiset SocketAddr :=
  if h.stage.unanswered then {h.clientAddr} else 0

def awaiting (h : UdpHandler) : ℕ := if h.stage = .await then 1 else 0

def sentQueries (s : UdpRelay) : Multiset (String × Bytes) := s.queries.map Prod.snd

def answered (s : UdpRelay) : Multiset SocketAddr := s.replies.map Prod.fst

/-- Of a packet that comes in, one query is to be sent or has been sent. -/
theorem HandlerEffect.queries_le (h : HandlerEffect dnsUpstream s e t) :
    t.sentQueries + t.handlers.total (toSend dnsUpstream) ≤
      s.sentQueries + s.handlers.total (toSend dnsUpstream) +
        (received e).elim 0 fun packet => {(dnsUpstream, packet.2)} := by
  cases h with
  | kept hhandlers hqueries _ =>
    rw [sentQueries, hqueries, hhandlers]
    exact le_self_add
  | accepted id clientAddr data hevent hid _ hhandlers hqueries _ =>
    rw [sentQueries, hqueries, hhandlers, FinMap.total_insert_of_notMem hid,
      received_of_recvFrom hevent, add_left_comm, add_comm]
    exact le_rfl
  | moved id h stage hget hunsent _ _ hhandlers hqueries _ =>
    have hle : toSend dnsUpstream { h with stage := stage } ≤ toSend dnsUpstream h := by
      unfold toSend
      split_ifs with hnew hold
      · exact le_rfl
      · exact absurd (hunsent hnew) hold
      · exact Multiset.zero_le _
      · exact le_rfl
    rw [sentQueries, hqueries, hhandlers]
    exact (add_le_add_right (FinMap.total_modify_le hget hle) _).trans le_self_add
  | sent id h upstream hget hstage hhandlers hqueries _ =>
    have hspent : toSend dnsUpstream h =
        {(dnsUpstream, h.data)} + toSend dnsUpstream { h with stage := .await } := by
      rw [toSend, hstage, UdpStage.unsent, if_pos rfl]
      rfl
    have hqueries' : t.sentQueries = {(dnsUpstream, h.data)} + s.sentQueries := by
      rw [sentQueries, hqueries]
      rfl
    rw [hqueries', hhandlers, FinMap.add_total_modify (g := fun h => { h with stage := .await })
      hget hspent]
    exact le_self_add
  | replied id h data hget hstage hhandlers hqueries _ =>
    have hle : toSend dnsUpstream { h with stage := .touch } ≤ toSend dnsUpstream h :=
      Multiset.zero_le _
    rw [sentQueries, hqueries, hhandlers]
    exact (add_le_add_right (FinMap.total_modify_le hget hle) _).trans le_self_add
  | finished id h hget hhandlers hqueries _ =>
    rw [sentQueries, hqueries, hhandlers]
    exact (add_le_add_right (FinMap.total_remove_le hget (Multiset.zero_le _)) _).trans le_self_add

/-- Of a packet that comes in, one reply is to be sent or has been sent. -/
theorem HandlerEffect.replies_le (h : HandlerEffect dnsUpstream s e t) :
    t.answered + t.handlers.total toAnswer ≤
      s.answered + s.handlers.total toAnswer + (received e).elim 0 fun packet => {packet.1} := by
  cases h with
  | kept hhandlers _ hreplies =>
    rw [answered, hreplies, hhandlers]
    exact le_self_add
  | accepted id clientAddr data hevent hid _ hhandlers _ hreplies =>
    rw [answered, hreplies, hhandlers, FinMap.total_insert_of_notMem hid,
      received_of_recvFrom hevent, add_left_comm, add_comm]
    exact le_rfl
  | moved id h stage hget _ hunanswered _ hhandlers _ hreplies =>
    have hle : toAnswer { h with stage := stage } ≤ toAnswer h := by
      unfold toAnswer
      rw [if_pos hunanswered]
      split_ifs
      · exact le_rfl
      · exact Multiset.zero_le _
    rw [answered, hreplies, hhandlers]
    exact (add_le_add_right (FinMap.total_modify_le hget hle) _).trans le_self_add
  | sent id h upstream hget hstage hhandlers _ hreplies =>
    have hle : toAnswer { h with stage := .await } ≤ toAnswer h := by
      rw [toAnswer, toAnswer, hstage]
      exact le_rfl
    rw [answered, hreplies, hhandlers]
    exact (add_le_add_right (FinMap.total_modify_le hget hle) _).trans le_self_add
  | replied id h data hget hstage hhandlers _ hreplies =>
    have hspent : toAnswer h = {h.clientAddr} + toAnswer { h with stage := .touch } := by
      have hunanswered : UdpStage.await.unanswered = true := rfl
      rw [toAnswer, hstage, if_pos hunanswered]
      rfl
    have hreplies' : t.answered = {h.clientAddr} + s.answered := by
      rw [answered, hreplies]
      rfl
    rw [hreplies', hhandlers, FinMap.add_total_modify (g := fun h => { h with stage := .touch })
      hget hspent]
    exact le_self_add
  | finished id h hget hhandlers _ hreplies =>
    rw [answered, hreplies, hhandlers]
    exact (add_le_add_right (FinMap.total_remove_le hget (Multiset.zero_le _)) _).trans le_self_add

/-- Who has been answered or still waits for an answer has had a query sent. -/
def AnswersQueries (s : UdpRelay) : Prop :=
  s.replies.length + s.handlers.total awaiting ≤ s.queries.length

theorem HandlerEffect.answersQueries (h : HandlerEffect dnsUpstream s e t)
    (hs : s.AnswersQueries) : t.AnswersQueries := by
  unfold AnswersQueries at hs ⊢
  cases h with
  | kept hhandlers hqueries hreplies => rwa [hhandlers, hqueries, hreplies]
  | accepted id clientAddr data hevent hid _ hhandlers hqueries hreplies =>
    have hnew : awaiting ⟨clientAddr, data, .lookUp⟩ = 0 := rfl
    rwa [hhandlers, hqueries, hreplies, FinMap.total_insert_of_notMem hid, hnew, zero_add]
  | moved id h stage hget _ _ hawait hhandlers hqueries hreplies =>
    have hle : awaiting { h with stage := stage } ≤ awaiting h := by
      rw [awaiting, if_neg hawait]
      exact Nat.zero_le _
    have htotal := FinMap.total_modify_le hget (g := fun h => { h with stage := stage }) hle
    rw [hhandlers, hqueries, hreplies]
    omega
  | sent id h upstream hget hstage hhandlers hqueries hreplies =>
    have hmodify := FinMap.total_modify hget (fun h => { h with stage := .await }) awaiting
    have hafter : awaiting { h with stage := .await } = 1 := rfl
    rw [hhandlers, hqueries, hreplies, List.length_cons]
    omega
  | replied id h data hget hstage hhandlers hqueries hreplies =>
    have hmodify := FinMap.total_modify hget (fun h => { h with stage := .touch }) awaiting
    have hbefore : awaiting h = 1 := by rw [awaiting, hstage, if_pos rfl]
    have hafter : awaiting { h with stage := .touch } = 0 := rfl
    rw [hhandlers, hqueries, hreplies, List.length_cons]
    omega
  | finished id h hget hhandlers hqueries hreplies =>
    have htotal := FinMap.total_remove_le hget (Nat.zero_le (awaiting h))
    rw [hhandlers, hqueries, hreplies]
    omega

theorem HandlerEffect.len_le (h : HandlerEffect dnsUpstream s e t)
    (hs : s.handlers.len ≤ maxUdpTasks) : t.handlers.len ≤ maxUdpTasks := by
  cases h with
  | kept hhandlers _ _ => rwa [hhandlers]
  | accepted id clientAddr data _ _ hroom hhandlers _ _ =>
    rw [hhandlers]
    exact (s.handlers.len_insert_le _ _).trans hroom
  | moved id h stage _ _ _ _ hhandlers _ _ => rwa [hhandlers]
  | sent id h upstream _ _ hhandlers _ _ => rwa [hhandlers]
  | replied id h data _ _ hhandlers _ _ => rwa [hhandlers]
  | finished id h _ hhandlers _ _ =>
    rw [hhandlers]
    exact (FinMap.len_le_of_subset fun k hk => (FinMap.mem_remove.mp hk).2).trans hs

theorem len_le_of_run {es : List (Instant × UdpEvent)} (h : Run (Step dnsUpstream) s es t)
    (hs : s.handlers.len ≤ maxUdpTasks) : t.handlers.len ≤ maxUdpTasks := by
  induction h with
  | nil => exact hs
  | cons head _ ih => exact ih (head.handlerEffect.len_le hs)

theorem sums_le_of_run {es : List (Instant × UdpEvent)} (h : Run (Step dnsUpstream) s es t) :
    t.sentQueries + t.handlers.total (toSend dnsUpstream) ≤
        s.sentQueries + s.handlers.total (toSend dnsUpstream) +
          ((es.filterMap received).map fun packet => (dnsUpstream, packet.2)) ∧
      t.answered + t.handlers.total toAnswer ≤
        s.answered + s.handlers.total toAnswer + ((es.filterMap received).map Prod.fst) := by
  induction h with
  | nil => exact ⟨le_self_add, le_self_add⟩
  | @cons s u t e es head _ ih =>
    have heffect := head.handlerEffect
    have hqueries := ih.1.trans (add_le_add_left heffect.queries_le _)
    have hreplies := ih.2.trans (add_le_add_left heffect.replies_le _)
    rw [add_assoc] at hqueries hreplies
    rw [List.filterMap_cons]
    cases hreceived : received e with
    | none =>
      rw [hreceived] at hqueries hreplies
      simpa only [Option.elim_none, zero_add] using And.intro hqueries hreplies
    | some packet =>
      rw [hreceived] at hqueries hreplies
      exact ⟨hqueries, hreplies⟩

def asker : SocketAddr := ⟨.v4 167772162, 40000⟩

/-- Two packets of a new client: the first goes all the way to its reply, the second is sent on. -/
private def twoPackets : List (Instant × UdpEvent) :=
  [(0, .recvFrom 0 asker [1]), (0, .request (some 0)), (0, .acquire (some 0)), (0, .lookUp 0),
    (0, .bind 0 (some 50000)), (0, .recvFrom 1 asker [2]), (0, .request (some 0)),
    (0, .acquire (some 0)), (0, .insert 0), (0, .request (some 0)), (0, .acquire (some 0)),
    (0, .sendTo 0 true), (1, .request (some 1)), (1, .acquire (some 1)), (1, .lookUp 1),
    (1, .answer 0 (.response [7] true)), (1, .request (some 1)), (1, .acquire (some 1)),
    (1, .sendTo 1 true)]

end UdpRelay

end VpnGateway
