import VpnGateway.Core.Locks
import VpnGateway.Core.Runs
import VpnGateway.Core.Wire
import VpnGateway.Pool.StickySessions

/-! The UDP relay: a task for every packet, and one table of sessions behind a fair lock that all
tasks share. -/
namespace VpnGateway

open Locks Wire

structure UdpSession where
  /-- The local port of the socket. -/
  upstream : UInt16
  lastActivity : Instant
  deriving DecidableEq

def maxUdpTasks : ℕ := 1000

/-- Both ways lead to the same address. -/
def detectUpstream (data : Bytes) (dnsUpstream : String) : String :=
  match data with
  | _ :: _ :: high :: low :: _ =>
    let flags := fromBe16 high low
    let qr := flags >>> 15 &&& 1
    let opcode := flags >>> 11 &&& 15
    if 12 < data.length ∧ qr = 0 ∧ opcode = 0 then dnsUpstream else dnsUpstream
  | _ => dnsUpstream

@[simp] theorem detectUpstream_eq (data : Bytes) (dnsUpstream : String) :
    detectUpstream data dnsUpstream = dnsUpstream := by
  unfold detectUpstream
  split
  · exact ite_self _
  · rfl

/-- What a call of `handle_udp_packet` does next. Two calls from one address may both bind. -/
inductive UdpStage where
  | lookUp
  | bind
  | insert (upstream : UInt16)
  | send
  /-- The query is out, and the read guard is held until its answer or the timeout. -/
  | await
  | touch
  deriving DecidableEq

/-- The access to the table that the stage begins with; `await` goes on with the guard of `send`. -/
def UdpStage.access : UdpStage → Option Access
  | lookUp | send => some .read
  | insert _ | touch => some .write
  | bind | await => none

structure UdpHandler where
  clientAddr : SocketAddr
  data : Bytes
  stage : UdpStage
  deriving DecidableEq

/-- How the wait for the upstream ends. -/
inductive UdpAnswer where
  | response (data : Bytes) (delivered : Bool)
  | error
  | timeout
  deriving DecidableEq

/-- The tasks of the relay are its handlers by number and, as `none`, `cleanup_sessions`. -/
inductive UdpEvent where
  | recvFrom (id : ℕ) (clientAddr : SocketAddr) (data : Bytes)
  | request (task : Option ℕ)
  | acquire (task : Option ℕ)
  | lookUp (id : ℕ)
  | bind (id : ℕ) (upstream : Option UInt16)
  | insert (id : ℕ)
  | sendTo (id : ℕ) (ok : Bool)
  | noSession (id : ℕ)
  | answer (id : ℕ) (answer : UdpAnswer)
  | touch (id : ℕ)
  | cleanupSessions
  deriving DecidableEq

structure UdpRelay where
  sessions : FinMap SocketAddr UdpSession
  lock : RwLock (Option ℕ)
  handlers : FinMap ℕ UdpHandler
  /-- The queries that went out: the local port, the destination, the packet. -/
  queries : List (UInt16 × String × Bytes)
  replies : List (SocketAddr × Bytes)

namespace UdpRelay

def start : UdpRelay := ⟨.empty, .free, .empty, [], []⟩

def access (s : UdpRelay) : Option ℕ → Option Access
  | none => some .write
  | some id => (s.handlers.get id).bind fun h => h.stage.access

def reading (s : UdpRelay) (id : ℕ) : Option UdpHandler :=
  if some id ∈ s.lock.readers then s.handlers.get id else none

def writing (s : UdpRelay) (id : ℕ) : Option UdpHandler :=
  if s.lock.writer = some (some id) then s.handlers.get id else none

def unlock (s : UdpRelay) (task : Option ℕ) : UdpRelay := { s with lock := s.lock.release task }

def move (s : UdpRelay) (id : ℕ) (stage : UdpStage) : UdpRelay :=
  { s with handlers := s.handlers.modify id fun h => { h with stage := stage } }

/-- The task ends and gives its permit back. -/
def finish (s : UdpRelay) (id : ℕ) : UdpRelay := { s with handlers := s.handlers.remove id }

/-- The state after one event; `none` where the event cannot happen. -/
def apply (dnsUpstream : String) (now : Instant) (s : UdpRelay) : UdpEvent → Option UdpRelay
  | .recvFrom id clientAddr data =>
    if id ∈ s.handlers then none
    else if s.handlers.len < maxUdpTasks then
      some { s with handlers := s.handlers.insert id ⟨clientAddr, data, .lookUp⟩ }
    else some s
  | .request task =>
    if s.lock.Engaged task then none
    else (s.access task).map fun access => { s with lock := s.lock.request task access }
  | .acquire task => (s.lock.acquire task).map fun lock => { s with lock := lock }
  | .lookUp id =>
    match s.reading id with
    | some ⟨clientAddr, _, .lookUp⟩ =>
      some ((s.unlock (some id)).move id (if clientAddr ∈ s.sessions then .send else .bind))
    | _ => none
  | .bind id upstream =>
    match s.handlers.get id with
    | some ⟨_, _, .bind⟩ =>
      some (match upstream with
        | some upstream => s.move id (.insert upstream)
        | none => s.finish id)
    | _ => none
  | .insert id =>
    match s.writing id with
    | some ⟨clientAddr, _, .insert upstream⟩ =>
      some (({ s with sessions := s.sessions.insert clientAddr ⟨upstream, now⟩ }.unlock
        (some id)).move id .send)
    | _ => none
  | .sendTo id ok =>
    match s.reading id with
    | some ⟨clientAddr, data, .send⟩ =>
      (s.sessions.get clientAddr).map fun session =>
        if ok then
          let query := (session.upstream, detectUpstream data dnsUpstream, data)
          { s with queries := query :: s.queries }.move id .await
        else (s.unlock (some id)).finish id
    | _ => none
  | .noSession id =>
    match s.reading id with
    | some ⟨clientAddr, _, .send⟩ =>
      if clientAddr ∈ s.sessions then none else some ((s.unlock (some id)).move id .touch)
    | _ => none
  | .answer id answer =>
    match s.reading id with
    | some ⟨clientAddr, _, .await⟩ =>
      some (match answer with
        | .response data true =>
          ({ s with replies := (clientAddr, data) :: s.replies }.unlock (some id)).move id .touch
        | .response _ false => (s.unlock (some id)).finish id
        | .error | .timeout => (s.unlock (some id)).move id .touch)
    | _ => none
  | .touch id =>
    match s.writing id with
    | some ⟨clientAddr, _, .touch⟩ =>
      some (({ s with sessions := s.sessions.modify clientAddr fun session =>
        { session with lastActivity := now } }.unlock (some id)).finish id)
    | _ => none
  | .cleanupSessions =>
    if s.lock.writer = some none then
      some ({ s with sessions := s.sessions.retain fun session =>
        now - session.lastActivity < fromSecs 300 }.unlock none)
    else none

/-- One event at some time. -/
def Step (dnsUpstream : String) (s : UdpRelay) (e : Instant × UdpEvent) (t : UdpRelay) : Prop :=
  s.apply dnsUpstream e.1 e.2 = some t

def stageOf (s : UdpRelay) (id : ℕ) : Option UdpStage := (s.handlers.get id).map (·.stage)

/-- The handler waits for the upstream, with the read guard in its hands. -/
def Awaits (s : UdpRelay) (id : ℕ) : Prop :=
  s.stageOf id = some .await ∧ some id ∈ s.lock.readers

/-- The wait of the handler does not end, in whatever way, during these events. -/
def Unanswered (id : ℕ) (es : List (Instant × UdpEvent)) : Prop :=
  ∀ e ∈ es, ∀ answer, e.2 ≠ .answer id answer

/-- Some handler of a packet from the address can get to its send without the wait of `id`
having ended. -/
def CanSend (dnsUpstream : String) (s : UdpRelay) (id : ℕ) (clientAddr : SocketAddr) : Prop :=
  ∃ es t e j ok h u, Runs.Run (Step dnsUpstream) s es t ∧ Unanswered id es ∧
    e.2 = .sendTo j ok ∧ Step dnsUpstream t e u ∧
    t.handlers.get j = some h ∧ h.clientAddr = clientAddr

variable {dnsUpstream : String} {s t : UdpRelay} {e : Instant × UdpEvent} {id j : ℕ}
  {clientAddr : SocketAddr}

theorem stageOf_move (s : UdpRelay) (id j : ℕ) (stage : UdpStage) :
    (s.move id stage).stageOf j =
      if j = id then (s.stageOf j).map fun _ => stage else s.stageOf j := by
  simp only [stageOf, move, FinMap.get_modify]
  split <;> simp [Function.comp_def]

theorem stageOf_finish (s : UdpRelay) (id j : ℕ) :
    (s.finish id).stageOf j = if j = id then none else s.stageOf j := by
  simp only [stageOf, finish, FinMap.get_remove]
  split <;> rfl

theorem reading_eq_some {h : UdpHandler} (hr : s.reading id = some h) :
    some id ∈ s.lock.readers ∧ s.handlers.get id = some h := by
  unfold reading at hr
  split_ifs at hr with hmem
  exact ⟨hmem, hr⟩

theorem writing_eq_some {h : UdpHandler} (hw : s.writing id = some h) :
    s.lock.writer = some (some id) := by
  unfold writing at hw
  split_ifs at hw with hmem
  exact hmem

namespace Awaits

theorem ne_of_get {h : UdpHandler} (ha : s.Awaits id) (hj : s.handlers.get j = some h)
    (hstage : h.stage ≠ .await) : id ≠ j := by
  rintro rfl
  have hawait : some h.stage = some .await := by rw [← ha.1, stageOf, hj, Option.map_some]
  exact hstage (Option.some.inj hawait)

theorem move (ha : s.Awaits id) (hne : id ≠ j) (stage : UdpStage) : (s.move j stage).Awaits id :=
  ⟨by rw [stageOf_move, if_neg hne, ha.1], ha.2⟩

theorem finish (ha : s.Awaits id) (hne : id ≠ j) : (s.finish j).Awaits id :=
  ⟨by rw [stageOf_finish, if_neg hne, ha.1], ha.2⟩

theorem unlock (ha : s.Awaits id) (hne : id ≠ j) : (s.unlock (some j)).Awaits id :=
  ⟨ha.1, RwLock.mem_readers_release ha.2 (by simpa using hne)⟩

end Awaits

/-- While a handler waits, nobody writes the table: every step but the answer keeps both. -/
theorem Step.awaits (h : Step dnsUpstream s e t) (ha : s.Awaits id)
    (he : ∀ answer, e.2 ≠ .answer id answer) : t.Awaits id ∧ t.sessions = s.sessions := by
  have hwriter : s.lock.writer = none := RwLock.writer_eq_none ha.2
  obtain ⟨now, event⟩ := e
  simp only [Step] at h
  cases event with
  | recvFrom j client data =>
    simp only [apply] at h
    split_ifs at h with hj <;> obtain rfl := Option.some.inj h
    · refine ⟨⟨?_, ha.2⟩, rfl⟩
      have hne : id ≠ j := by
        rintro rfl
        obtain ⟨handler, hget, -⟩ := Option.map_eq_some_iff.mp ha.1
        exact hj (FinMap.mem_of_get hget)
      simpa [stageOf, FinMap.get_insert_of_ne _ _ hne] using ha.1
    · exact ⟨ha, rfl⟩
  | request task =>
    simp only [apply] at h
    split_ifs at h
    obtain ⟨access, -, rfl⟩ := Option.map_eq_some_iff.mp h
    exact ⟨ha, rfl⟩
  | acquire task =>
    obtain ⟨lock, hlock, rfl⟩ := Option.map_eq_some_iff.mp h
    exact ⟨⟨ha.1, RwLock.mem_readers_acquire hlock ha.2⟩, rfl⟩
  | lookUp j =>
    simp only [apply] at h
    split at h
    next hj =>
      obtain rfl := Option.some.inj h
      have hne := ha.ne_of_get (reading_eq_some hj).2 (by simp)
      exact ⟨(ha.unlock hne).move hne _, rfl⟩
    next => contradiction
  | bind j upstream =>
    simp only [apply] at h
    split at h
    next hj =>
      obtain rfl := Option.some.inj h
      have hne := ha.ne_of_get hj (by simp)
      cases upstream with
      | none => exact ⟨ha.finish hne, rfl⟩
      | some upstream => exact ⟨ha.move hne _, rfl⟩
    next => contradiction
  | insert j =>
    simp only [apply] at h
    split at h
    next hj => rw [writing_eq_some hj] at hwriter; contradiction
    next => contradiction
  | sendTo j ok =>
    simp only [apply] at h
    split at h
    next hj =>
      obtain ⟨session, -, rfl⟩ := Option.map_eq_some_iff.mp h
      have hne := ha.ne_of_get (reading_eq_some hj).2 (by simp)
      cases ok with
      | false => exact ⟨(ha.unlock hne).finish hne, rfl⟩
      | true => exact ⟨Awaits.move (s := { s with queries := _ }) ha hne _, rfl⟩
    next => contradiction
  | noSession j =>
    simp only [apply] at h
    split at h
    next hj =>
      split_ifs at h
      obtain rfl := Option.some.inj h
      have hne := ha.ne_of_get (reading_eq_some hj).2 (by simp)
      exact ⟨(ha.unlock hne).move hne _, rfl⟩
    next => contradiction
  | answer j answer =>
    have hne : id ≠ j := fun heq => he answer (by rw [heq])
    simp only [apply] at h
    split at h
    next =>
      obtain rfl := Option.some.inj h
      cases answer with
      | response data delivered =>
        cases delivered with
        | false => exact ⟨(ha.unlock hne).finish hne, rfl⟩
        | true =>
          have hunlock := Awaits.unlock (s := { s with replies := _ }) ha hne
          exact ⟨hunlock.move hne _, rfl⟩
      | error => exact ⟨(ha.unlock hne).move hne _, rfl⟩
      | timeout => exact ⟨(ha.unlock hne).move hne _, rfl⟩
    next => contradiction
  | touch j =>
    simp only [apply] at h
    split at h
    next hj => rw [writing_eq_some hj] at hwriter; contradiction
    next => contradiction
  | cleanupSessions =>
    simp only [apply] at h
    split_ifs at h with hw
    rw [hw] at hwriter
    contradiction

theorem of_stageOf_move {stage : UdpStage} (hstage : stage ≠ .await)
    (h : (s.move j stage).stageOf id = some .await) : id ≠ j ∧ s.stageOf id = some .await := by
  rw [stageOf_move] at h
  split_ifs at h with hid
  · obtain ⟨_, -, heq⟩ := Option.map_eq_some_iff.mp h
    exact absurd heq hstage
  · exact ⟨hid, h⟩

theorem of_stageOf_finish (h : (s.finish j).stageOf id = some .await) :
    id ≠ j ∧ s.stageOf id = some .await := by
  rw [stageOf_finish] at h
  split_ifs at h with hid
  exact ⟨hid, h⟩

/-- Only a send begins a wait, and only an answer ends it. -/
theorem Step.stageOf_await (h : Step dnsUpstream s e t) (ht : t.stageOf id = some .await) :
    e.2 = .sendTo id true ∧ some id ∈ t.lock.readers ∨
      s.stageOf id = some .await ∧ ∀ answer, e.2 ≠ .answer id answer := by
  obtain ⟨now, event⟩ := e
  simp only [Step] at h
  cases event with
  | recvFrom j client data =>
    simp only [apply] at h
    split_ifs at h with hj <;> obtain rfl := Option.some.inj h
    · by_cases hid : id = j
      · subst hid
        simp [stageOf] at ht
      · exact .inr ⟨by simpa [stageOf, FinMap.get_insert_of_ne _ _ hid] using ht, nofun⟩
    · exact .inr ⟨ht, nofun⟩
  | request task =>
    simp only [apply] at h
    split_ifs at h
    obtain ⟨access, -, rfl⟩ := Option.map_eq_some_iff.mp h
    exact .inr ⟨ht, nofun⟩
  | acquire task =>
    obtain ⟨lock, -, rfl⟩ := Option.map_eq_some_iff.mp h
    exact .inr ⟨ht, nofun⟩
  | lookUp j =>
    simp only [apply] at h
    split at h
    next =>
      obtain rfl := Option.some.inj h
      exact .inr ⟨(of_stageOf_move (by split <;> simp) ht).2, nofun⟩
    next => contradiction
  | bind j upstream =>
    simp only [apply] at h
    split at h
    next =>
      obtain rfl := Option.some.inj h
      cases upstream with
      | none => exact .inr ⟨(of_stageOf_finish ht).2, nofun⟩
      | some upstream => exact .inr ⟨(of_stageOf_move (by simp) ht).2, nofun⟩
    next => contradiction
  | insert j =>
    simp only [apply] at h
    split at h
    next =>
      obtain rfl := Option.some.inj h
      exact .inr ⟨(of_stageOf_move (by simp) ht).2, nofun⟩
    next => contradiction
  | sendTo j ok =>
    simp only [apply] at h
    split at h
    next hj =>
      obtain ⟨session, -, rfl⟩ := Option.map_eq_some_iff.mp h
      cases ok with
      | false => exact .inr ⟨(of_stageOf_finish ht).2, nofun⟩
      | true =>
        by_cases hid : id = j
        · subst hid
          exact .inl ⟨rfl, (reading_eq_some hj).1⟩
        · rw [if_pos rfl, stageOf_move, if_neg hid] at ht
          exact .inr ⟨ht, nofun⟩
    next => contradiction
  | noSession j =>
    simp only [apply] at h
    split at h
    next =>
      split_ifs at h
      obtain rfl := Option.some.inj h
      exact .inr ⟨(of_stageOf_move (by simp) ht).2, nofun⟩
    next => contradiction
  | answer j answer =>
    simp only [apply] at h
    split at h
    next =>
      obtain rfl := Option.some.inj h
      have hid : id ≠ j ∧ s.stageOf id = some .await := by
        cases answer with
        | response data delivered =>
          cases delivered with
          | false => exact of_stageOf_finish ht
          | true => exact of_stageOf_move (by simp) ht
        | error => exact of_stageOf_move (by simp) ht
        | timeout => exact of_stageOf_move (by simp) ht
      exact .inr ⟨hid.2, fun _ heq => hid.1 (UdpEvent.answer.inj heq).1.symm⟩
    next => contradiction
  | touch j =>
    simp only [apply] at h
    split at h
    next =>
      obtain rfl := Option.some.inj h
      exact .inr ⟨(of_stageOf_finish ht).2, nofun⟩
    next => contradiction
  | cleanupSessions =>
    simp only [apply] at h
    split_ifs at h
    obtain rfl := Option.some.inj h
    exact .inr ⟨ht, nofun⟩

/-- Every handler that waits for its upstream holds the read guard. -/
def Guards (s : UdpRelay) : Prop := ∀ id, s.stageOf id = some .await → s.Awaits id

theorem guards_start : start.Guards := nofun

theorem Step.guards (h : Step dnsUpstream s e t) (hs : s.Guards) : t.Guards := by
  intro id ht
  obtain ⟨-, hmem⟩ | ⟨hawait, he⟩ := h.stageOf_await ht
  · exact ⟨ht, hmem⟩
  · exact (h.awaits (hs id hawait) he).1

theorem guards_of_reachable (hs : Runs.Reachable (Step dnsUpstream) start s) : s.Guards :=
  hs.invariant (fun _ _ _ hs h => Step.guards h hs) guards_start

/-- As long as the wait of a handler lasts, the sessions are the ones it began with. -/
theorem Awaits.run {es : List (Instant × UdpEvent)} (h : Runs.Run (Step dnsUpstream) s es t)
    (ha : s.Awaits id) (he : Unanswered id es) : t.sessions = s.sessions := by
  induction h with
  | nil => rfl
  | cons head _ ih =>
    obtain ⟨he, hes⟩ := List.forall_mem_cons.mp he
    obtain ⟨ha', hsessions⟩ := head.awaits ha he
    rw [ih ha' hes, hsessions]

/-- A query goes out over the session of its client. -/
theorem Step.mem_sessions_of_sendTo {ok : Bool} {h : UdpHandler} (hstep : Step dnsUpstream s e t)
    (he : e.2 = .sendTo j ok) (hj : s.handlers.get j = some h) : h.clientAddr ∈ s.sessions := by
  simp only [Step, he, apply] at hstep
  split at hstep
  next hread =>
    obtain ⟨session, hsession, -⟩ := Option.map_eq_some_iff.mp hstep
    rw [(reading_eq_some hread).2, Option.some.injEq] at hj
    exact hj ▸ FinMap.mem_of_get hsession
  next => contradiction

theorem Awaits.not_canSend (ha : s.Awaits id) (hnew : clientAddr ∉ s.sessions) :
    ¬ s.CanSend dnsUpstream id clientAddr := by
  rintro ⟨es, t, e, j, ok, h, u, hrun, hes, he, hsend, hj, rfl⟩
  rw [← ha.run hrun hes] at hnew
  exact hnew (hsend.mem_sessions_of_sendTo he hj)

/-- Wherever a handler waits for its upstream, no packet of a client that has no session yet can
get to its send before that wait is over. -/
theorem newcomer_cannot_send (hs : Runs.Reachable (Step dnsUpstream) start s)
    (hawait : s.stageOf id = some .await) (hnew : clientAddr ∉ s.sessions) :
    ¬ s.CanSend dnsUpstream id clientAddr :=
  (guards_of_reachable hs id hawait).not_canSend hnew

private def resolver : String := "10.13.13.1:53"

private def asking : SocketAddr := ⟨.v4 167772162, 40000⟩

private def newcomer : SocketAddr := ⟨.v4 167772163, 40000⟩

/-- A first packet up to the wait for its answer, and a packet of another client behind it. -/
private def slowQuery : List (Instant × UdpEvent) :=
  [(0, .recvFrom 0 asking [1]), (0, .request (some 0)), (0, .acquire (some 0)), (0, .lookUp 0),
    (0, .bind 0 (some 50000)), (0, .request (some 0)), (0, .acquire (some 0)), (0, .insert 0),
    (0, .request (some 0)), (0, .acquire (some 0)), (0, .sendTo 0 true),
    (1, .recvFrom 1 newcomer [2])]

private theorem slowQuery_awaits : ∃ s, Runs.Reachable (Step resolver) start s ∧
    s.stageOf 0 = some .await ∧ newcomer ∉ s.sessions := by
  have hrun : ∃ s, Runs.exec (fun s e => apply resolver e.1 s e.2) start slowQuery = some s ∧
      s.stageOf 0 = some .await ∧ newcomer ∉ s.sessions := ⟨_, rfl, rfl, by decide⟩
  obtain ⟨s, hexec, hs⟩ := hrun
  have hall : ∀ e ∈ slowQuery, True := fun _ _ => trivial
  exact ⟨s, ⟨slowQuery, Runs.run_of_exec (fun _ _ _ _ h => h) hall hexec⟩, hs⟩

theorem newcomer_cannot_send_slow : ∃ s, Runs.Reachable (Step resolver) start s ∧
    s.stageOf 0 = some .await ∧ ¬ s.CanSend resolver 0 newcomer := by
  obtain ⟨s, hs, hawait, hnew⟩ := slowQuery_awaits
  exact ⟨s, hs, hawait, newcomer_cannot_send hs hawait hnew⟩

/-- One slow answer holds up another client. -/
theorem slow_answer_blocks : ¬ ∀ s id clientAddr, Runs.Reachable (Step resolver) start s →
    s.stageOf id = some .await → clientAddr ∉ s.sessions →
      s.CanSend resolver id clientAddr := by
  intro hall
  obtain ⟨s, hs, hawait, hnew⟩ := slowQuery_awaits
  exact (guards_of_reachable hs 0 hawait).not_canSend hnew (hall s 0 newcomer hs hawait hnew)

end UdpRelay

end VpnGateway
