import VpnGateway.Pool.SessionExpiry

/-! Lookups and successes of one client at the granularity of single map operations: a lookup that
finds an expired session gives its entry back before it removes by key. -/
namespace VpnGateway

open Runs

/-- What a lookup reads under the guard of the entry. -/
inductive LookUp where
  | missing
  | live (proxyKey : String)
  | expired
  deriving DecidableEq

namespace StickySessionManager

/-- The first map operation of `get`; `none` where the date arithmetic panics. -/
def lookUp (m : StickySessionManager) (now : Clock) (client : SocketAddr) : Option LookUp :=
  match m.sessions.get client with
  | none => some .missing
  | some session =>
    (effectiveTtl m.ttlSecs session.successCount).bind fun ttl =>
      (DateTime.sub now.utc ttl).bind fun oldest =>
        if session.lastAccess < oldest then some .expired else some (.live session.proxyKey)

/-- The removal by key, the second map operation of `get`. -/
def removeKey (m : StickySessionManager) (client : SocketAddr) : StickySessionManager :=
  { m with sessions := m.sessions.remove client }

/-- Without an operation in between, the two map operations are the whole lookup. -/
theorem get_eq_lookUp (m : StickySessionManager) (now : Clock) (client : SocketAddr) :
    m.get now client = (m.lookUp now client).map fun
      | .missing => (none, m)
      | .live proxyKey => (some proxyKey, m)
      | .expired => (none, m.removeKey client) := by
  unfold get lookUp
  cases m.sessions.get client with
  | none => rfl
  | some session =>
    dsimp only
    cases effectiveTtl m.ttlSecs session.successCount with
    | none => rfl
    | some ttl =>
      rw [Option.bind_some, Option.bind_some]
      cases DateTime.sub now.utc ttl with
      | none => rfl
      | some oldest =>
        rw [Option.bind_some, Option.bind_some]
        split_ifs <;> rfl

/-- `set_or_touch` where `get_mut` finds the entry: the update under its guard. -/
def touchEntry (m : StickySessionManager) (now : Clock) (client : SocketAddr)
    (proxyKey : String) : Option StickySessionManager :=
  (m.sessions.get client).map fun session =>
    let touched : StickySession :=
      if session.proxyKey = proxyKey then
        { session with lastAccess := now.utc, successCount := session.successCount + 1 }
      else
        { session with
          proxyKey := proxyKey
          backupProxyKey := some session.proxyKey
          lastAccess := now.utc
          successCount := 1 }
    { m with sessions := m.sessions.insert client touched }

/-- `set_or_touch` where `get_mut` has found none: the insertion that follows. -/
def insertEntry (m : StickySessionManager) (now : Clock) (client : SocketAddr)
    (proxyKey : String) : StickySessionManager :=
  let session : StickySession :=
    { clientIp := client
      proxyKey := proxyKey
      backupProxyKey := none
      createdAt := now.utc
      lastAccess := now.utc
      successCount := 1 }
  { m with sessions := m.sessions.insert client session }

theorem setOrTouch_eq_touchEntry (m : StickySessionManager) (now : Clock) (client : SocketAddr)
    (proxyKey : String) : m.setOrTouch now client proxyKey =
      (m.touchEntry now client proxyKey).getD (m.insertEntry now client proxyKey) := by
  unfold setOrTouch touchEntry insertEntry
  cases m.sessions.get client <;> rfl

end StickySessionManager

/-- Where a connection is between the map operations of its call. -/
inductive SessionTask where
  | idle
  /-- `get` has found the session expired and given its entry back; the flag records whether the
  client's session was refreshed or created since. -/
  | removing (client : SocketAddr) (writtenSince : Bool)
  /-- `set_or_touch` has read its clock and found no entry. -/
  | inserting (now : Clock) (client : SocketAddr) (proxyKey : String)
  deriving DecidableEq

/-- A success has been written for the client. -/
def SessionTask.noteWrite (client : SocketAddr) : SessionTask → SessionTask
  | .removing peer writtenSince => .removing peer (writtenSince || peer = client)
  | task => task

/-- The session table and the calls on it that are under way. -/
structure SessionRace (ι : Type*) where
  table : StickySessionManager
  task : ι → SessionTask

/-- One map operation of connection `i`, or one of the housekeeping tasks. -/
inductive SessionRaceOp (ι : Type*) where
  | lookUp (i : ι) (now : Clock) (client : SocketAddr)
  | remove (i : ι)
  | getMut (i : ι) (now : Clock) (client : SocketAddr) (proxyKey : String)
  | insert (i : ι)
  | cleanup (now : Clock)
  | setTtl (ttlSecs : UInt64)

namespace SessionRace

variable {ι : Type*}

/-- The state after one map operation; `none` where no call is at this point. -/
def apply [DecidableEq ι] (s : SessionRace ι) : SessionRaceOp ι → Option (SessionRace ι)
  | .lookUp i now client =>
    if s.task i = .idle then
      (s.table.lookUp now client).map fun
        | .expired => { s with task := Function.update s.task i (.removing client false) }
        | _ => s
    else none
  | .remove i =>
    match s.task i with
    | .removing client _ =>
      some ⟨s.table.removeKey client, Function.update s.task i .idle⟩
    | _ => none
  | .getMut i now client proxyKey =>
    if s.task i = .idle then
      match s.table.touchEntry now client proxyKey with
      | some table => some ⟨table, fun j => (s.task j).noteWrite client⟩
      | none =>
        some { s with task := Function.update s.task i (.inserting now client proxyKey) }
    else none
  | .insert i =>
    match s.task i with
    | .inserting now client proxyKey =>
      some ⟨s.table.insertEntry now client proxyKey,
        Function.update (fun j => (s.task j).noteWrite client) i .idle⟩
    | _ => none
  | .cleanup now => (s.table.cleanup now).map fun table => { s with table := table }
  | .setTtl ttlSecs => some { s with table := s.table.setTtl ttlSecs }

def Step [DecidableEq ι] (s : SessionRace ι) (a : SessionRaceOp ι) (t : SessionRace ι) : Prop :=
  s.apply a = some t

/-- The operation removes a session that was refreshed or created after its lookup. -/
def Loses (s : SessionRace ι) (a : SessionRaceOp ι) : Prop :=
  ∃ i client, a = .remove i ∧ s.task i = .removing client true ∧ client ∈ s.table.sessions

/-- No operation that can come next loses a session. -/
def Safe [DecidableEq ι] (s : SessionRace ι) : Prop := ∀ a t, s.Step a t → ¬ s.Loses a

/-- The operation refreshes or creates the client's session. -/
def Writes (s : SessionRace ι) (client : SocketAddr) : SessionRaceOp ι → Prop
  | .getMut _ _ peer _ => peer = client ∧ client ∈ s.table.sessions
  | .insert i => ∃ now proxyKey, s.task i = .inserting now client proxyKey
  | _ => False

/-- No success is written for a client that a lookup is about to remove. -/
def WritesClear (s : SessionRace ι) (a : SessionRaceOp ι) : Prop :=
  ∀ client, s.Writes client a → ∀ i writtenSince, s.task i ≠ .removing client writtenSince

variable {s t : SessionRace ι} {a : SessionRaceOp ι} {as : List (SessionRaceOp ι)}

theorem writesClear_iff {client : SocketAddr} (h : ∀ peer, s.Writes peer a ↔ peer = client) :
    s.WritesClear a ↔ ∀ i writtenSince, s.task i ≠ .removing client writtenSince := by
  simp only [WritesClear, h, forall_eq]

theorem writesClear_of_forall_not (h : ∀ peer, ¬ s.Writes peer a) : s.WritesClear a :=
  fun peer hwrites => absurd hwrites (h peer)

theorem noteWrite_eq_removing {client peer : SocketAddr} {task : SessionTask} :
    task.noteWrite client = .removing peer true ↔
      ∃ writtenSince, task = .removing peer writtenSince ∧
        (writtenSince = true ∨ peer = client) := by
  cases task with
  | removing peer' writtenSince =>
    simp only [SessionTask.noteWrite, SessionTask.removing.injEq, Bool.or_eq_true,
      decide_eq_true_eq]
    constructor
    · rintro ⟨rfl, h⟩
      exact ⟨writtenSince, ⟨rfl, rfl⟩, h⟩
    · rintro ⟨_, ⟨rfl, rfl⟩, h⟩
      exact ⟨rfl, h⟩
  | _ => simp [SessionTask.noteWrite]

variable [DecidableEq ι]

/-- Safe says of every pending removal of a written session that there is no session to remove. -/
theorem safe_iff : s.Safe ↔
    ∀ i client, s.task i = .removing client true → client ∉ s.table.sessions := by
  constructor
  · intro h i client hi hmem
    have hstep : s.Step (.remove i) ⟨s.table.removeKey client, Function.update s.task i .idle⟩ := by
      simp only [Step, apply, hi]
    exact h _ _ hstep ⟨i, client, rfl, hi, hmem⟩
  · rintro h a t - ⟨i, client, -, hi, hmem⟩
    exact h i client hi hmem

/-- What adds no session and notes no write keeps the state safe. -/
theorem Safe.of_kept (hs : s.Safe) (hmem : ∀ client ∈ t.table.sessions, client ∈ s.table.sessions)
    (htask : ∀ i client, t.task i = .removing client true → s.task i = .removing client true) :
    t.Safe := by
  rw [safe_iff] at hs ⊢
  intro i client hi hin
  exact hs i client (htask i client hi) (hmem client hin)

/-- A write leaves a safe state exactly where no lookup is about to remove its client. -/
theorem safe_of_written_iff (hs : s.Safe) {client : SocketAddr}
    (hmem : ∀ peer, peer ∈ t.table.sessions ↔ peer = client ∨ peer ∈ s.table.sessions)
    (htask : ∀ i peer, t.task i = .removing peer true ↔
      (s.task i).noteWrite client = .removing peer true) :
    t.Safe ↔ ∀ i writtenSince, s.task i ≠ .removing client writtenSince := by
  rw [safe_iff] at hs ⊢
  constructor
  · intro ht i writtenSince hi
    refine ht i client ?_ ((hmem client).mpr (Or.inl rfl))
    exact (htask i client).mpr (noteWrite_eq_removing.mpr ⟨writtenSince, hi, Or.inr rfl⟩)
  · intro hclear i peer hi hin
    obtain ⟨writtenSince, hold, hwritten⟩ := noteWrite_eq_removing.mp ((htask i peer).mp hi)
    have hne : peer ≠ client := fun heq => hclear i writtenSince (heq ▸ hold)
    obtain rfl := hwritten.resolve_right hne
    exact hs i peer hold (((hmem peer).mp hin).resolve_left hne)

/-- From a safe state, a step leads to a safe one exactly if it writes for no client that a lookup
is about to remove. -/
theorem safe_step_iff (hs : s.Safe) (h : s.Step a t) : t.Safe ↔ s.WritesClear a := by
  cases a with
  | lookUp i now client =>
    refine iff_of_true ?_ (writesClear_of_forall_not fun _ => id)
    simp only [Step, apply] at h
    split_ifs at h with hidle
    obtain ⟨read, -, rfl⟩ := Option.map_eq_some_iff.mp h
    cases read with
    | expired =>
      refine hs.of_kept (fun _ hin => hin) fun j peer hj => ?_
      by_cases hij : j = i
      · subst hij
        simp at hj
      · simpa [hij] using hj
    | _ => exact hs
  | remove i =>
    refine iff_of_true ?_ (writesClear_of_forall_not fun _ => id)
    simp only [Step, apply] at h
    split at h
    next client writtenSince hi =>
      obtain rfl := Option.some.inj h
      refine hs.of_kept (fun peer hin => ?_) fun j peer hj => ?_
      · exact (FinMap.mem_remove.mp hin).2
      · by_cases hij : j = i
        · subst hij
          simp at hj
        · simpa [hij] using hj
    next => cases h
  | getMut i now client proxyKey =>
    simp only [Step, apply] at h
    split_ifs at h with hidle
    split at h
    next table htouch =>
      obtain rfl := Option.some.inj h
      obtain ⟨session, hsession, rfl⟩ := Option.map_eq_some_iff.mp htouch
      have hin : client ∈ s.table.sessions := FinMap.mem_of_get hsession
      have hwrites : ∀ peer, s.Writes peer (.getMut i now client proxyKey) ↔ peer = client :=
        fun peer => ⟨fun hw => hw.1.symm, fun heq => ⟨heq.symm, heq ▸ hin⟩⟩
      rw [writesClear_iff hwrites]
      exact safe_of_written_iff hs (fun peer => FinMap.mem_insert) fun _ _ => Iff.rfl
    next hmiss =>
      obtain rfl := Option.some.inj h
      have hout : client ∉ s.table.sessions :=
        FinMap.notMem_iff.mpr (Option.map_eq_none_iff.mp hmiss)
      refine iff_of_true ?_ (writesClear_of_forall_not fun peer hw => hout (hw.1 ▸ hw.2))
      refine hs.of_kept (fun _ hin => hin) fun j peer hj => ?_
      by_cases hij : j = i
      · subst hij
        simp at hj
      · simpa [hij] using hj
  | insert i =>
    simp only [Step, apply] at h
    split at h
    next now client proxyKey hi =>
      obtain rfl := Option.some.inj h
      have hwrites : ∀ peer, s.Writes peer (.insert i) ↔ peer = client := by
        intro peer
        simp [Writes, hi, eq_comm]
      rw [writesClear_iff hwrites]
      refine safe_of_written_iff hs (fun peer => FinMap.mem_insert) fun j peer => ?_
      by_cases hij : j = i
      · subst hij
        simp [hi, SessionTask.noteWrite]
      · simp [hij]
    next => cases h
  | cleanup now =>
    refine iff_of_true ?_ (writesClear_of_forall_not fun _ => id)
    obtain ⟨table, hclean, rfl⟩ := Option.map_eq_some_iff.mp h
    refine hs.of_kept (fun peer hin => ?_) fun _ _ hj => hj
    obtain ⟨session, hsession⟩ := FinMap.mem_iff.mp hin
    exact FinMap.mem_of_get (StickySessionManager.get_of_cleanup hclean hsession)
  | setTtl ttlSecs =>
    refine iff_of_true ?_ (writesClear_of_forall_not fun _ => id)
    obtain rfl := Option.some.inj h
    exact hs.of_kept (fun _ hin => hin) fun _ _ hj => hj

theorem safe_of_idle (h : ∀ i, s.task i = .idle) : s.Safe := by
  rw [safe_iff]
  intro i client hi
  rw [h i] at hi
  cases hi

/-- Every state of a run is safe exactly if no success is written for a client between the expired
read and the removal of a lookup of it; and then no removal of the run loses a session. -/
theorem safe_run_iff (h : Run Step s as t) (hs : ∀ i, s.task i = .idle) :
    ((∀ before after u, as = before ++ after → Run Step s before u → u.Safe) ↔
      ∀ before a after u, as = before ++ a :: after → Run Step s before u → u.WritesClear a) ∧
    ((∀ before a after u, as = before ++ a :: after → Run Step s before u → u.WritesClear a) →
      ∀ before a after u, as = before ++ a :: after → Run Step s before u → ¬ u.Loses a) := by
  have hunique : ∀ (u : SessionRace ι) a v w, Step u a v → Step u a w → v = w :=
    fun u a v w hv hw => Option.some.inj (hv.symm.trans hw)
  have hgood : ∀ (u : SessionRace ι) a v, True → u.Safe → Step u a v → (v.Safe ↔ u.WritesClear a) :=
    fun _ _ _ _ hu hstep => safe_step_iff hu hstep
  have hiff := h.forall_good_iff hunique (fun _ _ _ _ _ => trivial) hgood trivial (safe_of_idle hs)
  refine ⟨hiff, fun hclear before a after u has hu => ?_⟩
  have hsafe := hiff.mpr hclear before (a :: after) u has hu
  obtain ⟨u', hu', hrest⟩ := run_append.mp (has ▸ h)
  obtain rfl := hu'.unique hunique hu
  cases hrest with
  | cons head _ => exact hsafe a _ head

open StickySessionManager

/-- Two connections of one client, and its session. -/
def twoConnections : SessionRace Bool := ⟨servedTable 1, fun _ => .idle⟩

/-- The first one's lookup has found the session expired. -/
def expiredRead : SessionRace Bool :=
  ⟨servedTable 1, Function.update twoConnections.task false (.removing servedClient false)⟩

theorem step_expiredRead :
    Step twoConnections (.lookUp false (servedAgo 400) servedClient) expiredRead := by
  have hread : (servedTable 1).lookUp (servedAgo 400) servedClient = some .expired := by decide
  simp only [Step, apply, twoConnections, expiredRead, hread, ↓reduceIte, Option.map_some]

/-- The lookup alone. -/
theorem safe_lookup_alone :
    ∃ t, Run Step twoConnections
        [.lookUp false (servedAgo 400) servedClient, .remove false] t ∧ t.Safe ∧
      ¬ twoConnections.Loses (.lookUp false (servedAgo 400) servedClient) ∧
      ¬ expiredRead.Loses (.remove false) := by
  have hremove : Step expiredRead (.remove false)
      ⟨(servedTable 1).removeKey servedClient, Function.update expiredRead.task false .idle⟩ := rfl
  have hrun := Run.cons step_expiredRead (.single hremove)
  have hclear : ∀ before a after u,
      [SessionRaceOp.lookUp false (servedAgo 400) servedClient, .remove false] =
        before ++ a :: after → Run Step twoConnections before u → WritesClear u a := by
    intro before a after u has _
    have ha : a ∈ [SessionRaceOp.lookUp false (servedAgo 400) servedClient, .remove false] := by
      rw [has]
      simp
    refine writesClear_of_forall_not fun peer hwrites => ?_
    simp only [List.mem_cons, List.not_mem_nil, or_false] at ha
    rcases ha with rfl | rfl
    · exact hwrites
    · exact hwrites
  have hsafe := safe_run_iff hrun fun _ => rfl
  exact ⟨_, hrun, hsafe.1.mpr hclear _ [] _ (List.append_nil _).symm hrun,
    hsafe.2 hclear [] _ _ _ rfl (.nil _), hsafe.2 hclear [_] _ _ _ rfl (.single step_expiredRead)⟩

/-- One connection's lookup finds the session expired, the other one's success refreshes it, and
the lookup removes it all the same. -/
theorem removal_loses_refreshed :
    ∃ s t session, Run Step twoConnections
        [.lookUp false (servedAgo 400) servedClient,
          .getMut true (servedAgo 400) servedClient "1.2.3.4:8080"] s ∧
      s.table.sessions.get servedClient = some session ∧
      session.lastAccess = (servedAgo 400).utc ∧
      s.Loses (.remove false) ∧ Step s (.remove false) t ∧
      t.table.sessions.get servedClient = none := by
  obtain ⟨table, htouch⟩ : ∃ table, (servedTable 1).touchEntry (servedAgo 400) servedClient
      "1.2.3.4:8080" = some table := ⟨_, congrArg (Option.map _) (get_servedTable 1)⟩
  obtain ⟨session, hsession, -, hlast⟩ :=
    get_setOrTouch_self (servedTable 1) (servedAgo 400) servedClient "1.2.3.4:8080"
  rw [setOrTouch_eq_touchEntry, htouch, Option.getD_some] at hsession
  have hwrite : Step expiredRead (.getMut true (servedAgo 400) servedClient "1.2.3.4:8080")
      ⟨table, fun j => (expiredRead.task j).noteWrite servedClient⟩ := by
    simp only [Step, apply]
    rw [if_pos (by simp [expiredRead, twoConnections]), expiredRead, htouch]
  refine ⟨_, ⟨table.removeKey servedClient, _⟩, session, .cons step_expiredRead (.single hwrite),
    hsession, hlast, ⟨false, servedClient, rfl, ?_, FinMap.mem_of_get hsession⟩, rfl, ?_⟩
  · simp [expiredRead, SessionTask.noteWrite]
  · simp [removeKey, FinMap.get_remove]

end SessionRace

end VpnGateway
