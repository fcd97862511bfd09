import VpnGateway.Pool.Operations

/-! What a client's session says about the calls of `set_or_touch` that made it. -/
namespace VpnGateway

/-- The keys that a run passes to `set_or_touch` for the client. -/
def keysOf (client : SocketAddr) (es : List Event) : List String :=
  es.filterMap fun e => match e.op with
    | .setOrTouch peer key => if peer = client then some key else none
    | _ => none

/-- The calls at the end of a history that all pass its last key. -/
def finalRun (keys : List String) : List String := keys.rtakeWhile (some · = keys.getLast?)

/-- The calls before the final run. -/
def beforeFinalRun (keys : List String) : List String := keys.rdropWhile (some · = keys.getLast?)

theorem finalRun_of_last {keys : List String} {key : String} (h : keys.getLast? = some key) :
    finalRun keys = keys.rtakeWhile (· = key) := by
  simp only [finalRun, h, Option.some.injEq]

theorem beforeFinalRun_of_last {keys : List String} {key : String}
    (h : keys.getLast? = some key) : beforeFinalRun keys = keys.rdropWhile (· = key) := by
  simp only [beforeFinalRun, h, Option.some.injEq]

/-- A call with the last key makes the final run longer. -/
theorem finalRun_concat {keys : List String} {key : String} (h : keys.getLast? = some key) :
    finalRun (keys ++ [key]) = finalRun keys ++ [key] := by
  rw [finalRun_of_last List.getLast?_concat, finalRun_of_last h,
    List.rtakeWhile_concat_pos _ _ _ (by simp)]

theorem beforeFinalRun_concat {keys : List String} {key : String}
    (h : keys.getLast? = some key) : beforeFinalRun (keys ++ [key]) = beforeFinalRun keys := by
  rw [beforeFinalRun_of_last List.getLast?_concat, beforeFinalRun_of_last h,
    List.rdropWhile_concat_pos _ _ _ (by simp)]

/-- A call with another key begins a run of its own. -/
theorem finalRun_concat_ne {keys : List String} {key : String} (h : keys.getLast? ≠ some key) :
    finalRun (keys ++ [key]) = [key] := by
  have hrun : keys.rtakeWhile (· = key) = [] := by
    rw [List.rtakeWhile_eq_nil_iff]
    intro hne
    simpa [List.getLast?_eq_some_getLast hne] using h
  rw [finalRun_of_last List.getLast?_concat, List.rtakeWhile_concat_pos _ _ _ (by simp), hrun,
    List.nil_append]

theorem beforeFinalRun_concat_ne {keys : List String} {key : String}
    (h : keys.getLast? ≠ some key) : beforeFinalRun (keys ++ [key]) = keys := by
  rw [beforeFinalRun_of_last List.getLast?_concat, List.rdropWhile_concat_pos _ _ _ (by simp),
    List.rdropWhile_eq_self_iff]
  intro hne
  simpa [List.getLast?_eq_some_getLast hne] using h

theorem finalRun_replicate (n : ℕ) (key : String) :
    finalRun (List.replicate n key) = List.replicate n key := by
  rw [finalRun, List.rtakeWhile_eq_self_iff]
  intro x hx
  obtain ⟨hn, rfl⟩ := List.mem_replicate.mp hx
  simp [List.getLast?_replicate, hn]

namespace StickySession

/-- The session names the last key, the length of the final run, and the last key before that run,
if there is one. -/
structure Describes (session : StickySession) (keys : List String) : Prop where
  last : keys.getLast? = some session.proxyKey
  count : session.successCount.toNat = (finalRun keys).length
  backup : session.backupProxyKey = (beforeFinalRun keys).getLast?
  backup_ne : session.backupProxyKey ≠ some session.proxyKey

/-- The same, but for the counter, which wraps around. -/
structure Tracks (session : StickySession) (keys : List String) : Prop where
  last : keys.getLast? = some session.proxyKey
  count : session.successCount = UInt32.ofNat (finalRun keys).length
  backup : session.backupProxyKey = (beforeFinalRun keys).getLast?

variable {session : StickySession} {keys : List String}

theorem Tracks.backup_ne (h : session.Tracks keys) :
    session.backupProxyKey ≠ some session.proxyKey := by
  rw [h.backup, beforeFinalRun_of_last h.last]
  intro hlast
  have hne : keys.rdropWhile (· = session.proxyKey) ≠ [] := by
    rintro hnil
    rw [hnil] at hlast
    cases hlast
  have hnot := List.rdropWhile_last_not (fun key => decide (key = session.proxyKey)) keys hne
  rw [List.getLast?_eq_some_getLast hne, Option.some.injEq] at hlast
  simp [hlast] at hnot

/-- The counter is right until it wraps around. -/
theorem Tracks.describes_iff (h : session.Tracks keys) :
    session.Describes keys ↔ (finalRun keys).length < 4294967296 := by
  constructor
  · intro hdescribes
    rw [← hdescribes.count]
    exact session.successCount.toNat_lt
  · intro hlt
    refine ⟨h.last, ?_, h.backup, h.backup_ne⟩
    rw [h.count, UInt32.toNat_ofNat', Nat.mod_eq_of_lt hlt]

end StickySession

namespace StickySessionManager

variable {m : StickySessionManager} {client : SocketAddr} {keys : List String}

/-- The client's session tracks these keys; without a session there are none. -/
def TracksClient (m : StickySessionManager) (client : SocketAddr) (keys : List String) : Prop :=
  match m.sessions.get client with
  | none => keys = []
  | some session => session.Tracks keys

theorem tracksClient_of_some {session : StickySession} (hs : m.sessions.get client = some session) :
    m.TracksClient client keys ↔ session.Tracks keys := by
  rw [TracksClient, hs]

theorem tracksClient_of_none (hs : m.sessions.get client = none) :
    m.TracksClient client keys ↔ keys = [] := by
  rw [TracksClient, hs]

/-- A call touches the session, switches it to another proxy, or makes it. -/
theorem TracksClient.setOrTouch (h : m.TracksClient client keys) (now : Clock) (key : String) :
    (m.setOrTouch now client key).TracksClient client (keys ++ [key]) := by
  have hend : (keys ++ [key]).getLast? = some key := List.getLast?_concat
  cases hs : m.sessions.get client with
  | none =>
    obtain rfl := (tracksClient_of_none hs).mp h
    rw [StickySessionManager.setOrTouch, tracksClient_of_some (FinMap.get_insert_self _ _ _), hs]
    refine ⟨hend, ?_, ?_⟩
    · rw [finalRun_concat_ne (by simp)]
      rfl
    · rw [beforeFinalRun_concat_ne (by simp)]
      rfl
  | some session =>
    have htracks := (tracksClient_of_some hs).mp h
    rw [StickySessionManager.setOrTouch, tracksClient_of_some (FinMap.get_insert_self _ _ _), hs]
    dsimp only
    split_ifs with hkey
    · subst hkey
      refine ⟨hend, ?_, ?_⟩
      · rw [finalRun_concat htracks.last, List.length_append, UInt32.ofNat_add, htracks.count]
        rfl
      · rw [beforeFinalRun_concat htracks.last, htracks.backup]
    · have hother : keys.getLast? ≠ some key := fun hlast =>
        hkey (Option.some.inj (htracks.last.symm.trans hlast))
      refine ⟨hend, ?_, ?_⟩
      · rw [finalRun_concat_ne hother]
        rfl
      · rw [beforeFinalRun_concat_ne hother, htracks.last]

end StickySessionManager

namespace SharedState

/-- An operation that does not drop the client's session. -/
def StepKeeping (client : SocketAddr) (s : SharedState) (e : Event) (t : SharedState) : Prop :=
  s.Step e t ∧
    (s.stickySessions.sessions.get client ≠ none → t.stickySessions.sessions.get client ≠ none)

/-- The calls for the client leave every other session as it was. -/
def LeavesOthers (client : SocketAddr) (s : SharedState) (es : List Event) : Prop :=
  ∀ before e after u v, es = before ++ e :: after → Runs.Run Step s before u → u.Step e v →
    ∀ key, e.op = .setOrTouch client key → ∀ other ≠ client,
      v.stickySessions.sessions.get other = u.stickySessions.sessions.get other

variable {s t : SharedState} {e : Event} {es : List Event} {client : SocketAddr}
  {keys : List String}

/-- What is no call for the client keeps its session or drops it. -/
theorem Step.session_cases (h : s.Step e t) (client : SocketAddr) :
    (∃ key, e.op = .setOrTouch client key ∧
      t.stickySessions = s.stickySessions.setOrTouch e.now client key) ∨
    (∀ key, e.op ≠ .setOrTouch client key) ∧
      (t.stickySessions.sessions.get client = s.stickySessions.sessions.get client ∨
        t.stickySessions.sessions.get client = none) := by
  cases h.tableEffect with
  | kept hop htable => exact .inr ⟨hop client, .inl (by rw [htable])⟩
  | lookup peer answer hop htable =>
    refine .inr ⟨by simp [hop], ?_⟩
    by_cases hpeer : client = peer
    · subst hpeer
      rcases StickySessionManager.get_cases htable with hkept | ⟨-, hkept⟩
      · exact .inl (by rw [hkept])
      · exact .inr (by simp [hkept, FinMap.get_remove])
    · exact .inl (StickySessionManager.get_sessions_of_ne htable hpeer)
  | touch peer key hop htable =>
    by_cases hpeer : peer = client
    · subst hpeer
      exact .inl ⟨key, hop, htable⟩
    · refine .inr ⟨by simp [hop, hpeer], .inl ?_⟩
      rw [htable]
      exact StickySessionManager.get_setOrTouch_of_ne _ _ _ (Ne.symm hpeer)
  | sweep hop htable =>
    refine .inr ⟨by simp [hop], ?_⟩
    cases hs : t.stickySessions.sessions.get client with
    | none => exact .inr rfl
    | some session => exact .inl (StickySessionManager.get_of_cleanup htable hs).symm

theorem keysOf_cons_call {key : String} (h : e.op = .setOrTouch client key) (es : List Event) :
    keysOf client (e :: es) = key :: keysOf client es := by
  simp [keysOf, h]

theorem keysOf_cons_other (h : ∀ key, e.op ≠ .setOrTouch client key) (es : List Event) :
    keysOf client (e :: es) = keysOf client es := by
  rw [keysOf, List.filterMap_cons_none, keysOf]
  split
  next peer key hop =>
    rw [if_neg]
    rintro rfl
    exact h key hop
  next => rfl

/-- Over a run the session goes on tracking the calls. -/
theorem run_tracksClient (keys : List String) (h : Runs.Run (StepKeeping client) s es t)
    (hs : s.stickySessions.TracksClient client keys) :
    t.stickySessions.TracksClient client (keys ++ keysOf client es) := by
  induction h generalizing keys with
  | nil => simpa [keysOf] using hs
  | @cons s u t e es head tail ih =>
    obtain ⟨hstep, hkept⟩ := head
    rcases hstep.session_cases client with ⟨key, hop, htable⟩ | ⟨hop, hsame⟩
    · have hu : u.stickySessions.TracksClient client (keys ++ [key]) := by
        rw [htable]
        exact hs.setOrTouch e.now key
      rw [keysOf_cons_call hop, ← List.singleton_append, ← List.append_assoc]
      exact ih _ hu
    · have hget : u.stickySessions.sessions.get client = s.stickySessions.sessions.get client := by
        rcases hsame with hsame | hnone
        · exact hsame
        · rw [hnone]
          exact (not_not.mp fun hne => hkept hne hnone).symm
      rw [keysOf_cons_other hop]
      apply ih
      rwa [StickySessionManager.TracksClient, hget]

theorem leavesOthers (client : SocketAddr) (s : SharedState) (es : List Event) :
    s.LeavesOthers client es := by
  intro before e after u v _ _ hstep key hop other hother
  rcases hstep.session_cases other with ⟨key', hop', -⟩ | ⟨-, hsame⟩
  · rw [hop] at hop'
    cases hop'
    exact absurd rfl hother
  · cases hstep.tableEffect with
    | touch peer key' hop' htable =>
      rw [hop] at hop'
      cases hop'
      rw [htable]
      exact StickySessionManager.get_setOrTouch_of_ne _ _ _ hother
    | kept hno => exact absurd hop (hno client key)
    | lookup peer answer hop' => simp [hop] at hop'
    | sweep hop' => simp [hop] at hop'

/-- Over calls for one client that nothing drops the session of, it is what the documentation says,
exactly as long as the counter holds the length of the final run. -/
theorem describes_client_iff (h : Runs.Run (StepKeeping client) s es t)
    (hs : s.stickySessions.sessions.get client = none) (hne : keysOf client es ≠ []) :
    ((∃ session, t.stickySessions.sessions.get client = some session ∧
        session.Describes (keysOf client es)) ∧ s.LeavesOthers client es) ↔
      (finalRun (keysOf client es)).length < 4294967296 := by
  have htracks := run_tracksClient [] h ((StickySessionManager.tracksClient_of_none hs).mpr rfl)
  rw [List.nil_append] at htracks
  cases ht : t.stickySessions.sessions.get client with
  | none => exact absurd ((StickySessionManager.tracksClient_of_none ht).mp htracks) hne
  | some session =>
    have hsession := (StickySessionManager.tracksClient_of_some ht).mp htracks
    constructor
    · rintro ⟨⟨session', hget, hdescribes⟩, -⟩
      obtain rfl := Option.some.inj hget
      exact hsession.describes_iff.mp hdescribes
    · intro hlt
      exact ⟨⟨session, rfl, hsession.describes_iff.mpr hlt⟩, s.leavesOthers client es⟩

/-- The client is served through this proxy. -/
def successThrough (key : String) : Event :=
  ⟨⟨0, 1700000000000000000⟩, .setOrTouch ⟨.v4 167772162, 40000⟩ key, none⟩

theorem stepKeeping_successThrough (s : SharedState) (key : String) :
    StepKeeping ⟨.v4 167772162, 40000⟩ s (successThrough key)
      (s.setOrTouch (successThrough key).now ⟨.v4 167772162, 40000⟩ key) := by
  refine ⟨rfl, fun _ => ?_⟩
  obtain ⟨session, hsession, -⟩ := StickySessionManager.get_setOrTouch_self s.stickySessions
    (successThrough key).now ⟨.v4 167772162, 40000⟩ key
  exact Option.ne_none_iff_exists'.mpr ⟨session, hsession⟩

theorem exists_run_successThrough (s : SharedState) (keys : List String) :
    ∃ t, Runs.Run (StepKeeping ⟨.v4 167772162, 40000⟩) s (keys.map successThrough) t := by
  induction keys generalizing s with
  | nil => exact ⟨s, .nil s⟩
  | cons key keys ih =>
    obtain ⟨t, ht⟩ := ih (s.setOrTouch (successThrough key).now ⟨.v4 167772162, 40000⟩ key)
    exact ⟨t, .cons (stepKeeping_successThrough s key) ht⟩

theorem keysOf_successThrough (keys : List String) :
    keysOf ⟨.v4 167772162, 40000⟩ (keys.map successThrough) = keys := by
  induction keys with
  | nil => rfl
  | cons key keys ih => rw [List.map_cons, keysOf_cons_call rfl, ih]

/-- The second proxy serves the client twice after the first one did. -/
theorem describes_two_runs :
    let keys := ["1.1.1.1:80", "2.2.2.2:80", "2.2.2.2:80"]
    let s := withConfig 300 3000 []
    ∃ t, Runs.Run (StepKeeping ⟨.v4 167772162, 40000⟩) s (keys.map successThrough) t ∧
      (∃ session, t.stickySessions.sessions.get ⟨.v4 167772162, 40000⟩ = some session ∧
        session.Describes (keysOf ⟨.v4 167772162, 40000⟩ (keys.map successThrough))) ∧
      s.LeavesOthers ⟨.v4 167772162, 40000⟩ (keys.map successThrough) := by
  intro keys s
  obtain ⟨t, ht⟩ := exists_run_successThrough s keys
  exact ⟨t, ht, (describes_client_iff ht rfl (by decide)).mpr (by decide)⟩

/-- After `n` successes in a row through one proxy the counter is `n`, modulo `2 ^ 32`. -/
theorem count_of_replicate {n : ℕ} (hn : n ≠ 0) (key : String) :
    ∃ t session, Runs.Run (StepKeeping ⟨.v4 167772162, 40000⟩) (withConfig 300 3000 [])
        ((List.replicate n key).map successThrough) t ∧
      t.stickySessions.sessions.get ⟨.v4 167772162, 40000⟩ = some session ∧
      session.successCount = UInt32.ofNat n ∧
      (session.Describes
          (keysOf ⟨.v4 167772162, 40000⟩ ((List.replicate n key).map successThrough)) →
        n < 4294967296) := by
  obtain ⟨t, ht⟩ := exists_run_successThrough (withConfig 300 3000 []) (List.replicate n key)
  have htracks := run_tracksClient [] ht rfl
  rw [List.nil_append, keysOf_successThrough] at htracks
  cases hget : t.stickySessions.sessions.get ⟨.v4 167772162, 40000⟩ with
  | none =>
    have hnil := (StickySessionManager.tracksClient_of_none hget).mp htracks
    exact absurd (List.replicate_eq_nil_iff key |>.mp hnil) hn
  | some session =>
    have hsession := (StickySessionManager.tracksClient_of_some hget).mp htracks
    have hcount := hsession.count
    rw [finalRun_replicate, List.length_replicate] at hcount
    refine ⟨t, session, ht, hget, hcount, fun hdescribes => ?_⟩
    rw [keysOf_successThrough] at hdescribes
    have hlt := hsession.describes_iff.mp hdescribes
    rwa [finalRun_replicate, List.length_replicate] at hlt

/-- The success after the one that makes the counter the largest `u32` makes it zero. -/
theorem count_wraps_around : ∃ t session,
    Runs.Run (StepKeeping ⟨.v4 167772162, 40000⟩) (withConfig 300 3000 [])
      ((List.replicate 4294967296 "1.1.1.1:80").map successThrough) t ∧
    t.stickySessions.sessions.get ⟨.v4 167772162, 40000⟩ = some session ∧
    session.successCount = 0 ∧
    ¬ session.Describes (keysOf ⟨.v4 167772162, 40000⟩
      ((List.replicate 4294967296 "1.1.1.1:80").map successThrough)) := by
  obtain ⟨t, session, hrun, hget, hcount, hdescribes⟩ :=
    count_of_replicate (n := 4294967296) (by decide) "1.1.1.1:80"
  exact ⟨t, session, hrun, hget, hcount, fun h => absurd (hdescribes h) (lt_irrefl _)⟩

end SharedState

end VpnGateway
