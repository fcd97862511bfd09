import VpnGateway.Pool.Breaker
import VpnGateway.Pool.Capacity

/-! Adding a proxy by hand while others write the same key: `add_proxy` looks the key up first
and inserts later. -/
namespace VpnGateway

/-- The pool, the calls that are between their two map operations, and what has been reported. -/
structure Adding where
  pool : SharedState
  /-- `insert_if_absent` calls that have passed the length check. -/
  admitted : List Proxy
  /-- `add_proxy` calls that have not found their key. -/
  missed : List AddProxyRequest
  /-- What `insert_if_absent` calls have inserted: those that returned true. -/
  entered : List Proxy
  replies : List (AddProxyRequest × ApiResponse)

inductive AddOp where
  | checkLen (proxy : Proxy)
  | enter (proxy : Proxy)
  | lookUp (payload : AddProxyRequest)
  | insert (payload : AddProxyRequest)
  | recordSuccess (key : String) (latencyMs : F64)
  | recordFail (key : String)
  | setTlsClean (key : String) (clean : Bool)

namespace SharedState

/-- The second step of `add_proxy`. -/
def insertAdded (s : SharedState) (payload : AddProxyRequest) : ApiResponse × SharedState :=
  (⟨true, s!"Proxy {payload.host}:{payload.port} added"⟩,
    { s with proxies := s.proxies.insert payload.key payload.proxy })

/-- Without an operation in between, the two steps are the whole handler. -/
theorem addProxy_eq_insertAdded (s : SharedState) (payload : AddProxyRequest) :
    s.addProxy payload =
      if payload.key ∈ s.proxies then (⟨false, "Proxy already exists"⟩, s)
      else s.insertAdded payload := rfl

/-- Every record of the pool is still there, after some updates. -/
def Keeps (s t : SharedState) : Prop :=
  ∀ k p, s.proxies.get k = some p → ∃ us q, t.proxies.get k = some q ∧ Runs.Run Proxy.Step p us q

theorem Keeps.refl (s : SharedState) : s.Keeps s := fun _ p hp => ⟨[], p, hp, .nil p⟩

theorem Keeps.trans {s t u : SharedState} (h : s.Keeps t) (h' : t.Keeps u) : s.Keeps u := by
  intro k p hp
  obtain ⟨us, q, hq, hrun⟩ := h k p hp
  obtain ⟨vs, r, hr, hrun'⟩ := h' k q hq
  exact ⟨us ++ vs, r, hr, Runs.run_append.mpr ⟨q, hrun, hrun'⟩⟩

theorem Keeps.mem {s t : SharedState} (h : s.Keeps t) {k : String} (hk : k ∈ s.proxies) :
    k ∈ t.proxies := by
  obtain ⟨p, hp⟩ := FinMap.mem_iff.mp hk
  obtain ⟨_, q, hq, -⟩ := h k p hp
  exact FinMap.mem_of_get hq

theorem Keeps.insert {s : SharedState} {k : String} (hk : k ∉ s.proxies) (p : Proxy) :
    s.Keeps { s with proxies := s.proxies.insert k p } := by
  intro j q hq
  have hne : j ≠ k := fun h => hk (h ▸ FinMap.mem_of_get hq)
  exact ⟨[], q, (s.proxies.get_insert_of_ne p hne).trans hq, .nil q⟩

theorem Keeps.modify {s t : SharedState} {k : String} {now : Clock} {u : Update}
    (ht : t.proxies = s.proxies.modify k (u.apply · now)) : s.Keeps t := by
  intro j p hp
  by_cases hj : j = k
  · exact ⟨[(now, u)], u.apply p now, by rw [ht, FinMap.get_modify, if_pos hj, hp, Option.map_some],
      .single rfl⟩
  · exact ⟨[], p, by rw [ht, FinMap.get_modify, if_neg hj, hp], .nil p⟩

end SharedState

namespace Adding

def start (pool : SharedState) : Adding := ⟨pool, [], [], [], []⟩

/-- The state after one map operation; `none` where the call has not made its first one. -/
def apply (a : Adding) (now : Clock) : AddOp → Option Adding
  | .checkLen proxy =>
    some (if a.pool.IsFull then a else { a with admitted := proxy :: a.admitted })
  | .enter proxy =>
    if proxy ∈ a.admitted then
      some { a with
        pool := a.pool.enter proxy
        admitted := a.admitted.erase proxy
        entered := if proxy.key ∈ a.pool.proxies then a.entered else proxy :: a.entered }
    else none
  | .lookUp payload =>
    some (if payload.key ∈ a.pool.proxies then
      { a with replies := (payload, ⟨false, "Proxy already exists"⟩) :: a.replies }
    else { a with missed := payload :: a.missed })
  | .insert payload =>
    if payload ∈ a.missed then
      some { a with
        pool := (a.pool.insertAdded payload).2
        missed := a.missed.erase payload
        replies := (payload, (a.pool.insertAdded payload).1) :: a.replies }
    else none
  | .recordSuccess key latencyMs => some { a with pool := a.pool.recordSuccess now key latencyMs }
  | .recordFail key => some { a with pool := a.pool.recordFail now key }
  | .setTlsClean key clean => some { a with pool := a.pool.setTlsClean key clean }

def Step (a : Adding) (e : Clock × AddOp) (b : Adding) : Prop := a.apply e.1 e.2 = some b

/-- A call of `add_proxy` that inserts finds its key still absent. -/
def FindsAbsent (a : Adding) (e : Clock × AddOp) : Prop :=
  ∀ payload, e.2 = .insert payload → payload.key ∉ a.pool.proxies

/-- How many calls of `add_proxy` for the key have reported success. -/
def successes (a : Adding) (k : String) : ℕ :=
  a.replies.countP fun r => r.1.key = k ∧ r.2.success = true

/-- How many calls have reported that they inserted the key. -/
def reports (a : Adding) (k : String) : ℕ :=
  a.successes k + a.entered.countP fun p => p.key = k

/-- The keys that were absent from `pool` and are present now were each reported once. -/
def OneReport (pool : SharedState) (a : Adding) : Prop :=
  ∀ k, k ∉ pool.proxies → a.reports k = if k ∈ a.pool.proxies then 1 else 0

variable {a b : Adding} {e : Clock × AddOp}

/-- What one step does to the keys of the pool and to the reports. -/
inductive Effect (a : Adding) (e : Clock × AddOp) (b : Adding) : Prop where
  | same (hop : ∀ payload, e.2 ≠ .insert payload) (hkeeps : a.pool.Keeps b.pool)
      (hkeys : ∀ k, k ∈ b.pool.proxies ↔ k ∈ a.pool.proxies)
      (hreports : ∀ k, b.reports k = a.reports k)
  | adds (k : String) (hk : k ∉ a.pool.proxies) (hguard : a.FindsAbsent e)
      (hkeeps : a.pool.Keeps b.pool) (hkeys : ∀ j, j ∈ b.pool.proxies ↔ j = k ∨ j ∈ a.pool.proxies)
      (hreports : ∀ j, b.reports j = a.reports j + if j = k then 1 else 0)
  | replaces (payload : AddProxyRequest) (hop : e.2 = .insert payload)
      (hmissed : payload ∈ a.missed) (hk : payload.key ∈ a.pool.proxies)
      (hkeys : ∀ k, k ∈ b.pool.proxies ↔ k ∈ a.pool.proxies)
      (hreports : ∀ j, b.reports j = a.reports j + if j = payload.key then 1 else 0)

theorem Effect.of_update {k : String} (now : Clock) (u : Update)
    (hop : ∀ payload, e.2 ≠ .insert payload)
    (hpool : b.pool.proxies = a.pool.proxies.modify k (u.apply · now))
    (hreports : ∀ k, b.reports k = a.reports k) : a.Effect e b :=
  .same hop (.modify hpool) (fun j => by rw [hpool, FinMap.mem_modify]) hreports

theorem reports_reply (a : Adding) (payload : AddProxyRequest) (response : ApiResponse)
    (k : String) :
    { a with replies := (payload, response) :: a.replies }.reports k =
      a.reports k + if payload.key = k ∧ response.success = true then 1 else 0 := by
  simp only [reports, successes, List.countP_cons, decide_eq_true_eq]
  omega

theorem Step.effect (h : a.Step e b) : a.Effect e b := by
  obtain ⟨now, op⟩ := e
  cases op with
  | checkLen proxy =>
    obtain rfl := Option.some.inj h
    split_ifs
    · exact .same nofun (.refl _) (fun _ => Iff.rfl) fun _ => rfl
    · exact .same nofun (.refl _) (fun _ => Iff.rfl) fun _ => rfl
  | enter proxy =>
    obtain ⟨-, hb⟩ := Option.ite_none_right_eq_some.mp h
    obtain rfl := Option.some.inj hb
    by_cases hin : proxy.key ∈ a.pool.proxies
    · simp only [SharedState.enter, if_pos hin]
      exact .same nofun (.refl _) (fun _ => Iff.rfl) fun _ => rfl
    · simp only [SharedState.enter, if_neg hin]
      refine .adds proxy.key hin nofun (.insert hin proxy) (fun _ => FinMap.mem_insert) fun j => ?_
      simp only [reports, successes, List.countP_cons, decide_eq_true_eq, eq_comm (a := j)]
      omega
  | lookUp payload =>
    obtain rfl := Option.some.inj h
    split_ifs
    · refine .same nofun (.refl _) (fun _ => Iff.rfl) fun k => ?_
      simp [reports_reply]
    · exact .same nofun (.refl _) (fun _ => Iff.rfl) fun _ => rfl
  | insert payload =>
    obtain ⟨hmissed, hb⟩ := Option.ite_none_right_eq_some.mp h
    obtain rfl := Option.some.inj hb
    have hreports : ∀ j, Adding.reports { a with
        pool := (a.pool.insertAdded payload).2
        missed := a.missed.erase payload
        replies := (payload, (a.pool.insertAdded payload).1) :: a.replies } j =
          a.reports j + if j = payload.key then 1 else 0 := by
      intro j
      refine (reports_reply a payload (a.pool.insertAdded payload).1 j).trans ?_
      simp [SharedState.insertAdded, eq_comm]
    by_cases hin : payload.key ∈ a.pool.proxies
    · refine .replaces payload rfl hmissed hin (fun k => ?_) hreports
      rw [SharedState.insertAdded, FinMap.mem_insert]
      exact or_iff_right_of_imp fun hk => hk ▸ hin
    · refine .adds payload.key hin ?_ (.insert hin _) (fun _ => FinMap.mem_insert) hreports
      rintro _ ⟨⟩
      exact hin
  | recordSuccess key latencyMs =>
    obtain rfl := Option.some.inj h
    exact .of_update now (.recordSuccess latencyMs) nofun rfl fun _ => rfl
  | recordFail key =>
    obtain rfl := Option.some.inj h
    exact .of_update now .recordFail nofun rfl fun _ => rfl
  | setTlsClean key clean =>
    obtain rfl := Option.some.inj h
    exact .of_update now (.setTlsClean clean) nofun rfl fun _ => rfl

/-- Which calls a step lets past their look-up, and which it answers. -/
theorem Step.calls (h : a.Step e b) :
    (∀ r ∈ b.missed, r ∈ a.missed ∨ r.key ∉ a.pool.proxies) ∧
      ∀ r ∈ b.replies, r ∈ a.replies ∨ r.1.key ∈ b.pool.proxies := by
  obtain ⟨now, op⟩ := e
  cases op with
  | checkLen proxy =>
    obtain rfl := Option.some.inj h
    split_ifs
    · exact ⟨fun _ => Or.inl, fun _ => Or.inl⟩
    · exact ⟨fun _ => Or.inl, fun _ => Or.inl⟩
  | enter proxy =>
    obtain ⟨-, hb⟩ := Option.ite_none_right_eq_some.mp h
    obtain rfl := Option.some.inj hb
    exact ⟨fun _ => Or.inl, fun _ => Or.inl⟩
  | lookUp payload =>
    obtain rfl := Option.some.inj h
    split_ifs with hin
    · refine ⟨fun _ => Or.inl, fun r hr => ?_⟩
      rcases List.mem_cons.mp hr with rfl | hr
      · exact Or.inr hin
      · exact Or.inl hr
    · refine ⟨fun r hr => ?_, fun _ => Or.inl⟩
      rcases List.mem_cons.mp hr with rfl | hr
      · exact Or.inr hin
      · exact Or.inl hr
  | insert payload =>
    obtain ⟨-, hb⟩ := Option.ite_none_right_eq_some.mp h
    obtain rfl := Option.some.inj hb
    refine ⟨fun r hr => Or.inl (List.mem_of_mem_erase hr), fun r hr => ?_⟩
    rcases List.mem_cons.mp hr with rfl | hr
    · exact Or.inr (FinMap.mem_insert.mpr (Or.inl rfl))
    · exact Or.inl hr
  | recordSuccess key latencyMs =>
    obtain rfl := Option.some.inj h
    exact ⟨fun _ => Or.inl, fun _ => Or.inl⟩
  | recordFail key =>
    obtain rfl := Option.some.inj h
    exact ⟨fun _ => Or.inl, fun _ => Or.inl⟩
  | setTlsClean key clean =>
    obtain rfl := Option.some.inj h
    exact ⟨fun _ => Or.inl, fun _ => Or.inl⟩

/-- What holds in every run from `pool`, whatever its order. -/
structure Tracked (pool : SharedState) (a : Adding) : Prop where
  stays : ∀ k ∈ pool.proxies, k ∈ a.pool.proxies
  missed : ∀ r ∈ a.missed, r.key ∉ pool.proxies
  answered : ∀ r ∈ a.replies, r.1.key ∈ a.pool.proxies

theorem tracked_start (pool : SharedState) : (start pool).Tracked pool :=
  ⟨fun _ => id, nofun, nofun⟩

variable {pool : SharedState}

theorem Effect.mem (h : a.Effect e b) {k : String} (hk : k ∈ a.pool.proxies) :
    k ∈ b.pool.proxies := by
  cases h with
  | same _ _ hkeys _ => exact (hkeys k).mpr hk
  | adds _ _ _ _ hkeys _ => exact (hkeys k).mpr (Or.inr hk)
  | replaces _ _ _ _ hkeys _ => exact (hkeys k).mpr hk

theorem Tracked.step (ha : a.Tracked pool) (h : a.Step e b) : b.Tracked pool := by
  obtain ⟨hmissed, hreplies⟩ := h.calls
  refine ⟨fun k hk => h.effect.mem (ha.stays k hk), fun r hr hk => ?_, fun r hr => ?_⟩
  · rcases hmissed r hr with hold | hnew
    · exact ha.missed r hold hk
    · exact hnew (ha.stays r.key hk)
  · rcases hreplies r hr with hold | hnew
    · exact h.effect.mem (ha.answered r hold)
    · exact hnew

/-- A step keeps the reports right exactly when it inserts under no key that is present. -/
theorem Step.oneReport_iff (ha : a.Tracked pool) (hone : a.OneReport pool) (h : a.Step e b) :
    b.OneReport pool ↔ a.FindsAbsent e := by
  cases h.effect with
  | same hop _ hkeys hreports =>
    refine iff_of_true (fun k hk => ?_) fun payload hp => absurd hp (hop payload)
    rw [hreports, hone k hk]
    simp only [hkeys]
  | adds k hk hguard _ hkeys hreports =>
    refine iff_of_true (fun j hj => ?_) hguard
    rw [hreports, hone j hj]
    by_cases hjk : j = k
    · subst hjk
      simp [hkeys, hk]
    · simp [hkeys, hjk]
  | replaces payload hop hmissed hk hkeys hreports =>
    refine iff_of_false (fun hb => ?_) fun hguard => hguard payload hop hk
    have hnew := ha.missed payload hmissed
    have htwo := hb payload.key hnew
    rw [hreports, hone _ hnew, if_pos hk, if_pos ((hkeys _).mpr hk), if_pos rfl] at htwo
    cases htwo

theorem Step.keeps (h : a.Step e b) (hguard : a.FindsAbsent e) : a.pool.Keeps b.pool := by
  cases h.effect with
  | same _ hkeeps _ _ => exact hkeeps
  | adds _ _ _ hkeeps _ _ => exact hkeeps
  | replaces payload hop _ hk _ _ => exact absurd hk (hguard payload hop)

theorem Step.unique (a : Adding) (e : Clock × AddOp) (b c : Adding) (h : a.Step e b)
    (h' : a.Step e c) : b = c := Option.some.inj (h.symm.trans h')

/-- What adding by hand promises over a run: no record is replaced between any two moments, and
of the calls for a key that was absent at the start exactly one has reported success once the key
has been answered for, unless a source brought the key in. -/
def Kept (pool : SharedState) (es : List (Clock × AddOp)) : Prop :=
  (∀ before mid after u v, es = before ++ mid ++ after → Runs.Run Step (start pool) before u →
    Runs.Run Step u mid v → u.pool.Keeps v.pool) ∧
  ∀ before after u, es = before ++ after → Runs.Run Step (start pool) before u →
    u.OneReport pool ∧ ∀ k, k ∉ pool.proxies → (∃ r ∈ u.replies, r.1.key = k) →
      (∀ p ∈ u.entered, p.key ≠ k) → u.successes k = 1

theorem successes_eq_one (ha : a.Tracked pool) (hone : a.OneReport pool) {k : String}
    (hk : k ∉ pool.proxies) (hanswered : ∃ r ∈ a.replies, r.1.key = k)
    (hentered : ∀ p ∈ a.entered, p.key ≠ k) : a.successes k = 1 := by
  obtain ⟨r, hr, rfl⟩ := hanswered
  have hreports := hone r.1.key hk
  rw [if_pos (ha.answered r hr), reports] at hreports
  have hnone : a.entered.countP (fun p => p.key = r.1.key) = 0 := by
    rw [List.countP_eq_zero]
    intro p hp
    simpa using hentered p hp
  rwa [hnone] at hreports

/-- Adding by hand keeps its promise in exactly the runs in which every call that inserts finds its
key still absent. -/
theorem add_kept_iff (pool : SharedState) {es : List (Clock × AddOp)} {a : Adding}
    (h : Runs.Run Step (start pool) es a) :
    Kept pool es ↔ ∀ before e after u, es = before ++ e :: after →
      Runs.Run Step (start pool) before u → u.FindsAbsent e := by
  have hiff : (∀ before after u, es = before ++ after → Runs.Run Step (start pool) before u →
      u.OneReport pool) ↔ ∀ before e after u, es = before ++ e :: after →
      Runs.Run Step (start pool) before u → u.FindsAbsent e :=
    h.forall_good_iff Step.unique (fun _ _ _ => Tracked.step)
      (fun _ _ _ hs hg hstep => hstep.oneReport_iff hs hg) (tracked_start pool) fun k hk => by
        simp [start, reports, successes, hk]
  constructor
  · intro hkept
    exact hiff.mp fun before after u hes hu => (hkept.2 before after u hes hu).1
  · intro hguard
    refine ⟨fun before mid after u v hes hu hmid => ?_, fun before after u hes hu => ?_⟩
    · have hguarded : Runs.Run (Runs.Guarded Step FindsAbsent) u mid v := by
        refine hmid.guarded fun before' e after' w hmid' hw => ?_
        refine hguard (before ++ before') e (after' ++ after) w ?_ (Runs.run_append.mpr ⟨u, hu, hw⟩)
        rw [hes, hmid']
        simp only [List.append_assoc, List.cons_append]
      exact hguarded.relates (R := fun a b => a.pool.Keeps b.pool) (fun _ => .refl _)
        fun _ _ _ _ hst hstep => hst.trans (hstep.2.keeps hstep.1)
    · have hone := hiff.mpr hguard before after u hes hu
      have htracked : u.Tracked pool :=
        hu.invariant (fun _ _ _ hs hstep => hs.step hstep) (tracked_start pool)
      exact ⟨hone, fun k => successes_eq_one htracked hone⟩

/-! Two calls for one proxy, and a client that uses it meanwhile. -/

def byHand : AddProxyRequest := ⟨"1.2.3.4", 8080, none⟩

def lookUpNow : Clock × AddOp := (⟨0, 0⟩, .lookUp byHand)

def insertNow : Clock × AddOp := (⟨0, 0⟩, .insert byHand)

def usedMeanwhile : Clock × AddOp := (⟨0, 0⟩, .recordSuccess "1.2.3.4:8080" (.finite 100))

def emptyPool : SharedState := .withConfig 300 5000 []

/-- One call after the other: the first is told that the proxy was added, the second that it
exists. -/
theorem add_kept_in_turn :
    ∃ a, Runs.Run Step (start emptyPool) [lookUpNow, insertNow, usedMeanwhile, lookUpNow] a ∧
      Kept emptyPool [lookUpNow, insertNow, usedMeanwhile, lookUpNow] ∧
      a.successes "1.2.3.4:8080" = 1 := by
  have hguarded : ∃ a, Runs.Run (Runs.Guarded Step FindsAbsent) (start emptyPool)
      [lookUpNow, insertNow, usedMeanwhile, lookUpNow] a ∧ a.successes "1.2.3.4:8080" = 1 := by
    refine ⟨_, .cons ⟨nofun, rfl⟩ (.cons ⟨?_, rfl⟩ (.cons ⟨nofun, rfl⟩ (.single ⟨nofun, rfl⟩))),
      by decide⟩
    rintro _ ⟨⟩
    decide
  obtain ⟨a, hrun, hone⟩ := hguarded
  exact ⟨a, hrun.unguarded, (add_kept_iff emptyPool hrun.unguarded).mpr
    fun _ _ _ _ => hrun.guard Step.unique, hone⟩

/-- Two calls that both look before either inserts: both are told that the proxy was added, and
the second wipes out what the client reported in between. -/
theorem add_replaces_record :
    ∃ a b, Runs.Run Step (start emptyPool) [lookUpNow, lookUpNow, insertNow, usedMeanwhile] a ∧
      Step a insertNow b ∧ (a.pool.proxies.get "1.2.3.4:8080").map (·.successCount) = some 1 ∧
      (b.pool.proxies.get "1.2.3.4:8080").map (·.successCount) = some 0 ∧
      b.successes "1.2.3.4:8080" = 2 ∧
      ¬Kept emptyPool [lookUpNow, lookUpNow, insertNow, usedMeanwhile, insertNow] := by
  refine ⟨_, _, .cons rfl (.cons rfl (.cons rfl (.single rfl))), rfl, by decide, by decide,
    by decide, fun hkept => ?_⟩
  have hone := (hkept.2 _ [] _ (List.append_nil _).symm
    (.cons rfl (.cons rfl (.cons rfl (.cons rfl (.single rfl)))))).1 "1.2.3.4:8080" (by decide)
  revert hone
  decide

end Adding

end VpnGateway
