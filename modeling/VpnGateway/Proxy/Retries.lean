import VpnGateway.Pool.CleanSelection
import VpnGateway.Proxy.StaleKeys
import VpnGateway.Proxy.StickyDisabled

/-! The attempts of one connection, each with what other tasks have made of the shared state by
then, and when a retry can come back to a proxy that has just failed. -/
namespace VpnGateway

namespace SharedState

variable {s : SharedState} {now : Clock} {targetPort : UInt16}

/-- What a fresh selection for the port can answer with. -/
def Offered (s : SharedState) (now : Clock) (targetPort : UInt16) (p : Proxy) : Prop :=
  if isHttps targetPort then s.RankedForTls now p else s.Ranked now p

theorem offered_iff {p : Proxy} : s.Offered now targetPort p ↔
    ∃ c : s.Choice, c.now = now ∧ s.freshSelection c targetPort = some p := by
  unfold Offered freshSelection
  split_ifs
  · constructor
    · exact RankedForTls.exists_selectBestForTls_eq
    · rintro ⟨c, rfl, hc⟩
      exact selectBestForTls_ranked hc
  · constructor
    · exact Ranked.exists_selectBest_eq
    · rintro ⟨c, rfl, hc⟩
      exact selectBest_ranked hc

/-- In a small pool every usable verified proxy is ranked. -/
theorem ranked_of_verified {k : String} {p : Proxy} (hlen : s.proxies.len < 10)
    (hp : s.proxies.get k = some p) (hu : s.isUsable now p) (hst : p.status = some .verified) :
    s.Ranked now p := by
  obtain ⟨havail, hexcl⟩ := isUsable_iff.mp hu
  refine ⟨⟨k, hp⟩, havail, hexcl, Or.inl hst, fun _ q _ _ => ?_, fun _ => ?_⟩
  · rw [hst]
    exact Nat.zero_le _
  · exact (s.proxies.countP_le_len _).trans_lt hlen

/-- A failure below the first tier of the breaker leaves the proxy where selection finds it. -/
theorem ranked_recordFail {k : String} {p : Proxy} (hlen : s.proxies.len < 10)
    (hp : s.proxies.get k = some p) (hu : s.isUsable now p) (hst : p.status = some .verified)
    (hfew : (p.consecutiveFails + 1).toNat ≤ 4) :
    (s.recordFail now k).Ranked now (p.recordFail now) := by
  have hfail : p.recordFail now = p.countFail now := by
    rcases p.recordFail_cases now rfl with ⟨-, h⟩ | ⟨d, -, -, h5, -⟩ | ⟨h50, -⟩
    · exact h
    · omega
    · omega
  have hget : (s.recordFail now k).proxies.get k = some (p.recordFail now) := by
    rw [SharedState.recordFail, FinMap.get_modify, if_pos rfl, hp, Option.map_some]
  refine ranked_of_verified hlen hget ?_ ?_
  · rw [hfail]
    exact hu
  · rw [hfail]
    exact hst

/-- The pool holds a proxy that selection admits and whose key is not among the tried ones. -/
def HasUntried (s : SharedState) (now : Clock) (tried : List String) : Prop :=
  ∃ k p, s.proxies.get k = some p ∧ s.isCandidate now p ∧ p.key ∉ tried

end SharedState

open SharedState

/-- The shared state as one attempt meets it: when it looks its key up in the session table, when
it reads the pool, and when it is woken, if it has to wait. -/
structure Moment where
  lookup : SharedState
  lookupNow : Clock
  state : SharedState
  now : Clock
  later : SharedState
  laterNow : Clock
  reads : ∃ es, Runs.Run Step lookup es state
  wakes : ∃ es, Runs.Run Step state es later

/-- One attempt: the proxy it connects through, and the state and time of its choice. -/
structure Try where
  state : SharedState
  now : Clock
  proxy : Proxy

def triedKeys (tries : List Try) : List String := tries.map fun x => x.proxy.key

/-- What attempt number `attempt` can choose in the moment. -/
inductive Moment.Uses (m : Moment) (peer : SocketAddr) (targetPort : UInt16) (attempt : ℕ) :
    Try → Prop where
  | atOnce (c : m.state.Choice) (hc : c.now = m.now) (p : Proxy)
      (hp : selectionAfter m.lookup m.lookupNow m.state c peer targetPort attempt =
        some (some p)) : Uses m peer targetPort attempt ⟨m.state, m.now, p⟩
  | afterWait (c : m.state.Choice) (hc : c.now = m.now)
      (hempty : selectionAfter m.lookup m.lookupNow m.state c peer targetPort attempt =
        some none)
      (c' : m.later.Choice) (hc' : c'.now = m.laterNow) (p : Proxy)
      (hp : m.later.selectBest c' = some p) :
      Uses m peer targetPort attempt ⟨m.later, m.laterNow, p⟩

/-- The attempt gets nothing at once: its key is stale, or it has none and no tier admits a
proxy. -/
def Moment.Waits (m : Moment) (peer : SocketAddr) (targetPort : UInt16) (attempt : ℕ) : Prop :=
  (∃ key, m.lookup.storedKey m.lookupNow peer targetPort attempt = some (some key) ∧
    key ∉ m.state.proxies) ∨
  m.lookup.storedKey m.lookupNow peer targetPort attempt = some none ∧
    ∀ k p, m.state.proxies.get k = some p → ¬ m.state.isCandidate m.now p

/-- A connection with everything around it: the moment of the next attempt after the failed ones.
It comes after the failure of the last one was recorded, with any steps of other tasks. -/
structure Connection where
  peer : SocketAddr
  targetPort : UInt16
  moment : List Try → Moment
  follows : ∀ tries x, (moment tries).Uses peer targetPort tries.length x →
    ∃ es u failedAt es', Runs.Run Step x.state es u ∧
      Runs.Run Step (u.recordFail failedAt x.proxy.key) es' (moment (tries ++ [x])).lookup

namespace Connection

variable {conn : Connection} {tries : List Try} {x : Try}

def maxRetries : ℕ := 3

/-- The attempts that the connection can have made so far, for all draws. -/
inductive Tried (conn : Connection) : List Try → Prop where
  | start : Tried conn []
  | attempt (tries : List Try) (x : Try) (h : Tried conn tries) (hlen : tries.length < maxRetries)
      (hx : (conn.moment tries).Uses conn.peer conn.targetPort tries.length x) :
      Tried conn (tries ++ [x])

/-- Whether a retry after the failed attempts `tries` has somewhere else to go. -/
def HasElsewhere (tries : List Try) (x : Try) : Prop := x.state.HasUntried x.now (triedKeys tries)

/-- A retry goes to a proxy that was not tried, whenever there is one; so the proxies of a
connection are pairwise distinct while every retry has one. -/
structure GoesElsewhere (conn : Connection) : Prop where
  retry : ∀ tries x, tries ≠ [] → conn.Tried (tries ++ [x]) → HasElsewhere tries x →
    x.proxy.key ∉ triedKeys tries
  distinct : ∀ tries, conn.Tried tries →
    (∀ before x after, tries = before ++ x :: after → before ≠ [] → HasElsewhere before x) →
    (triedKeys tries).Nodup

end Connection

namespace Moment

variable {m : Moment} {peer : SocketAddr} {targetPort : UInt16} {attempt : ℕ}

theorem selectionAfter_eq_some {c : m.state.Choice} {p : Proxy} :
    selectionAfter m.lookup m.lookupNow m.state c peer targetPort attempt = some (some p) ↔
      (∃ key, m.lookup.storedKey m.lookupNow peer targetPort attempt = some (some key) ∧
        m.state.proxies.get key = some p) ∨
      m.lookup.storedKey m.lookupNow peer targetPort attempt = some none ∧
        m.state.freshSelection c targetPort = some p := by
  unfold selectionAfter
  cases m.lookup.storedKey m.lookupNow peer targetPort attempt with
  | none => simp
  | some stored => cases stored <;> simp

theorem selectionAfter_eq_none {c : m.state.Choice} (hc : c.now = m.now) :
    selectionAfter m.lookup m.lookupNow m.state c peer targetPort attempt = some none ↔
      m.Waits peer targetPort attempt := by
  unfold selectionAfter Waits
  rw [← hc]
  cases m.lookup.storedKey m.lookupNow peer targetPort attempt with
  | none => simp
  | some stored => cases stored <;> simp [freshSelection_eq_none, FinMap.notMem_iff]

/-- The moment has no way back to a tried proxy: the record of the session key is another one,
and no tried one is still among those that selection can answer with. -/
structure LeavesTried (m : Moment) (peer : SocketAddr) (targetPort : UInt16) (attempt : ℕ)
    (tried : List String) : Prop where
  session : m.state.HasUntried m.now tried → ∀ key p,
    m.lookup.storedKey m.lookupNow peer targetPort attempt = some (some key) →
    m.state.proxies.get key = some p → p.key ∉ tried
  fresh : m.state.HasUntried m.now tried →
    m.lookup.storedKey m.lookupNow peer targetPort attempt = some none →
    ∀ p, m.state.Offered m.now targetPort p → p.key ∉ tried
  woken : m.later.HasUntried m.laterNow tried → m.Waits peer targetPort attempt →
    ∀ p, m.later.Ranked m.laterNow p → p.key ∉ tried

/-- What one attempt can do: it leaves the tried proxies for all draws exactly when the moment
has no way back to them. -/
theorem leavesTried_iff {tried : List String} : m.LeavesTried peer targetPort attempt tried ↔
    ∀ x, m.Uses peer targetPort attempt x → x.state.HasUntried x.now tried →
      x.proxy.key ∉ tried := by
  obtain ⟨c₀, hc₀⟩ := m.state.exists_choice m.now
  constructor
  · rintro ⟨hsession, hfresh, hwoken⟩ x hx huntried
    cases hx with
    | atOnce c hc p hp =>
      rcases selectionAfter_eq_some.mp hp with ⟨key, hkey, hget⟩ | ⟨hnone, hsel⟩
      · exact hsession huntried key p hkey hget
      · exact hfresh huntried hnone p (offered_iff.mpr ⟨c, hc, hsel⟩)
    | afterWait c hc hempty c' hc' p hp =>
      exact hwoken huntried ((selectionAfter_eq_none hc).mp hempty) p
        (hc' ▸ selectBest_ranked hp)
  · intro h
    refine ⟨fun huntried key p hkey hget => ?_, fun huntried hnone p hp => ?_,
      fun huntried hwaits p hp => ?_⟩
    · exact h _ (.atOnce c₀ hc₀ p (selectionAfter_eq_some.mpr (Or.inl ⟨key, hkey, hget⟩))) huntried
    · obtain ⟨c, hc, hsel⟩ := offered_iff.mp hp
      exact h _ (.atOnce c hc p (selectionAfter_eq_some.mpr (Or.inr ⟨hnone, hsel⟩))) huntried
    · obtain ⟨c', hc', hsel⟩ := hp.exists_selectBest_eq
      exact h _ (.afterWait c₀ hc₀ ((selectionAfter_eq_none hc₀).mpr hwaits) c' hc' p hsel)
        huntried

end Moment

namespace Connection

variable {conn : Connection}

@[simp] theorem triedKeys_append (before after : List Try) :
    triedKeys (before ++ after) = triedKeys before ++ triedKeys after := List.map_append

theorem tried_snoc {tries : List Try} {x : Try} : conn.Tried (tries ++ [x]) ↔
    conn.Tried tries ∧ tries.length < maxRetries ∧
      (conn.moment tries).Uses conn.peer conn.targetPort tries.length x := by
  constructor
  · intro h
    generalize hall : tries ++ [x] = all at h
    cases h with
    | start => simp at hall
    | attempt tries' x' h hlen hx =>
      obtain ⟨rfl, hxs⟩ := List.append_inj' hall rfl
      obtain rfl := List.singleton_inj.mp hxs
      exact ⟨h, hlen, hx⟩
  · rintro ⟨h, hlen, hx⟩
    exact .attempt tries x h hlen hx

/-- If every retry leaves the tried proxies, those of a whole connection are distinct. -/
theorem nodup_of_tried (hretry : ∀ tries x, tries ≠ [] → conn.Tried (tries ++ [x]) →
      HasElsewhere tries x → x.proxy.key ∉ triedKeys tries)
    {tries : List Try} (h : conn.Tried tries)
    (helse : ∀ before x after, tries = before ++ x :: after → before ≠ [] →
      HasElsewhere before x) : (triedKeys tries).Nodup := by
  induction h with
  | start => exact List.nodup_nil
  | attempt tries x h hlen hx ih =>
    have hbefore : (triedKeys tries).Nodup := by
      refine ih fun before y after hsplit hne => helse before y (after ++ [x]) ?_ hne
      rw [hsplit, List.append_assoc, List.cons_append]
    have hlast : x.proxy.key ∉ triedKeys tries := by
      by_cases hne : tries = []
      · simp [hne, triedKeys]
      · exact hretry tries x hne (.attempt tries x h hlen hx) (helse tries x [] rfl hne)
    rw [triedKeys_append, List.nodup_append]
    refine ⟨hbefore, List.nodup_singleton _, ?_⟩
    rintro k hk k' hk' rfl
    obtain rfl := List.mem_singleton.mp hk'
    exact hlast hk

/-- The retries of a connection go elsewhere for all draws exactly when every moment they can
meet leaves them no way back to a tried proxy while there is an untried one. -/
theorem goesElsewhere_iff (conn : Connection) : conn.GoesElsewhere ↔
    ∀ tries, tries ≠ [] → conn.Tried tries → tries.length < maxRetries →
      (conn.moment tries).LeavesTried conn.peer conn.targetPort tries.length
        (triedKeys tries) := by
  have hretry : (∀ tries x, tries ≠ [] → conn.Tried (tries ++ [x]) → HasElsewhere tries x →
      x.proxy.key ∉ triedKeys tries) ↔
      ∀ tries, tries ≠ [] → conn.Tried tries → tries.length < maxRetries →
        (conn.moment tries).LeavesTried conn.peer conn.targetPort tries.length
          (triedKeys tries) := by
    constructor
    · intro h tries hne htried hlen
      refine Moment.leavesTried_iff.mpr fun x hx huntried => ?_
      exact h tries x hne (.attempt tries x htried hlen hx) huntried
    · intro h tries x hne htried huntried
      obtain ⟨htried, hlen, hx⟩ := tried_snoc.mp htried
      exact Moment.leavesTried_iff.mp (h tries hne htried hlen) x hx huntried
  rw [← hretry]
  exact ⟨fun h => h.retry, fun h => ⟨h, fun tries htried => nodup_of_tried h htried⟩⟩

/-! A client without a session, two verified proxies, and no other task. -/

/-- The pool after the failures were recorded. -/
def failing (tries : List Try) : SharedState :=
  tries.foldl (fun s x => s.recordFail epoch x.proxy.key) usedPool

def undisturbed : Connection where
  peer := client
  targetPort := 80
  moment tries := ⟨failing tries, epoch, failing tries, epoch, failing tries, epoch,
    ⟨[], .nil _⟩, ⟨[], .nil _⟩⟩
  follows tries x hx := by
    have hstate : x.state = failing tries := by
      cases hx with
      | atOnce => rfl
      | afterWait => rfl
    refine ⟨[], x.state, epoch, [], .nil _, ?_⟩
    have hfail : failing (tries ++ [x]) = x.state.recordFail epoch x.proxy.key := by
      rw [failing, List.foldl_append, hstate]
      rfl
    exact hfail ▸ .nil _

/-- Outside HTTPS a moment without a session key can choose any ranked proxy. -/
theorem uses_of_ranked {m : Moment} {peer : SocketAddr} {attempt : ℕ} {p : Proxy}
    (hkey : m.lookup.storedKey m.lookupNow peer 80 attempt = some none)
    (hp : m.state.Ranked m.now p) : m.Uses peer 80 attempt ⟨m.state, m.now, p⟩ := by
  have hoffer : m.state.Offered m.now 80 p := hp
  obtain ⟨c, hc, hsel⟩ := offered_iff.mp hoffer
  exact .atOnce c hc p (Moment.selectionAfter_eq_some.mpr (Or.inr ⟨hkey, hsel⟩))

/-- The first retry can go back to the proxy that has just failed, although the other one is
verified and was not tried. -/
theorem goesElsewhere_fails_undisturbed :
    (∃ es, Runs.Run Step (withConfig 300 5000 []) es (undisturbed.moment []).lookup) ∧
    ¬ undisturbed.GoesElsewhere := by
  constructor
  · have happly : applyAll epoch (withConfig 300 5000 [])
        [.addProxy ⟨"1.1.1.1", 80, none⟩, .addProxy ⟨"2.2.2.2", 80, none⟩,
          .recordSuccess "1.1.1.1:80" (.finite 100), .recordSuccess "2.2.2.2:80" (.finite 100)] =
        some usedPool := rfl
    obtain ⟨es, -, hrun⟩ := run_of_applyAll happly
    exact ⟨es, hrun⟩
  rintro ⟨hretry, -⟩
  have hfirst : ∃ p, usedPool.proxies.get "1.1.1.1:80" = some p ∧ p.key = "1.1.1.1:80" ∧
      usedPool.isUsable epoch p ∧ p.status = some .verified ∧
      (p.consecutiveFails + 1).toNat ≤ 4 := ⟨_, rfl, by decide, by decide, rfl, by decide⟩
  have hother : ∃ q, usedPool.proxies.get "2.2.2.2:80" = some q ∧ q.key = "2.2.2.2:80" ∧
      usedPool.isCandidate epoch q := ⟨_, rfl, by decide, by decide⟩
  obtain ⟨p, hp, hpkey, hu, hst, hfew⟩ := hfirst
  obtain ⟨q, hq, hqkey, hqcand⟩ := hother
  have hlen : usedPool.proxies.len < 10 := by decide
  -- the first attempt draws one of the two, and fails
  let x : Try := ⟨usedPool, epoch, p⟩
  have htried : undisturbed.Tried [x] :=
    .attempt [] x .start (by decide) (uses_of_ranked rfl (ranked_of_verified hlen hp hu hst))
  -- the retry draws the same one again
  have hstate : failing [x] = usedPool.recordFail epoch "1.1.1.1:80" := hpkey ▸ rfl
  let y : Try := ⟨failing [x], epoch, p.recordFail epoch⟩
  have hranked : (failing [x]).Ranked epoch (p.recordFail epoch) :=
    hstate ▸ ranked_recordFail hlen hp hu hst hfew
  have hagain : undisturbed.Tried ([x] ++ [y]) :=
    .attempt [x] y htried (by simp [maxRetries]) (uses_of_ranked rfl hranked)
  have helse : HasElsewhere [x] y := by
    refine ⟨"2.2.2.2:80", q, ?_, hqcand, ?_⟩
    · change (failing [x]).proxies.get "2.2.2.2:80" = some q
      rw [hstate, SharedState.recordFail, FinMap.get_modify, if_neg (by decide), hq]
    · simp [triedKeys, x, hpkey, hqkey]
  refine hretry [x] y (by simp) hagain helse ?_
  simp [triedKeys, x, y, Proxy.key_recordFail]

end Connection

end VpnGateway
