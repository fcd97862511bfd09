import VpnGateway.Pool.Keys
import VpnGateway.Pool.Selection
import VpnGateway.Pool.WarmPoolRuns

/-! The warm pool beside the pool of proxies: the loop of the gateway lists the best proxies of the
moment and refreshes the warm pool with them, while both change. -/
namespace VpnGateway

open Runs

namespace SharedState

variable {s : SharedState} {it : s.proxies.Iteration} {now : Clock} {n : ℕ}

/-- Who may be listed: a verified proxy that is available and in no excluded country. -/
def IsStable (s : SharedState) (now : Clock) (k : String) : Prop :=
  ∃ p, s.proxies.get k = some p ∧ p.isAvailable now ∧ p.status = some .verified ∧
    s.isExcluded p = false

/-- The list for a refresh has at most so many entries, one for a key, all of stable proxies. -/
theorem AllKeyed.topStableProxies (hs : s.AllKeyed) :
    (s.topStableProxies it now n).length ≤ n ∧
    ((s.topStableProxies it now n).map Prod.fst).Nodup ∧
    ∀ e ∈ s.topStableProxies it now n, e.2 = e.1 ∧ s.IsStable now e.1 := by
  let kept := TopN.selectSorted n (fun e => ((e.2.score now : ℚ) : Score ℚ))
    (s.passing it (s.hasStatus now .verified))
  have htop : s.IsTop (fun e => e.2.score now) n (s.hasStatus now .verified) kept :=
    isTop_of_perm (TopN.selectSorted_perm n _ _)
  have hlist : s.topStableProxies it now n = kept.map fun e => (e.2.key, e.2.addr) :=
    List.map_map
  have hkeys : kept.map (fun e => e.2.key) = kept.map Prod.fst :=
    List.map_congr_left fun e he => (hs.live e.1 e.2 (htop.stored e he)).symm
  refine ⟨?_, ?_, fun e he => ?_⟩
  · rw [hlist, List.length_map, htop.length]
    exact min_le_left _ _
  · rw [hlist, List.map_map]
    exact hkeys ▸ htop.distinct
  · rw [hlist, List.mem_map] at he
    obtain ⟨⟨k, p⟩, hmem, rfl⟩ := he
    have hget := htop.stored _ hmem
    obtain ⟨husable, hstatus⟩ := hasStatus_iff.mp (htop.passes _ hmem)
    obtain ⟨havailable, hcountry⟩ := isUsable_iff.mp husable
    refine ⟨rfl, p, ?_, havailable, hstatus, hcountry⟩
    rw [← hs.live k p hget]
    exact hget

end SharedState

/-- Both pools. -/
structure WarmGateway (ι : Type*) where
  pool : SharedState
  warm : WarmWorld ι

namespace WarmGateway

variable {ι : Type*}

/-- An operation on the pool of proxies, a refresh with its list, or an event of the warm pool. -/
inductive Event (ι : Type*) where
  | pool (e : SharedState.StoreEvent)
  | refresh (now : Clock) (top : List (String × String))
  | warm (now : Instant) (event : WarmEvent ι)

def start (pool : SharedState) : WarmGateway ι := ⟨pool, .start⟩

variable [DecidableEq ι] [Fintype ι]

inductive Step (c : WarmSetup ι) (s : WarmGateway ι) : Event ι → WarmGateway ι → Prop where
  | pool {e : SharedState.StoreEvent} {pool : SharedState} (h : s.pool.StoreStep e pool) :
      Step c s (.pool e) { s with pool := pool }
  | refresh {warm : WarmWorld ι} (now : Clock) (it : s.pool.proxies.Iteration)
      (h : s.warm.Step c (.refresh (s.pool.topStableProxies it now c.maxProxies)) warm) :
      Step c s (.refresh now (s.pool.topStableProxies it now c.maxProxies)) { s with warm := warm }
  | warm {warm : WarmWorld ι} (now : Instant) (event : WarmEvent ι)
      (h : s.warm.Step c (.event now event) warm) :
      Step c s (.warm now event) { s with warm := warm }

namespace Event

def poolEvent : Event ι → Option SharedState.StoreEvent
  | pool e => some e
  | refresh _ _ | warm _ _ => none

def warmCall : Event ι → Option (WarmCall ι)
  | pool _ => none
  | refresh _ top => some (.refresh top)
  | warm now event => some (.event now event)

end Event

variable {c : WarmSetup ι} {s t : WarmGateway ι} {es : List (Event ι)}

/-- Each pool goes through a run of its own. -/
theorem run_parts (h : Run (Step c) s es t) :
    Run SharedState.StoreStep s.pool (es.filterMap Event.poolEvent) t.pool ∧
    Run (WarmWorld.Step c) s.warm (es.filterMap Event.warmCall) t.warm := by
  induction h with
  | nil s => exact ⟨.nil _, .nil _⟩
  | cons head _ ih =>
    cases head with
    | pool h => exact ⟨.cons h ih.1, ih.2⟩
    | refresh now it h => exact ⟨ih.1, .cons h ih.2⟩
    | warm now event h => exact ⟨ih.1, .cons h ih.2⟩

/-- What both pools keep together: the list of the last refresh fits. -/
structure Inv (c : WarmSetup ι) (s : WarmGateway ι) : Prop where
  keyed : s.pool.AllKeyed
  warm : s.warm.Inv c
  fits : s.warm.topProxyKeys.length ≤ c.maxProxies

theorem topProxyKeys_event {w w' : WarmWorld ι} {now : Instant} {event : WarmEvent ι}
    (h : w.Step c (.event now event) w') : w'.topProxyKeys = w.topProxyKeys ∧
      w'.opened = w.pool.opens event ++ w.opened := by
  simp only [WarmWorld.Step, WarmWorld.apply] at h
  split_ifs at h
  obtain ⟨pool, -, rfl⟩ := Option.map_eq_some_iff.mp h
  exact ⟨rfl, rfl⟩

theorem topProxyKeys_refresh {w w' : WarmWorld ι} {top : List (String × String)}
    (h : w.Step c (.refresh top) w') : w'.topProxyKeys = top ∧ w'.opened = w.opened := by
  simp only [WarmWorld.Step, WarmWorld.apply] at h
  split_ifs at h
  obtain rfl := Option.some.inj h
  exact ⟨rfl, rfl⟩

theorem Step.inv {e : Event ι} (h : Step c s e t) (hs : s.Inv c) : t.Inv c := by
  cases h with
  | pool h => exact ⟨hs.keyed.storeStep h, hs.warm, hs.fits⟩
  | refresh now it h =>
    refine ⟨hs.keyed, h.inv hs.warm, ?_⟩
    rw [(topProxyKeys_refresh h).1]
    exact hs.keyed.topStableProxies.1
  | warm now event h =>
    refine ⟨hs.keyed, h.inv hs.warm, ?_⟩
    rw [(topProxyKeys_event h).1]
    exact hs.fits

omit [DecidableEq ι] in
theorem inv_start (ttl : UInt64) (maxProxies : ℕ) (countries : List String) :
    (start (.withConfig ttl maxProxies countries) : WarmGateway ι).Inv c :=
  ⟨SharedState.allKeyed_withConfig ttl maxProxies countries, WarmWorld.inv_start c, Nat.zero_le _⟩

omit [DecidableEq ι] in
/-- A connection is opened for a proxy of the list of that refresh. -/
theorem listed_of_opens {w : WarmWorld ι} (hw : w.Inv c) {event : WarmEvent ι} {conn : ℕ × String}
    (h : conn ∈ w.pool.opens event) : conn.2 ∈ w.topProxyKeys.map Prod.fst := by
  cases event with
  | connected stream =>
    cases stream with
    | none => cases h
    | some stream =>
      simp only [WarmPool.opens] at h
      split at h
      next proxy rest hconnecting =>
        obtain rfl := List.mem_singleton.mp h
        have htracked := hw.regular.tracked
        rw [hconnecting] at htracked
        exact htracked.1 _ (hw.regular.present.2 _ _ _ hconnecting)
      next => cases h
  | dispatch task | take i alive | refresh => cases h

theorem opened_listed (h : Run (Step c) s es t) (hs : s.Inv c) {conn : ℕ × String}
    (hconn : conn ∈ t.warm.opened) :
    conn ∈ s.warm.opened ∨ conn.2 ∈ s.warm.topProxyKeys.map Prod.fst ∨
      ∃ now top, .refresh now top ∈ es ∧ conn.2 ∈ top.map Prod.fst := by
  induction h with
  | nil s => exact .inl hconn
  | cons head _ ih =>
    have hrest := ih (head.inv hs) hconn
    cases head with
    | pool h =>
      refine hrest.imp_right (Or.imp_right ?_)
      rintro ⟨now, top, hmem, hkey⟩
      exact ⟨now, top, List.mem_cons_of_mem _ hmem, hkey⟩
    | refresh now it h =>
      obtain ⟨htop, hopened⟩ := topProxyKeys_refresh h
      dsimp only at hrest
      rw [htop, hopened] at hrest
      rcases hrest with hopen | hkey | ⟨now', top, hmem, hkey⟩
      · exact .inl hopen
      · exact .inr (.inr ⟨_, _, List.mem_cons_self, hkey⟩)
      · exact .inr (.inr ⟨now', top, List.mem_cons_of_mem _ hmem, hkey⟩)
    | warm now event h =>
      obtain ⟨htop, hopened⟩ := topProxyKeys_event h
      dsimp only at hrest
      rw [htop, hopened, List.mem_append] at hrest
      rcases hrest with (hnew | hopen) | hkey | ⟨now', top, hmem, hkey⟩
      · exact .inr (.inl (listed_of_opens hs.warm hnew))
      · exact .inl hopen
      · exact .inr (.inl hkey)
      · exact .inr (.inr ⟨now', top, List.mem_cons_of_mem _ hmem, hkey⟩)

/-- However the two pools take turns: each refresh gets at most as many proxies as the warm pool
tracks, each key once. A warm connection, whether it waits or has been handed out, goes to a proxy
that was verified, available and not excluded when some refresh listed it. At the end of a refresh
no more connections wait than the settings allow for all proxies together. -/
theorem warm_connections_stable (ttl : UInt64) (maxProxies : ℕ) (countries : List String)
    (h : Run (Step c) (start (.withConfig ttl maxProxies countries)) es t) :
    Run SharedState.StoreStep (.withConfig ttl maxProxies countries)
      (es.filterMap Event.poolEvent) t.pool ∧
    Run (WarmWorld.Step c) .start (es.filterMap Event.warmCall) t.warm ∧
    (∀ now top, .refresh now top ∈ es → top.length ≤ c.maxProxies ∧ (top.map Prod.fst).Nodup) ∧
    (∀ conn ∈ t.warm.opened, ∃ before now top after u, es = before ++ .refresh now top :: after ∧
      Run (Step c) (start (.withConfig ttl maxProxies countries)) before u ∧
      (conn.2, conn.2) ∈ top ∧ u.pool.IsStable now conn.2) ∧
    (∀ key, ∀ conn ∈ t.warm.pool.queueAt key, (conn.stream, key) ∈ t.warm.opened) ∧
    (∀ i stream, t.warm.pool.returned i = some (some stream) →
      (stream, c.proxyKey i) ∈ t.warm.opened) ∧
    (t.warm.pool.refresher = .done →
      ∑ key ∈ t.warm.pool.connections.keys, (t.warm.pool.queueAt key).length ≤
        c.maxProxies * c.maxPerProxy) := by
  have hstart : (start (.withConfig ttl maxProxies countries) : WarmGateway ι).Inv c :=
    inv_start ttl maxProxies countries
  have hstep : ∀ (s : WarmGateway ι) (e : Event ι) (t : WarmGateway ι),
      s.Inv c → Step c s e t → t.Inv c := fun _ _ _ hs h => h.inv hs
  have hinv : t.Inv c := h.invariant hstep hstart
  have hkept := hinv.warm.kept
  -- the state in which a refresh of the run made its list
  have hlisted : ∀ now top, .refresh now top ∈ es → ∃ before after u it,
      es = before ++ .refresh now top :: after ∧
      Run (Step c) (start (.withConfig ttl maxProxies countries)) before u ∧ u.Inv c ∧
      top = u.pool.topStableProxies it now c.maxProxies := by
    intro now top hmem
    obtain ⟨before, after, rfl⟩ := List.append_of_mem hmem
    obtain ⟨u, hbefore, hafter⟩ := run_append.mp h
    cases hafter with
    | cons head _ =>
      cases head with
      | refresh _ it =>
        exact ⟨before, after, u, it, rfl, hbefore, hbefore.invariant hstep hstart, rfl⟩
  refine ⟨(run_parts h).1, (run_parts h).2, fun now top hmem => ?_, fun conn hconn => ?_,
    fun key conn hconn => (hkept.own key conn hconn).2,
    fun i stream hi => (hkept.given i stream hi).1, fun hdone => ?_⟩
  · obtain ⟨before, after, u, it, -, -, hu, rfl⟩ := hlisted now top hmem
    exact ⟨hu.keyed.topStableProxies.1, hu.keyed.topStableProxies.2.1⟩
  · rcases opened_listed h hstart hconn with hopen | hkey | ⟨now, top, hmem, hkey⟩
    · cases hopen
    · cases hkey
    · obtain ⟨before, after, u, it, hsplit, hbefore, hu, rfl⟩ := hlisted now top hmem
      obtain ⟨⟨key, addr⟩, hentry, rfl⟩ := List.mem_map.mp hkey
      obtain ⟨haddr, hstable⟩ := hu.keyed.topStableProxies.2.2 _ hentry
      obtain rfl : addr = conn.2 := haddr
      exact ⟨before, now, _, after, u, hsplit, hbefore, hentry, hstable⟩
  · have htracked := hinv.warm.regular.tracked
    rw [hdone] at htracked
    have hkeys : t.warm.pool.connections.keys ⊆ (t.warm.topProxyKeys.map Prod.fst).toFinset :=
      fun key hkey => List.mem_toFinset.mpr (htracked key hkey)
    calc ∑ key ∈ t.warm.pool.connections.keys, (t.warm.pool.queueAt key).length
        ≤ ∑ _key ∈ t.warm.pool.connections.keys, c.maxPerProxy :=
          Finset.sum_le_sum fun key _ => hkept.room key
      _ = t.warm.pool.connections.keys.card * c.maxPerProxy := by
          rw [Finset.sum_const, smul_eq_mul]
      _ ≤ c.maxProxies * c.maxPerProxy := by
          refine Nat.mul_le_mul_right _ ((Finset.card_le_card hkeys).trans ?_)
          exact (List.toFinset_card_le _).trans ((List.length_map _).le.trans hinv.fits)

def oneStable : SharedState :=
  (((SharedState.withConfig 300 5000 []).insertIfAbsent (.new "1.2.3.4" 8080 .http)).2.recordSuccess
    ⟨1, 1⟩ "1.2.3.4:8080" (.finite 40))

def scanOfOne : oneStable.proxies.Iteration where
  order := ["1.2.3.4:8080"]
  nodup := by decide
  complete k := by
    show k ∈ ["1.2.3.4:8080"] ↔ k ∈ (insert "1.2.3.4:8080" ∅ : Finset String)
    simp

theorem top_oneStable :
    oneStable.topStableProxies scanOfOne ⟨2, 2⟩ 5 = [("1.2.3.4:8080", "1.2.3.4:8080")] := by
  have hpassing : oneStable.passing scanOfOne (oneStable.hasStatus ⟨2, 2⟩ .verified) =
      [("1.2.3.4:8080", (Proxy.new "1.2.3.4" 8080 .http).recordSuccess ⟨1, 1⟩ (.finite 40))] := rfl
  rw [SharedState.topStableProxies, SharedState.collectTopNSized, hpassing]
  simp [TopN.selectSorted, TopN.scan, TopN.step]
  decide

/-- Events of the warm pool alone. -/
theorem run_warm (pool : SharedState) {w w' : WarmWorld ι}
    {events : List (Instant × WarmEvent ι)}
    (h : exec (fun w e => w.apply c (.event e.1 e.2)) w events = some w') :
    Run (Step c) ⟨pool, w⟩ (events.map fun e => .warm e.1 e.2) ⟨pool, w'⟩ := by
  induction events generalizing w with
  | nil =>
    obtain rfl := Option.some.inj h
    exact .nil _
  | cons e events ih =>
    obtain ⟨u, hu, hrest⟩ := Option.bind_eq_some_iff.mp h
    exact .cons (.warm e.1 e.2 hu) (ih hrest)

def oneTake : WarmSetup (Fin 1) where
  workers := 1
  workers_pos := Nat.one_pos
  shards := 1
  shardOf _ := ⟨0, Nat.one_pos⟩
  maxPerProxy := 1
  maxProxies := 5
  maxAge := 45
  proxyKey _ := "1.2.3.4:8080"
  topProxyKeys := []

/-- The refresh connects to the one proxy of its list. -/
def connects : List (Instant × WarmEvent (Fin 1)) :=
  [.dispatch none, .refresh, .refresh, .refresh, .refresh, .refresh, .refresh,
    .connected (some 7)].map fun event => (2, event)

/-- The warm pool when it has just got its list. -/
def refreshed : WarmWorld (Fin 1) where
  topProxyKeys := [("1.2.3.4:8080", "1.2.3.4:8080")]
  pool := (WarmPool.start .empty).setRefresher .start
  opened := []

theorem warm_connections_stable_one : ∃ es t,
    Run (Step oneTake) (start (.withConfig 300 5000 [])) es t ∧
    (7, "1.2.3.4:8080") ∈ t.warm.opened ∧
    ∃ before now top after u, es = before ++ .refresh now top :: after ∧
      Run (Step oneTake) (start (.withConfig 300 5000 [])) before u ∧
      ("1.2.3.4:8080", "1.2.3.4:8080") ∈ top ∧ u.pool.IsStable now "1.2.3.4:8080" := by
  have hrefresh : (WarmWorld.start : WarmWorld (Fin 1)).Step oneTake
      (.refresh (oneStable.topStableProxies scanOfOne ⟨2, 2⟩ 5)) refreshed := by
    rw [top_oneStable]
    rfl
  have hwarm : ∃ w, exec (fun w e => WarmWorld.apply oneTake w (.event e.1 e.2))
      refreshed connects = some w ∧
      w.opened = [(7, "1.2.3.4:8080")] := ⟨_, rfl, rfl⟩
  obtain ⟨w, hexec, hopened⟩ := hwarm
  have hpool : Run (Step oneTake) (start (.withConfig 300 5000 []))
      [.pool (.op ⟨⟨0, 0⟩, .insertIfAbsent (.new "1.2.3.4" 8080 .http), none⟩),
        .pool (.op ⟨⟨1, 1⟩, .recordSuccess "1.2.3.4:8080" (.finite 40), none⟩)]
      ⟨oneStable, .start⟩ := .cons (.pool (.op rfl)) (.single (.pool (.op rfl)))
  have hlisted : Step oneTake ⟨oneStable, .start⟩
      (.refresh ⟨2, 2⟩ (oneStable.topStableProxies scanOfOne ⟨2, 2⟩ 5)) ⟨oneStable, refreshed⟩ :=
    .refresh (c := oneTake) (s := ⟨oneStable, .start⟩) ⟨2, 2⟩ scanOfOne hrefresh
  have hrun := run_append.mpr ⟨_, hpool.snoc hlisted, run_warm oneStable hexec⟩
  have hmem : (7, "1.2.3.4:8080") ∈ (⟨oneStable, w⟩ : WarmGateway (Fin 1)).warm.opened := by
    rw [hopened]
    exact List.mem_singleton_self _
  obtain ⟨-, -, -, hstable, -⟩ := warm_connections_stable 300 5000 [] hrun
  exact ⟨_, _, hrun, hmem, hstable _ hmem⟩

end WarmGateway

end VpnGateway
