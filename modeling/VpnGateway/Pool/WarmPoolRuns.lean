import VpnGateway.Core.Supply
import VpnGateway.Pool.WarmPool

/-! Runs of the warm pool in which one loop calls `refresh` over and over, each time with the
proxies that it found best, while any number of calls of `take` come in between. -/
namespace VpnGateway

open Runs

/-- What a call returns, from where it has let go of the queue. -/
def TakeStep.outcome : TakeStep → Option (Option ℕ)
  | unlocked stream | done stream => some stream
  | start | get | referenced | waiting | locked => none

/-- The proxy that `refresh` connects to, because its queue had room. -/
def RefreshStep.filling : RefreshStep → Option (String × String)
  | queue .connecting proxy _ | queue (.connected _) proxy _ | queue (.resumed _) proxy _ =>
    some proxy
  | _ => none

/-- The connection that is open and not in its queue yet. -/
def RefreshStep.flight : RefreshStep → Option (ℕ × String)
  | queue (.connected (some stream)) proxy _ | queue (.resumed (some stream)) proxy _ =>
    some (stream, proxy.1)
  | _ => none

namespace WarmSetup

variable {ι : Type*} (c : WarmSetup ι)

/-- Younger than the maximum age, and alive. -/
def Usable (now : Instant) (alive : WarmConnection → Bool) (conn : WarmConnection) : Prop :=
  now - conn.establishedAt < c.maxAge ∧ alive conn

def layout : Supply.Layout ι String ℕ WarmConnection where
  room := c.maxPerProxy
  name := WarmConnection.stream
  own := WarmConnection.proxyKey
  keyOf := c.proxyKey

end WarmSetup

namespace WarmPool

variable {ι : Type*}

/-- The connections that wait for a key. -/
def queueAt (s : WarmPool ι) (key : String) : List WarmConnection :=
  ((s.connections.get key).map (·.queue)).getD []

def returned (s : WarmPool ι) (i : ι) : Option (Option ℕ) := (s.takes i).outcome

/-- The connection that an event opens, and the key of the proxy that it goes to. -/
def opens (s : WarmPool ι) : WarmEvent ι → List (ℕ × String)
  | .connected (some stream) =>
    match s.refresher with
    | .queue .connecting proxy _ => [(stream, proxy.1)]
    | _ => []
  | _ => []

/-- The pool as a stock of connections. -/
def stock (s : WarmPool ι) (opened : List (ℕ × String)) :
    Supply.Stock ι String ℕ WarmConnection where
  made := opened
  flight := s.refresher.flight
  queues := s.queueAt
  given := s.returned
  hits := s.hits
  misses := s.misses

end WarmPool

/-- The pool, the list that `refresh` was last called with, and the connections so far. -/
structure WarmWorld (ι : Type*) where
  topProxyKeys : List (String × String)
  pool : WarmPool ι
  opened : List (ℕ × String)

/-- The loop calls `refresh`, or something happens in the pool. -/
inductive WarmCall (ι : Type*) where
  | refresh (topProxyKeys : List (String × String))
  | event (now : Instant) (event : WarmEvent ι)

namespace WarmWorld

variable {ι : Type*}

/-- A new pool. -/
def start : WarmWorld ι where
  topProxyKeys := []
  pool := (WarmPool.start .empty).setRefresher .done
  opened := []

def setup (w : WarmWorld ι) (c : WarmSetup ι) : WarmSetup ι :=
  { c with topProxyKeys := w.topProxyKeys }

/-- The loop calls `refresh` once the call before has returned, and a connect makes a stream that
has not been there. -/
def apply [DecidableEq ι] [Fintype ι] (c : WarmSetup ι) (w : WarmWorld ι) :
    WarmCall ι → Option (WarmWorld ι)
  | .refresh topProxyKeys =>
    if w.pool.refresher = .done then
      some { w with topProxyKeys := topProxyKeys, pool := w.pool.setRefresher .start }
    else none
  | .event now event =>
    if ∀ conn ∈ w.pool.opens event, conn.1 ∉ w.opened.map Prod.fst then
      (w.pool.apply (w.setup c) now event).map fun pool =>
        { w with pool := pool, opened := w.pool.opens event ++ w.opened }
    else none

def Step [DecidableEq ι] [Fintype ι] (c : WarmSetup ι) (w : WarmWorld ι) (call : WarmCall ι)
    (w' : WarmWorld ι) : Prop := w.apply c call = some w'

end WarmWorld

namespace WarmPool

variable {ι : Type*} {c : WarmSetup ι} {s t : WarmPool ι} {i : ι} {key : String}
  {now : Instant} {alive : WarmConnection → Bool} {opened : List (ℕ × String)}

theorem popAlive_takes (queue : List WarmConnection) :
    Supply.Takes WarmConnection.stream (c.Usable now alive) queue
      (popAlive c.maxAge now alive queue).1 (popAlive c.maxAge now alive queue).2 := by
  induction queue with
  | nil => exact .nil
  | cons conn rest ih =>
    rw [popAlive]
    split_ifs with hconn
    · exact .hit [] conn rest (by simp) hconn
    · exact ih.skip hconn

theorem queueAt_of_get {q : WarmQueue ι} (hq : s.connections.get key = some q) :
    s.queueAt key = q.queue := by simp [queueAt, hq]

theorem queueAt_of_notMem (hkey : key ∉ s.connections) : s.queueAt key = [] := by
  simp [queueAt, FinMap.notMem_iff.mp hkey]

/-- Locking and unlocking leave the queues as they are. -/
theorem queueAt_modifyQueue (f : WarmQueue ι → WarmQueue ι) (hf : ∀ q, (f q).queue = q.queue) :
    (s.modifyQueue key f).queueAt = s.queueAt := by
  funext key'
  simp only [queueAt, modifyQueue, FinMap.get_modify]
  split_ifs
  · cases s.connections.get key' with
    | none => rfl
    | some q => exact hf q
  · rfl

@[simp] theorem queueAt_lockQueue (task : Option ι) :
    (s.lockQueue key task).queueAt = s.queueAt := queueAt_modifyQueue _ fun _ => rfl

@[simp] theorem queueAt_unlockQueue : (s.unlockQueue key).queueAt = s.queueAt :=
  queueAt_modifyQueue _ fun _ => rfl

theorem queueAt_setQueue (hkey : key ∈ s.connections)
    (f : List WarmConnection → List WarmConnection) :
    (s.setQueue key f).queueAt = Function.update s.queueAt key (f (s.queueAt key)) := by
  obtain ⟨q, hq⟩ := FinMap.mem_iff.mp hkey
  funext key'
  by_cases hk : key' = key
  · subst hk
    simp [queueAt, setQueue, modifyQueue, FinMap.get_modify, hq]
  · simp [queueAt, setQueue, modifyQueue, FinMap.get_modify, hk]

@[simp] theorem queueAt_count (stream : Option ℕ) : (s.count stream).queueAt = s.queueAt := by
  funext key
  simp [queueAt]

@[simp] theorem refresher_count (stream : Option ℕ) :
    (s.count stream).refresher = s.refresher := by cases stream <;> rfl

@[simp] theorem returned_count (stream : Option ℕ) : (s.count stream).returned = s.returned := by
  cases stream <;> rfl

theorem count_setQueue (f : List WarmConnection → List WarmConnection) (stream : Option ℕ) :
    (s.setQueue key f).count stream = (s.count stream).setQueue key f := by cases stream <;> rfl

/-- A step that leaves the queues, the outcomes and the counters leaves the stock. -/
theorem stock_congr (hflight : t.refresher.flight = s.refresher.flight)
    (hqueues : t.queueAt = s.queueAt) (hreturned : t.returned = s.returned)
    (hhits : t.hits = s.hits) (hmisses : t.misses = s.misses) :
    t.stock opened = s.stock opened :=
  Supply.Stock.ext rfl hflight hqueues hreturned hhits hmisses

theorem stock_setRefresher {step : RefreshStep} (h : step.flight = s.refresher.flight) :
    (s.setRefresher step).stock opened = s.stock opened := stock_congr h rfl rfl rfl rfl

variable [DecidableEq ι]

theorem returned_setTake (step : TakeStep) :
    (s.setTake i step).returned = Function.update s.returned i step.outcome := by
  funext j
  by_cases hj : j = i
  · subst hj
    simp [returned]
  · simp [returned, hj, takes_setTake_of_ne s step hj]

theorem returned_setTake_of_eq {step : TakeStep} (h : step.outcome = s.returned i) :
    (s.setTake i step).returned = s.returned := by
  rw [returned_setTake, h, Function.update_eq_self]

theorem stock_setTake {step : TakeStep} (h : step.outcome = s.returned i) :
    (s.setTake i step).stock opened = s.stock opened :=
  stock_congr rfl rfl (returned_setTake_of_eq h) rfl rfl

theorem dispatch_stock {task : Option ι} (h : s.dispatch c task = some t) :
    t.stock opened = s.stock opened := by
  cases task with
  | some i =>
    simp only [dispatch] at h
    split at h
    next hi =>
      obtain rfl := Option.some.inj h
      exact stock_setTake (by rw [returned, hi]; rfl)
    next hi =>
      split_ifs at h
      obtain rfl := Option.some.inj h
      exact stock_setTake (by rw [returned, hi]; rfl)
    next => contradiction
  | none =>
    simp only [dispatch] at h
    split at h
    next hr =>
      obtain rfl := Option.some.inj h
      exact stock_setRefresher (by rw [hr]; rfl)
    next hr =>
      split_ifs at h
      obtain rfl := Option.some.inj h
      exact stock_setRefresher (by rw [hr]; rfl)
    next stream proxy rest hr =>
      obtain rfl := Option.some.inj h
      exact stock_setRefresher (by rw [hr]; cases stream <;> rfl)
    next => contradiction

/-- A call that gets an outcome takes it from the queue of its key and counts. -/
theorem take_outcome {stream : Option ℕ} {rest : List WarmConnection}
    (hi : s.returned i = none)
    (htakes : Supply.Takes WarmConnection.stream (c.Usable now alive) (s.queueAt (c.proxyKey i))
      stream rest)
    (hflight : t.refresher = s.refresher)
    (hqueues : t.queueAt = Function.update s.queueAt (c.proxyKey i) rest)
    (hreturned : t.returned = Function.update s.returned i (some stream))
    (hhits : t.hits = (s.count stream).hits) (hmisses : t.misses = (s.count stream).misses) :
    Supply.Step c.layout (s.stock opened) (.take i (c.Usable now alive)) (t.stock opened) := by
  have hstep := Supply.Step.take (p := c.layout) (s := s.stock opened) i _ hi htakes
  convert hstep using 1
  refine Supply.Stock.ext rfl (congrArg RefreshStep.flight hflight) hqueues hreturned
    (hhits.trans ?_) (hmisses.trans ?_) <;> cases stream <;> rfl

theorem take_supply (h : s.take c i now alive = some t) : t.stock opened = s.stock opened ∨
    Supply.Step c.layout (s.stock opened) (.take i (c.Usable now alive)) (t.stock opened) := by
  simp only [take] at h
  split at h
  next hi =>
    have hnone : s.returned i = none := by rw [returned, hi]; rfl
    obtain rfl := Option.some.inj h
    split_ifs with hkey
    · exact .inl (stock_setTake hnone.symm)
    · have htakes : Supply.Takes WarmConnection.stream (c.Usable now alive)
          (s.queueAt (c.proxyKey i)) none [] := by
        rw [queueAt_of_notMem hkey]
        exact .nil
      refine .inr (take_outcome hnone htakes rfl ?_ (returned_setTake _) rfl rfl)
      rw [← queueAt_of_notMem hkey, Function.update_eq_self]
      rfl
  next hi =>
    obtain ⟨q, hq, rfl⟩ := Option.map_eq_some_iff.mp h
    have hnone : s.returned i = none := by rw [returned, hi]; rfl
    refine .inl (stock_congr rfl (queueAt_lockQueue (some i)) ?_ rfl rfl)
    refine returned_setTake_of_eq ?_
    split_ifs <;> exact hnone.symm
  next hi =>
    obtain ⟨q, hq, rfl⟩ := Option.map_eq_some_iff.mp h
    have hnone : s.returned i = none := by rw [returned, hi]; rfl
    have hkey := FinMap.mem_of_get hq
    have htakes : Supply.Takes WarmConnection.stream (c.Usable now alive) (s.queueAt (c.proxyKey i))
        (popAlive c.maxAge now alive q.queue).1 (popAlive c.maxAge now alive q.queue).2 := by
      rw [queueAt_of_get hq]
      exact popAlive_takes q.queue
    rw [count_setQueue]
    refine .inr (take_outcome hnone htakes (refresher_count _) ?_ ?_ rfl rfl)
    · have hcount : c.proxyKey i ∈ (s.count (popAlive c.maxAge now alive q.queue).1).connections :=
        mem_count.mpr hkey
      refine queueAt_unlockQueue.trans ((queueAt_setQueue hcount _).trans ?_)
      rw [queueAt_count]
    · rw [returned_setTake]
      exact congrArg (Function.update · i _) (returned_count _)
  next stream hi =>
    obtain rfl := Option.some.inj h
    exact .inl (stock_setTake (by rw [returned, hi]; rfl))
  next => contradiction

theorem drop_supply (hflight : t.refresher.flight = s.refresher.flight)
    (hsub : ∀ key, (t.queueAt key).Sublist (s.queueAt key)) (htakes : t.takes = s.takes)
    (hhits : t.hits = s.hits) (hmisses : t.misses = s.misses) :
    Supply.Step c.layout (s.stock opened) .drop (t.stock opened) := by
  have hstep := Supply.Step.drop (p := c.layout) (s := s.stock opened) t.queueAt hsub
  have hreturned : t.returned = s.returned :=
    funext fun i => congrArg TakeStep.outcome (congrFun htakes i)
  convert hstep using 1
  exact Supply.Stock.ext rfl hflight rfl hreturned hhits hmisses

theorem keep_supply (h : t.stock opened = s.stock opened) :
    Supply.Step c.layout (s.stock opened) .drop (t.stock opened) := by
  rw [h]
  exact .stay _

omit [DecidableEq ι] in
theorem queueAt_setQueue_sublist {f : List WarmConnection → List WarmConnection}
    (hf : ∀ queue, (f queue).Sublist queue) (key' : String) :
    ((s.setQueue key f).queueAt key').Sublist (s.queueAt key') := by
  by_cases hkey : key ∈ s.connections
  · rw [queueAt_setQueue hkey]
    by_cases hk : key' = key
    · subst hk
      simpa using hf _
    · simp [hk]
  · have hget := FinMap.notMem_iff.mp hkey
    by_cases hk : key' = key
    · subst hk
      simp [queueAt, setQueue, modifyQueue, FinMap.get_modify, hget]
    · simp [queueAt, setQueue, modifyQueue, FinMap.get_modify, hk]

variable [Fintype ι]

/-- `refresh` drops connections, or stores the one that it has opened. -/
theorem refresh_supply (h : s.refresh c now = some t) (hp : s.Present c)
    (hroom : ∀ proxy, s.refresher.filling = some proxy →
      (s.queueAt proxy.1).length < c.maxPerProxy) :
    Supply.Step c.layout (s.stock opened) .drop (t.stock opened) ∨
      ∃ conn, Supply.Step c.layout (s.stock opened) (.put conn) (t.stock opened) := by
  simp only [refresh] at h
  split at h
  next shard hr =>
    split_ifs at h with hshard hfree <;> obtain rfl := Option.some.inj h
    · refine .inl (drop_supply (by rw [hr]; rfl) (fun key => ?_) rfl rfl rfl)
      simp only [queueAt, FinMap.get_retainKeys]
      split_ifs <;> simp
    · exact .inl (keep_supply (stock_setRefresher (by rw [hr]; rfl)))
  next hr =>
    obtain rfl := Option.some.inj h
    exact .inl (keep_supply (stock_setRefresher (by rw [hr]; rfl)))
  next proxy rest hr =>
    split_ifs at h
    obtain rfl := Option.some.inj h
    refine .inl (drop_supply (by rw [hr]; rfl) (fun key => ?_) rfl rfl rfl)
    simp only [queueAt, FinMap.get_orInsert]
    split_ifs <;> simp
  next proxy rest hr =>
    obtain ⟨q, hq, rfl⟩ := Option.map_eq_some_iff.mp h
    refine .inl (keep_supply (stock_congr ?_ (queueAt_lockQueue none) rfl rfl rfl))
    rw [hr]
    split_ifs <;> rfl
  next proxy rest hr =>
    obtain rfl := Option.some.inj h
    exact .inl (drop_supply (by rw [hr]; rfl)
      (queueAt_setQueue_sublist fun _ => List.filter_sublist) rfl rfl rfl)
  next proxy rest hr =>
    obtain ⟨q, hq, rfl⟩ := Option.map_eq_some_iff.mp h
    split_ifs
    · exact .inl (keep_supply (stock_setRefresher (by rw [hr]; rfl)))
    · exact .inl (keep_supply (stock_congr (by rw [hr]; rfl) queueAt_unlockQueue rfl rfl rfl))
  next proxy rest hr =>
    obtain rfl := Option.some.inj h
    exact .inl (keep_supply (stock_congr (by rw [hr]; rfl) queueAt_unlockQueue rfl rfl rfl))
  next stream proxy rest hr =>
    obtain rfl := Option.some.inj h
    have hkey := hp.2 _ proxy rest hr
    have hflight : s.refresher.flight = some (stream, proxy.1) := by rw [hr]; rfl
    have hlength := hroom proxy (by rw [hr]; rfl)
    have hstep := Supply.Step.put (p := c.layout) (s := s.stock opened)
      ⟨stream, proxy.1, now⟩ hflight hlength
    refine .inr ⟨⟨stream, proxy.1, now⟩, ?_⟩
    convert hstep using 1
    have hqueues := queueAt_setQueue hkey fun queue => queue ++ [⟨stream, proxy.1, now⟩]
    exact Supply.Stock.ext rfl rfl hqueues rfl rfl rfl
  next => contradiction

omit [DecidableEq ι] [Fintype ι] in
/-- Which keys `refresh` has made sure of, and that it only visits keys of its list. -/
def Tracked (c : WarmSetup ι) (keys : Finset String) : RefreshStep → Prop
  | .start => True
  | .retain shard => ∀ key ∈ keys, (c.shardOf key).val < shard → key ∈ c.activeKeys
  | .entry rest | .queue _ _ rest =>
    (∀ key ∈ keys, key ∈ c.activeKeys) ∧ rest ⊆ c.topProxyKeys
  | .done => ∀ key ∈ keys, key ∈ c.activeKeys

/-- What the steps of the pool keep for one list of proxies. -/
structure Regular (c : WarmSetup ι) (s : WarmPool ι) : Prop where
  present : s.Present c
  room : ∀ proxy, s.refresher.filling = some proxy → (s.queueAt proxy.1).length < c.maxPerProxy
  tracked : Tracked c s.connections.keys s.refresher

omit [DecidableEq ι] [Fintype ι] in
/-- Away from a connect there is no room to keep. -/
theorem Regular.idle (hpresent : s.Present c) (hfilling : s.refresher.filling = none)
    (htracked : Tracked c s.connections.keys s.refresher) : s.Regular c where
  present := hpresent
  room proxy hproxy := by
    rw [hfilling] at hproxy
    contradiction
  tracked := htracked

omit [Fintype ι] in
theorem dispatch_regular {task : Option ι} (h : s.dispatch c task = some t)
    (hs : s.Regular c) : t.Regular c := by
  have hpresent := dispatch_present h hs.present
  cases task with
  | some i =>
    simp only [dispatch] at h
    split at h
    next =>
      obtain rfl := Option.some.inj h
      exact ⟨hpresent, hs.room, hs.tracked⟩
    next =>
      split_ifs at h
      obtain rfl := Option.some.inj h
      exact ⟨hpresent, hs.room, hs.tracked⟩
    next => contradiction
  | none =>
    have htracked := hs.tracked
    simp only [dispatch] at h
    split at h
    next =>
      obtain rfl := Option.some.inj h
      exact .idle hpresent rfl fun key _ hshard => absurd hshard (Nat.not_lt_zero _)
    next hr =>
      split_ifs at h
      obtain rfl := Option.some.inj h
      rw [hr] at htracked
      exact .idle hpresent rfl htracked
    next hr =>
      obtain rfl := Option.some.inj h
      have hroom := hs.room
      rw [hr] at htracked hroom
      exact ⟨hpresent, hroom, htracked⟩
    next => contradiction

omit [Fintype ι] in
theorem take_frame (h : s.take c i now alive = some t) :
    t.refresher = s.refresher ∧ t.connections.keys = s.connections.keys := by
  simp only [take] at h
  split at h
  next =>
    obtain rfl := Option.some.inj h
    split_ifs <;> exact ⟨rfl, rfl⟩
  next =>
    obtain ⟨q, -, rfl⟩ := Option.map_eq_some_iff.mp h
    exact ⟨rfl, rfl⟩
  next =>
    obtain ⟨q, -, rfl⟩ := Option.map_eq_some_iff.mp h
    rw [count_setQueue]
    have hkeys : ∀ stream, (s.count stream).connections.keys = s.connections.keys := fun stream =>
      congrArg FinMap.keys (connections_count stream)
    exact ⟨refresher_count _, hkeys _⟩
  next =>
    obtain rfl := Option.some.inj h
    exact ⟨rfl, rfl⟩
  next => contradiction

omit [Fintype ι] in
theorem take_regular (h : s.take c i now alive = some t) (hs : s.Regular c) : t.Regular c := by
  obtain ⟨hrefresher, hkeys⟩ := take_frame h
  have hstock : t.stock [] = s.stock [] ∨
      Supply.Step c.layout (s.stock []) (.take i (c.Usable now alive)) (t.stock []) := take_supply h
  have hsub : ∀ key, (t.queueAt key).Sublist (s.queueAt key) := by
    intro key
    obtain heq | hstep := hstock
    · rw [show t.queueAt = s.queueAt from congrArg Supply.Stock.queues heq]
    · exact hstep.take_sublist key
  refine ⟨take_present h hs.present, fun proxy hproxy => ?_, ?_⟩
  · rw [hrefresher] at hproxy
    exact (hsub proxy.1).length_le.trans_lt (hs.room proxy hproxy)
  · rw [hrefresher, hkeys]
    exact hs.tracked

omit [DecidableEq ι] in
theorem refresh_regular (h : s.refresh c now = some t) (hs : s.Regular c) : t.Regular c := by
  have hpresent := refresh_present h hs.present
  have htracked := hs.tracked
  simp only [refresh] at h
  split at h
  next shard hr =>
    rw [hr] at htracked
    split_ifs at h with hshard <;> obtain rfl := Option.some.inj h
    · refine .idle hpresent rfl fun key hkey hlt => ?_
      obtain ⟨hmem, hkept⟩ := Finset.mem_filter.mp hkey
      obtain hlt | heq := Nat.lt_succ_iff_lt_or_eq.mp hlt
      · exact htracked key hmem hlt
      · simpa [heq] using hkept
    · refine .idle hpresent rfl ⟨fun key hkey => htracked key hkey ?_, List.take_subset _ _⟩
      exact (c.shardOf key).isLt.trans_le (Nat.le_of_not_lt hshard)
  next hr =>
    obtain rfl := Option.some.inj h
    rw [hr] at htracked
    exact .idle hpresent rfl htracked.1
  next proxy rest hr =>
    rw [hr] at htracked
    obtain ⟨hproxy, hrest⟩ := List.cons_subset.mp htracked.2
    split_ifs at h
    obtain rfl := Option.some.inj h
    refine .idle hpresent rfl ⟨fun key hkey => ?_, hrest⟩
    obtain rfl | hkey := FinMap.mem_orInsert.mp hkey
    · exact List.mem_map_of_mem hproxy
    · exact htracked.1 key hkey
  next proxy rest hr =>
    obtain ⟨q, hq, rfl⟩ := Option.map_eq_some_iff.mp h
    rw [hr] at htracked
    refine .idle hpresent ?_ htracked
    split_ifs <;> rfl
  next proxy rest hr =>
    obtain rfl := Option.some.inj h
    rw [hr] at htracked
    exact .idle hpresent rfl htracked
  next proxy rest hr =>
    obtain ⟨q, hq, rfl⟩ := Option.map_eq_some_iff.mp h
    rw [hr] at htracked
    split_ifs at hpresent ⊢ with hlength
    · refine ⟨hpresent, fun proxy' hproxy => ?_, htracked⟩
      obtain rfl := Option.some.inj hproxy
      exact (queueAt_of_get hq).symm ▸ hlength
    · exact .idle hpresent rfl htracked
  next proxy rest hr =>
    obtain rfl := Option.some.inj h
    rw [hr] at htracked
    exact .idle hpresent rfl htracked
  next stream proxy rest hr =>
    obtain rfl := Option.some.inj h
    rw [hr] at htracked
    exact .idle hpresent rfl htracked
  next => contradiction

theorem apply_regular {event : WarmEvent ι} (h : s.apply c now event = some t)
    (hs : s.Regular c) : t.Regular c := by
  cases event with
  | dispatch task =>
    simp only [apply] at h
    split_ifs at h
    exact dispatch_regular h hs
  | take i alive => exact take_regular h hs
  | refresh => exact refresh_regular h hs
  | connected stream =>
    simp only [apply] at h
    split at h
    next proxy rest hr =>
      obtain rfl := Option.some.inj h
      have hroom := hs.room
      have htracked := hs.tracked
      rw [hr] at hroom htracked
      refine ⟨hs.present.setRefresher fun _ _ _ heq => ?_, hroom, htracked⟩
      cases heq
      exact hs.present.2 _ _ _ hr
    next => contradiction

/-- An event of the pool is an act on its stock; only a step of a call takes from it. -/
theorem apply_supply {event : WarmEvent ι} (h : s.apply c now event = some t) (hs : s.Regular c)
    (hnew : ∀ conn ∈ s.opens event, conn.1 ∉ opened.map Prod.fst) :
    ∃ act, Supply.Step c.layout (s.stock opened) act (t.stock (s.opens event ++ opened)) ∧
      ∀ i fit, act = .take i fit → ∃ alive, event = .take i alive ∧ fit = c.Usable now alive := by
  cases event with
  | dispatch task =>
    simp only [apply] at h
    split_ifs at h
    exact ⟨.drop, keep_supply (dispatch_stock h), by simp⟩
  | take i alive =>
    obtain heq | hstep := take_supply h
    · exact ⟨.drop, keep_supply heq, by simp⟩
    · refine ⟨_, hstep, fun j fit hact => ?_⟩
      cases hact
      exact ⟨alive, rfl, rfl⟩
  | refresh =>
    obtain hstep | ⟨conn, hstep⟩ := refresh_supply h hs.present hs.room
    · exact ⟨_, hstep, by simp⟩
    · exact ⟨_, hstep, by simp⟩
  | connected stream =>
    simp only [apply] at h
    split at h
    next proxy rest hr =>
      obtain rfl := Option.some.inj h
      cases stream with
      | none => exact ⟨.drop, keep_supply (stock_setRefresher (by rw [hr]; rfl)), by simp⟩
      | some stream =>
        have hopens : s.opens (.connected (some stream)) = [(stream, proxy.1)] := by
          simp only [opens, hr]
        rw [hopens] at hnew ⊢
        have hfresh : ∀ key, (stream, key) ∉ opened := fun key hmem =>
          hnew _ List.mem_cons_self (List.mem_map.mpr ⟨_, hmem, rfl⟩)
        exact ⟨_, Supply.Step.make (s := s.stock opened) stream proxy.1 hfresh, by simp⟩
    next => contradiction

end WarmPool

namespace WarmWorld

variable {ι : Type*} [DecidableEq ι] [Fintype ι] {c : WarmSetup ι} {w w' : WarmWorld ι}
  {call : WarmCall ι}

omit [DecidableEq ι] [Fintype ι] in
def stock (w : WarmWorld ι) : Supply.Stock ι String ℕ WarmConnection := w.pool.stock w.opened

omit [DecidableEq ι] in
/-- What holds in every state. -/
structure Inv (c : WarmSetup ι) (w : WarmWorld ι) : Prop where
  regular : w.pool.Regular (w.setup c)
  kept : Supply.Kept c.layout w.stock

/-- The pool refines a stock of connections. -/
theorem Step.supply (h : Step c w call w') (hw : w.Inv c) :
    ∃ act, Supply.Step c.layout w.stock act w'.stock ∧ ∀ i fit, act = .take i fit →
      ∃ now alive, call = .event now (.take i alive) ∧ fit = c.Usable now alive := by
  cases call with
  | refresh topProxyKeys =>
    simp only [Step, apply] at h
    split_ifs at h with hdone
    obtain rfl := Option.some.inj h
    exact ⟨.drop, WarmPool.keep_supply (WarmPool.stock_setRefresher (by rw [hdone]; rfl)), by simp⟩
  | event now event =>
    simp only [Step, apply] at h
    split_ifs at h with hnew
    obtain ⟨pool, hpool, rfl⟩ := Option.map_eq_some_iff.mp h
    obtain ⟨act, hstep, htake⟩ := WarmPool.apply_supply hpool hw.regular hnew
    refine ⟨act, hstep, fun i fit hact => ?_⟩
    obtain ⟨alive, rfl, hfit⟩ := htake i fit hact
    exact ⟨now, alive, rfl, hfit⟩

theorem Step.inv (h : Step c w call w') (hw : w.Inv c) : w'.Inv c := by
  refine ⟨?_, ?_⟩
  · cases call with
    | refresh topProxyKeys =>
      simp only [Step, apply] at h
      split_ifs at h
      obtain rfl := Option.some.inj h
      exact .idle (hw.regular.present.setRefresher (by simp)) rfl trivial
    | event now event =>
      simp only [Step, apply] at h
      split_ifs at h
      obtain ⟨pool, hpool, rfl⟩ := Option.map_eq_some_iff.mp h
      exact WarmPool.apply_regular hpool hw.regular
  · obtain ⟨act, hstep, -⟩ := h.supply hw
    exact hstep.kept hw.kept

omit [DecidableEq ι] in
theorem inv_start (c : WarmSetup ι) : (start : WarmWorld ι).Inv c where
  regular := .idle ⟨nofun, nofun⟩ rfl nofun
  kept := .empty c.layout

theorem Reachable.inv (h : Reachable (Step c) start w) : w.Inv c :=
  h.invariant (fun _ _ _ hw hstep => hstep.inv hw) (inv_start c)

/-- A step gives a call its outcome only by taking from the queue of the key that the call asks
for, and the other queues stay. -/
def TakesProperly (c : WarmSetup ι) (w : WarmWorld ι) (call : WarmCall ι) (w' : WarmWorld ι)
    (i : ι) (stream : Option ℕ) : Prop :=
  ∃ now alive, call = .event now (.take i alive) ∧
    Supply.Takes WarmConnection.stream (c.Usable now alive) (w.pool.queueAt (c.proxyKey i)) stream
      (w'.pool.queueAt (c.proxyKey i)) ∧
    (∀ key, key ≠ c.proxyKey i → w'.pool.queueAt key = w.pool.queueAt key) ∧
    w'.pool.hits = (if stream.isSome then w.pool.hits + 1 else w.pool.hits) ∧
    w'.pool.misses = if stream.isSome then w.pool.misses else w.pool.misses + 1

/-- After every run the queues have at most their size and only connections that were made for
their own key, and once `refresh` is done there are queues only for the proxies of its list. No
two calls have got the same connection, and the counters count the calls with and without one.
A call gets its outcome once, from its queue: the first usable connection, if there is one. -/
theorem takes_first_usable_once (h : Reachable (Step c) start w) :
    (∀ key, (w.pool.queueAt key).length ≤ c.maxPerProxy ∧
      ∀ conn ∈ w.pool.queueAt key, conn.proxyKey = key ∧ (conn.stream, key) ∈ w.opened) ∧
    (w.pool.refresher = .done →
      ∀ key ∈ w.pool.connections, key ∈ w.topProxyKeys.map Prod.fst) ∧
    (∀ i stream, w.pool.returned i = some (some stream) → (stream, c.proxyKey i) ∈ w.opened ∧
      ∀ j, w.pool.returned j = some (some stream) → i = j) ∧
    w.pool.hits = UInt64.ofNat (Supply.count w.pool.returned Option.isSome) ∧
    w.pool.misses = UInt64.ofNat (Supply.count w.pool.returned Option.isNone) ∧
    ∀ call w', Step c w call w' → ∀ i, w'.pool.returned i = w.pool.returned i ∨
      ∃ stream, w.pool.returned i = none ∧ w'.pool.returned i = some stream ∧
        TakesProperly c w call w' i stream := by
  have hw := Reachable.inv h
  have hkept := hw.kept
  refine ⟨fun key => ⟨hkept.room key, hkept.own key⟩, fun hdone => ?_, fun i stream hi => ?_,
    hkept.hits, hkept.misses, fun call w' hstep i => ?_⟩
  · have htracked := hw.regular.tracked
    rw [hdone] at htracked
    exact htracked
  · exact ⟨(hkept.given i stream hi).1, fun j hj => hkept.apart i j stream hi hj⟩
  · obtain ⟨act, hsupply, htake⟩ := hstep.supply hw
    obtain hsame | ⟨fit, stream, rfl, hnone, hsome, hspec⟩ := hsupply.given_cases i
    · exact .inl hsame
    · obtain ⟨now, alive, rfl, rfl⟩ := htake i fit rfl
      exact .inr ⟨stream, hnone, hsome, now, alive, rfl, hspec⟩

private def twoTakes : WarmSetup (Fin 2) where
  workers := 1
  workers_pos := Nat.one_pos
  shards := 1
  shardOf _ := 0
  maxPerProxy := 2
  maxProxies := 5
  maxAge := 45
  proxyKey _ := "1.2.3.4:8080"
  topProxyKeys := []

/-- `refresh` connects once and then fails, and of two calls the first one gets the connection. -/
private def refreshThenTake : List (WarmCall (Fin 2)) :=
  let alive := fun _ => true
  .refresh [("1.2.3.4:8080", "1.2.3.4:8080")] ::
    ([.dispatch none, .refresh, .refresh, .refresh, .refresh, .refresh, .refresh,
      .connected (some 7), .dispatch none, .refresh, .refresh, .connected none, .dispatch none,
      .refresh, .refresh, .dispatch (some 0), .take 0 alive, .take 0 alive, .take 0 alive,
      .take 0 alive, .dispatch (some 1), .take 1 alive, .take 1 alive, .take 1 alive].map
        (.event 0))

theorem two_takes_one_connection : ∃ w : WarmWorld (Fin 2),
    Reachable (Step twoTakes) start w ∧ w.pool.returned 0 = some (some 7) ∧
      w.pool.returned 1 = some none ∧ w.pool.refresher = .done ∧
      (∀ key, (w.pool.queueAt key).length ≤ 2) ∧ (7, "1.2.3.4:8080") ∈ w.opened ∧
      ∀ key ∈ w.pool.connections, key = "1.2.3.4:8080" := by
  have hexec : ∃ w, exec (apply twoTakes) start refreshThenTake = some w ∧
      w.pool.returned 0 = some (some 7) ∧ w.pool.returned 1 = some none ∧
      w.pool.refresher = .done ∧ w.topProxyKeys = [("1.2.3.4:8080", "1.2.3.4:8080")] :=
    ⟨_, rfl, rfl, rfl, rfl, rfl⟩
  obtain ⟨w, hrun, h₀, h₁, hdone, hlist⟩ := hexec
  have hall : ∀ call ∈ refreshThenTake, True := fun _ _ => trivial
  have hw : Reachable (Step twoTakes) start w :=
    ⟨refreshThenTake, run_of_exec (fun _ _ _ _ h => h) hall hrun⟩
  obtain ⟨hqueues, htracked, hreturned, -⟩ := takes_first_usable_once hw
  refine ⟨w, hw, h₀, h₁, hdone, fun key => (hqueues key).1, (hreturned 0 7 h₀).1,
    fun key hkey => ?_⟩
  have hmem := htracked hdone key hkey
  rw [hlist] at hmem
  simpa using hmem

end WarmWorld

end VpnGateway
