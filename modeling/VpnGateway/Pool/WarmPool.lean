import VpnGateway.Core.FinMap
import VpnGateway.Core.Runs
import VpnGateway.Core.Tasks
import VpnGateway.Pool.Proxy

/-! The warm pool with its two kinds of locks: the guards of the map's shards, which block a
worker, and the mutexes of the queues, which suspend a task. A reader of a shard passes waiting
writers. -/
namespace VpnGateway

open Locks Tasks

structure WarmConnection where
  stream : ℕ
  proxyKey : String
  establishedAt : Instant
  deriving DecidableEq

structure WarmQueue (ι : Type*) where
  mutex : Mutex (Option ι)
  queue : List WarmConnection

/-- Where a call of `take` is. From `referenced` to `unlocked` it has a read guard of the shard. -/
inductive TakeStep where
  | start
  | get
  | referenced
  | waiting
  | locked
  | unlocked (stream : Option ℕ)
  | done (stream : Option ℕ)
  deriving DecidableEq

/-- Where `refresh` is with one proxy. -/
inductive FillStep where
  | lock
  | waiting
  | locked
  | fill
  | connecting
  | connected (stream : Option ℕ)
  | resumed (stream : Option ℕ)
  deriving DecidableEq

/-- Where `refresh` is; `rest` are the proxies that it has not come to. -/
inductive RefreshStep where
  | start
  | retain (shard : ℕ)
  | entry (rest : List (String × String))
  | queue (step : FillStep) (proxy : String × String) (rest : List (String × String))
  | done
  deriving DecidableEq

def TakeStep.status (key : String) : TakeStep → Status String
  | start => .ready none
  | get | referenced | unlocked _ => .active none
  | waiting => .waiting key
  | locked => .active (some key)
  | done _ => .finished

def TakeStep.hasShard : TakeStep → Bool
  | referenced | waiting | locked | unlocked _ => true
  | start | get | done _ => false

def FillStep.status (key : String) : FillStep → Status String
  | lock => .active none
  | waiting => .waiting key
  | locked | fill | resumed _ => .active (some key)
  | connecting => .suspended (some key)
  | connected _ => .ready (some key)

def RefreshStep.status : RefreshStep → Status String
  | start => .ready none
  | retain _ | entry _ => .active none
  | queue step proxy _ => step.status proxy.1
  | done => .finished

/-- The runtime, the fields of the pool that never change, and the arguments of the calls: one
`refresh`, and a `take` for each `ι`. -/
structure WarmSetup (ι : Type*) where
  workers : ℕ
  workers_pos : 1 ≤ workers
  shards : ℕ
  shardOf : String → Fin shards
  maxPerProxy : ℕ
  maxProxies : ℕ
  maxAge : ℕ
  proxyKey : ι → String
  topProxyKeys : List (String × String)

structure WarmPool (ι : Type*) where
  connections : FinMap String (WarmQueue ι)
  hits : UInt64
  misses : UInt64
  takes : ι → TakeStep
  refresher : RefreshStep

/-- A step of a task that has a worker, a task that gets one, or the end of a connect. -/
inductive WarmEvent (ι : Type*) where
  | dispatch (task : Option ι)
  | take (i : ι) (alive : WarmConnection → Bool)
  | refresh
  | connected (stream : Option ℕ)

/-- Take connections off the front until one is neither too old nor dead. -/
def popAlive (maxAge : ℕ) (now : Instant) (alive : WarmConnection → Bool) :
    List WarmConnection → Option ℕ × List WarmConnection
  | [] => (none, [])
  | conn :: rest =>
    if now - conn.establishedAt < maxAge ∧ alive conn then (some conn.stream, rest)
    else popAlive maxAge now alive rest

namespace WarmSetup

variable {ι : Type*} (c : WarmSetup ι)

def activeKeys : List String := c.topProxyKeys.map Prod.fst

/-- The proxies that `refresh` visits. -/
def visited : List (String × String) := c.topProxyKeys.take c.maxProxies

/-- No proxy that a call takes from shares its shard with one that `refresh` visits later. -/
def ShardsApart : Prop :=
  c.visited.Pairwise fun p q => (∃ i, c.proxyKey i = p.1) → c.shardOf p.1 ≠ c.shardOf q.1

end WarmSetup

namespace WarmPool

variable {ι : Type*}

/-- Before the first step; the queues may already have connections in them. -/
def start (connections : FinMap String (List WarmConnection)) : WarmPool ι where
  connections := connections.mapValues fun queue => ⟨.free, queue⟩
  hits := 0
  misses := 0
  takes _ := .start
  refresher := .start

def mutexAt (s : WarmPool ι) (key : String) : Mutex (Option ι) :=
  ((s.connections.get key).map (·.mutex)).getD .free

/-- What the runtime sees of the tasks; `none` is `refresh`. -/
def sched (s : WarmPool ι) (c : WarmSetup ι) : Sched (Option ι) String where
  status
    | none => s.refresher.status
    | some i => (s.takes i).status (c.proxyKey i)
  mutex := s.mutexAt

def setRefresher (s : WarmPool ι) (step : RefreshStep) : WarmPool ι := { s with refresher := step }

def modifyQueue (s : WarmPool ι) (key : String) (f : WarmQueue ι → WarmQueue ι) : WarmPool ι :=
  { s with connections := s.connections.modify key f }

def lockQueue (s : WarmPool ι) (key : String) (task : Option ι) : WarmPool ι :=
  s.modifyQueue key fun q => { q with mutex := q.mutex.lock task }

def unlockQueue (s : WarmPool ι) (key : String) : WarmPool ι :=
  s.modifyQueue key fun q => { q with mutex := q.mutex.unlock }

def setQueue (s : WarmPool ι) (key : String) (f : List WarmConnection → List WarmConnection) :
    WarmPool ι :=
  s.modifyQueue key fun q => { q with queue := f q.queue }

/-- `fetch_add` of one of the counters. -/
def count (s : WarmPool ι) (stream : Option ℕ) : WarmPool ι :=
  if stream.isSome then { s with hits := s.hits + 1 } else { s with misses := s.misses + 1 }

section Apply

variable [DecidableEq ι]

def setTake (s : WarmPool ι) (i : ι) (step : TakeStep) : WarmPool ι :=
  { s with takes := Function.update s.takes i step }

@[simp] theorem takes_setTake_self (s : WarmPool ι) (i : ι) (step : TakeStep) :
    (s.setTake i step).takes i = step := by simp [setTake]

theorem takes_setTake_of_ne (s : WarmPool ι) {i j : ι} (step : TakeStep) (h : j ≠ i) :
    (s.setTake i step).takes j = s.takes j := by simp [setTake, h]

/-- A task that may go on gets a worker. -/
def dispatch (c : WarmSetup ι) (s : WarmPool ι) : Option ι → Option (WarmPool ι)
  | some i =>
    match s.takes i with
    | .start => some (s.setTake i .get)
    | .waiting =>
      if (s.mutexAt (c.proxyKey i)).holder = some (some i) then some (s.setTake i .locked) else none
    | _ => none
  | none =>
    match s.refresher with
    | .start => some (s.setRefresher (.retain 0))
    | .queue .waiting proxy rest =>
      if (s.mutexAt proxy.1).holder = some none then
        some (s.setRefresher (.queue .locked proxy rest))
      else none
    | .queue (.connected stream) proxy rest =>
      some (s.setRefresher (.queue (.resumed stream) proxy rest))
    | _ => none

/-- `take` up to its next lock. -/
def take (c : WarmSetup ι) (s : WarmPool ι) (i : ι) (now : Instant)
    (alive : WarmConnection → Bool) : Option (WarmPool ι) :=
  match s.takes i with
  | .get =>
    some (if c.proxyKey i ∈ s.connections then s.setTake i .referenced
      else (s.count none).setTake i (.done none))
  | .referenced =>
    (s.connections.get (c.proxyKey i)).map fun q =>
      (s.lockQueue (c.proxyKey i) (some i)).setTake i
        (if q.mutex.tasks = [] then .locked else .waiting)
  | .locked =>
    (s.connections.get (c.proxyKey i)).map fun q =>
      let (stream, rest) := popAlive c.maxAge now alive q.queue
      (((s.setQueue (c.proxyKey i) fun _ => rest).count stream).unlockQueue (c.proxyKey i)).setTake
        i (.unlocked stream)
  | .unlocked stream => some (s.setTake i (.done stream))
  | _ => none

variable [Fintype ι]

/-- No `take` has a guard of the shard. -/
def ShardFree (s : WarmPool ι) (c : WarmSetup ι) (shard : Fin c.shards) : Prop :=
  ∀ i, (s.takes i).hasShard → c.shardOf (c.proxyKey i) ≠ shard

instance (s : WarmPool ι) (c : WarmSetup ι) (shard : Fin c.shards) :
    Decidable (s.ShardFree c shard) :=
  inferInstanceAs (Decidable (∀ _, _ → _))

/-- `refresh` up to its next lock or connect. At a shard that is not free it has no step: it
blocks its worker. -/
def refresh (c : WarmSetup ι) (s : WarmPool ι) (now : Instant) : Option (WarmPool ι) :=
  match s.refresher with
  | .retain shard =>
    if h : shard < c.shards then
      if s.ShardFree c ⟨shard, h⟩ then
        some { s with
          connections := s.connections.retainKeys fun key =>
            (c.shardOf key).val ≠ shard ∨ key ∈ c.activeKeys
          refresher := .retain (shard + 1) }
      else none
    else some (s.setRefresher (.entry c.visited))
  | .entry [] => some (s.setRefresher .done)
  | .entry (proxy :: rest) =>
    if s.ShardFree c (c.shardOf proxy.1) then
      some { s with
        connections := s.connections.orInsert proxy.1 ⟨.free, []⟩
        refresher := .queue .lock proxy rest }
    else none
  | .queue .lock proxy rest =>
    (s.connections.get proxy.1).map fun q =>
      (s.lockQueue proxy.1 none).setRefresher
        (.queue (if q.mutex.tasks = [] then .locked else .waiting) proxy rest)
  | .queue .locked proxy rest =>
    some ((s.setQueue proxy.1 fun queue =>
      queue.filter fun conn => now - conn.establishedAt < c.maxAge).setRefresher
        (.queue .fill proxy rest))
  | .queue .fill proxy rest =>
    (s.connections.get proxy.1).map fun q =>
      if q.queue.length < c.maxPerProxy then s.setRefresher (.queue .connecting proxy rest)
      else (s.unlockQueue proxy.1).setRefresher (.entry rest)
  | .queue (.resumed none) proxy rest =>
    some ((s.unlockQueue proxy.1).setRefresher (.entry rest))
  | .queue (.resumed (some stream)) proxy rest =>
    some ((s.setQueue proxy.1 fun queue => queue ++ [⟨stream, proxy.1, now⟩]).setRefresher
      (.queue .fill proxy rest))
  | _ => none

/-- The state after one event; `none` where it cannot happen. -/
def apply (c : WarmSetup ι) (s : WarmPool ι) (now : Instant) : WarmEvent ι → Option (WarmPool ι)
  | .dispatch task => if (s.sched c).busy < c.workers then s.dispatch c task else none
  | .take i alive => s.take c i now alive
  | .refresh => s.refresh c now
  | .connected stream =>
    match s.refresher with
    | .queue .connecting proxy rest =>
      some (s.setRefresher (.queue (.connected stream) proxy rest))
    | _ => none

def Step (c : WarmSetup ι) (s : WarmPool ι) (e : Instant × WarmEvent ι) (t : WarmPool ι) : Prop :=
  s.apply c e.1 e.2 = some t

def Finished (s : WarmPool ι) : Prop :=
  (∀ i, ∃ stream, s.takes i = .done stream) ∧ s.refresher = .done

/-- Some task has not finished and none can do a step. -/
def Stuck (c : WarmSetup ι) (s : WarmPool ι) : Prop := ¬ s.Finished ∧ ∀ e t, ¬ Step c s e t

end Apply

section Sched

variable {c : WarmSetup ι} {s t : WarmPool ι} {i : ι} {key : String} {e : Instant × WarmEvent ι}

theorem mutexAt_modifyQueue (hkey : key ∈ s.connections) (f : WarmQueue ι → WarmQueue ι)
    {m : Mutex (Option ι)} (hf : ∀ q, s.connections.get key = some q → (f q).mutex = m) :
    (s.modifyQueue key f).mutexAt = Function.update s.mutexAt key m := by
  funext key'
  obtain ⟨q, hq⟩ := FinMap.mem_iff.mp hkey
  by_cases hk : key' = key
  · subst hk
    simp [mutexAt, modifyQueue, FinMap.get_modify, hq, hf q hq]
  · simp [mutexAt, modifyQueue, FinMap.get_modify, hk]

theorem mutexAt_eq {q : WarmQueue ι} (hq : s.connections.get key = some q) :
    s.mutexAt key = q.mutex := by simp [mutexAt, hq]

theorem sched_lockQueue (hkey : key ∈ s.connections) (task : Option ι) :
    (s.lockQueue key task).sched c = (s.sched c).setMutex key ((s.mutexAt key).lock task) := by
  have hmutex := mutexAt_modifyQueue hkey (fun q => { q with mutex := q.mutex.lock task })
    fun q hq => by rw [← mutexAt_eq hq]
  exact Sched.ext (fun task => by cases task <;> rfl) fun key' => congrFun hmutex key'

theorem sched_unlockQueue (hkey : key ∈ s.connections) :
    (s.unlockQueue key).sched c = (s.sched c).setMutex key (s.mutexAt key).unlock := by
  have hmutex := mutexAt_modifyQueue hkey (fun q => { q with mutex := q.mutex.unlock })
    fun q hq => by rw [← mutexAt_eq hq]
  exact Sched.ext (fun task => by cases task <;> rfl) fun key' => congrFun hmutex key'

theorem mutexAt_setQueue (f : List WarmConnection → List WarmConnection) (key' : String) :
    (s.setQueue key f).mutexAt key' = s.mutexAt key' := by
  simp only [mutexAt, setQueue, modifyQueue, FinMap.get_modify]
  split <;> cases s.connections.get key' <;> rfl

theorem sched_setQueue (f : List WarmConnection → List WarmConnection) :
    (s.setQueue key f).sched c = s.sched c :=
  Sched.ext (fun task => by cases task <;> rfl) (mutexAt_setQueue f)

@[simp] theorem connections_count (stream : Option ℕ) :
    (s.count stream).connections = s.connections := by cases stream <;> rfl

theorem mem_count {stream : Option ℕ} :
    key ∈ (s.count stream).connections ↔ key ∈ s.connections := by
  rw [connections_count]

theorem mutexAt_count (stream : Option ℕ) (key : String) :
    (s.count stream).mutexAt key = s.mutexAt key := by rw [mutexAt, connections_count, mutexAt]

@[simp] theorem mem_modifyQueue {f : WarmQueue ι → WarmQueue ι} {key' : String} :
    key' ∈ (s.modifyQueue key f).connections ↔ key' ∈ s.connections := Iff.rfl

theorem mem_setQueue {f : List WarmConnection → List WarmConnection} {key' : String} :
    key' ∈ (s.setQueue key f).connections ↔ key' ∈ s.connections := Iff.rfl

theorem sched_count (stream : Option ℕ) : (s.count stream).sched c = s.sched c := by
  cases stream <;> rfl

/-- The entries that the calls rely on are in the map. -/
def Present (c : WarmSetup ι) (s : WarmPool ι) : Prop :=
  (∀ i, (s.takes i).hasShard → c.proxyKey i ∈ s.connections) ∧
    ∀ step proxy rest, s.refresher = .queue step proxy rest → proxy.1 ∈ s.connections

/-- Nobody wants the mutex of an entry that `retain` removes. -/
theorem mutexAt_eq_free (hs : (s.sched c).Locked) {shard : ℕ} (hr : s.refresher = .retain shard)
    (hfree : ∀ i, (s.takes i).hasShard → (c.shardOf (c.proxyKey i)).val ≠ shard)
    (hkey : (c.shardOf key).val = shard) : s.mutexAt key = .free := by
  refine Mutex.ext (List.eq_nil_iff_forall_not_mem.mpr fun task hmem => ?_)
  have hwants := (hs.mem_tasks key task).mp hmem
  cases task with
  | none => simp [sched, hr, RefreshStep.status, Status.Wants] at hwants
  | some j =>
    have hshard : (s.takes j).hasShard ∧ c.proxyKey j = key := by
      revert hwants
      simp only [sched, Status.Wants]
      cases s.takes j <;> simp [TakeStep.status, TakeStep.hasShard]
    exact hfree j hshard.1 (by rw [hshard.2, hkey])

theorem mutexAt_retainKeys {P : String → Bool} (hP : ∀ key, ¬ P key → s.mutexAt key = .free)
    (step : RefreshStep) : { s with
      connections := s.connections.retainKeys P
      refresher := step }.mutexAt = s.mutexAt := by
  funext key
  by_cases hkey : P key
  · simp [mutexAt, FinMap.get_retainKeys, hkey]
  · rw [hP key hkey]
    simp [mutexAt, FinMap.get_retainKeys, hkey]

theorem mutexAt_orInsert (key : String) (step : RefreshStep) : { s with
      connections := s.connections.orInsert key ⟨.free, []⟩
      refresher := step }.mutexAt = s.mutexAt := by
  funext key'
  simp only [mutexAt, FinMap.get_orInsert]
  split_ifs with hkey
  · rw [hkey.1, FinMap.notMem_iff.mp hkey.2]
    rfl
  · rfl

theorem sched_eq {connections : FinMap String (WarmQueue ι)} {step : RefreshStep}
    (hstep : s.refresher.status = step.status)
    (hmutex : { s with connections := connections, refresher := step }.mutexAt = s.mutexAt) :
    { s with connections := connections, refresher := step }.sched c = s.sched c := by
  refine Sched.ext (fun task => ?_) fun key => congrFun hmutex key
  cases task with
  | none => exact hstep.symm
  | some i => rfl

theorem Present.setRefresher (hp : s.Present c) {step : RefreshStep}
    (hstep : ∀ filling proxy rest, step = .queue filling proxy rest → proxy.1 ∈ s.connections) :
    (s.setRefresher step).Present c := ⟨hp.1, hstep⟩

theorem Present.queue (hp : s.Present c) {proxy : String × String} (hkey : proxy.1 ∈ s.connections)
    (step : FillStep) (rest : List (String × String)) :
    (s.setRefresher (.queue step proxy rest)).Present c :=
  hp.setRefresher fun _ _ _ heq => by
    cases heq
    exact hkey

theorem Present.modifyQueue (hp : s.Present c) (key : String) (f : WarmQueue ι → WarmQueue ι) :
    (s.modifyQueue key f).Present c := hp

theorem Present.count (hp : s.Present c) (stream : Option ℕ) : (s.count stream).Present c := by
  cases stream <;> exact hp

theorem mutexAt_start (connections : FinMap String (List WarmConnection)) (key : String) :
    (start connections : WarmPool ι).mutexAt key = .free := by
  simp only [mutexAt, start, FinMap.get_mapValues, Option.map_map]
  cases connections.get key <;> rfl

theorem status_start (c : WarmSetup ι) (connections : FinMap String (List WarmConnection))
    (task : Option ι) : ((start connections).sched c).status task = .ready none := by
  cases task <;> rfl

variable [DecidableEq ι]

theorem Present.setTake (hp : s.Present c) {step : TakeStep}
    (hstep : step.hasShard → c.proxyKey i ∈ s.connections) : (s.setTake i step).Present c := by
  refine ⟨fun j hj => ?_, hp.2⟩
  by_cases hji : j = i
  · subst hji
    exact hstep (by simpa using hj)
  · exact hp.1 j (by simpa [takes_setTake_of_ne s step hji] using hj)

theorem sched_setTake (step : TakeStep) :
    (s.setTake i step).sched c = (s.sched c).set (some i) (step.status (c.proxyKey i)) := by
  refine Sched.ext (fun task => ?_) fun _ => rfl
  by_cases htask : task = some i
  · subst htask
    simp [sched, setTake]
  · rw [Sched.status_set_of_ne _ _ htask]
    cases task with
    | none => rfl
    | some j =>
      have hj : j ≠ i := fun h => htask (by rw [h])
      simp [sched, setTake, hj]

theorem sched_setRefresher (step : RefreshStep) :
    (s.setRefresher step).sched c = (s.sched c).set none step.status := by
  refine Sched.ext (fun task => ?_) fun _ => rfl
  cases task with
  | none => rw [Sched.status_set_self]; rfl
  | some j => rw [Sched.status_set_of_ne _ _ (Option.some_ne_none j)]; rfl

theorem dispatch_present {task : Option ι} (h : s.dispatch c task = some t) (hp : s.Present c) :
    t.Present c := by
  cases task with
  | some i =>
    simp only [dispatch] at h
    split at h
    next => obtain rfl := Option.some.inj h; exact hp.setTake nofun
    next hi =>
      split_ifs at h
      obtain rfl := Option.some.inj h
      exact hp.setTake fun _ => hp.1 i (by rw [hi]; rfl)
    next => contradiction
  | none =>
    simp only [dispatch] at h
    split at h
    next => obtain rfl := Option.some.inj h; exact hp.setRefresher nofun
    next hr =>
      split_ifs at h
      obtain rfl := Option.some.inj h
      exact hp.queue (hp.2 _ _ _ hr) _ _
    next hr =>
      obtain rfl := Option.some.inj h
      exact hp.queue (hp.2 _ _ _ hr) _ _
    next => contradiction

theorem take_present {now : Instant} {alive : WarmConnection → Bool}
    (h : s.take c i now alive = some t) (hp : s.Present c) : t.Present c := by
  simp only [take] at h
  split at h
  next =>
    obtain rfl := Option.some.inj h
    split_ifs with hkey
    · exact hp.setTake fun _ => hkey
    · exact (hp.count none).setTake nofun
  next =>
    obtain ⟨q, hq, rfl⟩ := Option.map_eq_some_iff.mp h
    have hkey := FinMap.mem_of_get hq
    exact (hp.modifyQueue _ _).setTake fun _ => hkey
  next =>
    obtain ⟨q, hq, rfl⟩ := Option.map_eq_some_iff.mp h
    have hkey := FinMap.mem_of_get hq
    exact (((hp.modifyQueue _ _).count _).modifyQueue _ _).setTake fun _ => by
      simpa [setQueue, unlockQueue] using hkey
  next => obtain rfl := Option.some.inj h; exact hp.setTake nofun
  next => contradiction

variable [Fintype ι]

theorem dispatch_sched {task : Option ι} (h : s.dispatch c task = some t)
    (hw : (s.sched c).busy < c.workers) : (s.sched c).Step c.workers (t.sched c) := by
  cases task with
  | some i =>
    simp only [dispatch] at h
    split at h
    next hi =>
      obtain rfl := Option.some.inj h
      rw [sched_setTake]
      exact .dispatch (some i) none (congrArg (TakeStep.status _) hi) hw
    next hi =>
      split_ifs at h with hturn
      obtain rfl := Option.some.inj h
      rw [sched_setTake]
      exact .resume (some i) _ (congrArg (TakeStep.status _) hi) hturn hw
    next => contradiction
  | none =>
    simp only [dispatch] at h
    split at h
    next hr =>
      obtain rfl := Option.some.inj h
      rw [sched_setRefresher]
      exact .dispatch none none (congrArg RefreshStep.status hr) hw
    next proxy rest hr =>
      split_ifs at h with hturn
      obtain rfl := Option.some.inj h
      rw [sched_setRefresher]
      exact .resume none proxy.1 (congrArg RefreshStep.status hr) hturn hw
    next stream proxy rest hr =>
      obtain rfl := Option.some.inj h
      rw [sched_setRefresher]
      exact .dispatch none (some proxy.1) (congrArg RefreshStep.status hr) hw
    next => contradiction

theorem take_sched {now : Instant} {alive : WarmConnection → Bool}
    (h : s.take c i now alive = some t) : (s.sched c).Step c.workers (t.sched c) := by
  have hstatus {step : TakeStep} (hi : s.takes i = step) :
      (s.sched c).status (some i) = step.status (c.proxyKey i) :=
    congrArg (TakeStep.status _) hi
  simp only [take] at h
  split at h
  next hi =>
    have hactive : (s.sched c).status (some i) = .active none := hstatus hi
    obtain rfl := Option.some.inj h
    split
    · rw [sched_setTake]
      exact .same hactive
    · rw [sched_setTake, sched_count]
      exact .finish (some i) hactive
  next hi =>
    obtain ⟨q, hq, rfl⟩ := Option.map_eq_some_iff.mp h
    rw [sched_setTake, sched_lockQueue (FinMap.mem_of_get hq)]
    have htasks : (s.mutexAt (c.proxyKey i)).tasks = q.mutex.tasks := by rw [mutexAt_eq hq]
    split_ifs with hfree
    · exact .lock (some i) _ (hstatus hi) (htasks.trans hfree)
    · exact .wait (some i) _ (hstatus hi) (htasks ▸ hfree)
  next hi =>
    obtain ⟨q, hq, rfl⟩ := Option.map_eq_some_iff.mp h
    have hkey := FinMap.mem_of_get hq
    rw [sched_setTake, sched_unlockQueue (mem_count.mpr (mem_setQueue.mpr hkey)), sched_count,
      sched_setQueue, mutexAt_count, mutexAt_setQueue]
    exact .unlock (some i) _ (hstatus hi)
  next stream hi =>
    obtain rfl := Option.some.inj h
    rw [sched_setTake]
    exact .finish (some i) (hstatus hi)
  next => contradiction


theorem refresh_sched {now : Instant} (hs : (s.sched c).Locked) (hpresent : s.Present c)
    (h : s.refresh c now = some t) : (s.sched c).Step c.workers (t.sched c) := by
  have hstatus {step : RefreshStep} (hr : s.refresher = step) :
      (s.sched c).status none = step.status := congrArg RefreshStep.status hr
  simp only [refresh] at h
  split at h
  next shard hr =>
    have hactive : (s.sched c).status none = .active none := hstatus hr
    split_ifs at h with hshard hfree <;> obtain rfl := Option.some.inj h
    · rw [sched_eq (by rw [hr]; rfl) (mutexAt_retainKeys (fun key hkey => ?_) _)]
      · exact .stay
      · have hof : c.shardOf key = shard := by
          simp at hkey
          exact hkey.1
        exact mutexAt_eq_free hs hr (fun i hi h => hfree i hi (Fin.ext h)) hof
    · rw [sched_setRefresher]
      exact .same hactive
  next hr =>
    obtain rfl := Option.some.inj h
    rw [sched_setRefresher]
    exact .finish none (hstatus hr)
  next proxy rest hr =>
    have hactive : (s.sched c).status none = .active none := hstatus hr
    split_ifs at h with hfree
    obtain rfl := Option.some.inj h
    rw [sched_eq (by rw [hr]; rfl) (mutexAt_orInsert proxy.1 _)]
    exact .stay
  next proxy rest hr =>
    obtain ⟨q, hq, rfl⟩ := Option.map_eq_some_iff.mp h
    rw [sched_setRefresher, sched_lockQueue (FinMap.mem_of_get hq)]
    have htasks : (s.mutexAt proxy.1).tasks = q.mutex.tasks := by rw [mutexAt_eq hq]
    split_ifs with hfree
    · exact .lock none _ (hstatus hr) (htasks.trans hfree)
    · exact .wait none _ (hstatus hr) (htasks ▸ hfree)
  next proxy rest hr =>
    have hactive : (s.sched c).status none = .active (some proxy.1) := hstatus hr
    obtain rfl := Option.some.inj h
    rw [sched_setRefresher, sched_setQueue]
    exact .same hactive
  next proxy rest hr =>
    obtain ⟨q, hq, rfl⟩ := Option.map_eq_some_iff.mp h
    split_ifs
    · rw [sched_setRefresher]
      exact .suspend none _ (hstatus hr)
    · rw [sched_setRefresher, sched_unlockQueue (FinMap.mem_of_get hq)]
      exact .unlock none _ (hstatus hr)
  next proxy rest hr =>
    obtain rfl := Option.some.inj h
    rw [sched_setRefresher, sched_unlockQueue (hpresent.2 _ proxy rest hr)]
    exact .unlock none _ (hstatus hr)
  next stream proxy rest hr =>
    have hactive : (s.sched c).status none = .active (some proxy.1) := hstatus hr
    obtain rfl := Option.some.inj h
    rw [sched_setRefresher, sched_setQueue]
    exact .same hactive
  next => contradiction

/-- Every step is one that the runtime knows. -/
theorem Step.sched (hs : (s.sched c).Locked) (hpresent : s.Present c) (h : Step c s e t) :
    (s.sched c).Step c.workers (t.sched c) := by
  obtain ⟨now, event⟩ := e
  simp only [Step] at h
  cases event with
  | dispatch task =>
    simp only [apply] at h
    split_ifs at h with hw
    exact dispatch_sched h hw
  | take i alive => exact take_sched h
  | refresh => exact refresh_sched hs hpresent h
  | connected stream =>
    simp only [apply] at h
    split at h
    next proxy rest hr =>
      obtain rfl := Option.some.inj h
      rw [sched_setRefresher]
      exact .wake none _ (congrArg RefreshStep.status hr)
    next => contradiction

omit [DecidableEq ι] in
theorem refresh_present {now : Instant} (h : s.refresh c now = some t) (hp : s.Present c) :
    t.Present c := by
  simp only [refresh] at h
  split at h
  next shard hr =>
    split_ifs at h with hshard hfree <;> obtain rfl := Option.some.inj h
    · refine ⟨fun i hi => FinMap.mem_retainKeys.mpr ⟨hp.1 i hi, ?_⟩, nofun⟩
      have hne : (c.shardOf (c.proxyKey i)).val ≠ shard := fun heq => hfree i hi (Fin.ext heq)
      simp [hne]
    · exact hp.setRefresher nofun
  next => obtain rfl := Option.some.inj h; exact hp.setRefresher nofun
  next =>
    split_ifs at h
    obtain rfl := Option.some.inj h
    refine ⟨fun i hi => FinMap.mem_orInsert.mpr (.inr (hp.1 i hi)), fun _ _ _ heq => ?_⟩
    cases heq
    exact FinMap.mem_orInsert.mpr (.inl rfl)
  next =>
    obtain ⟨q, hq, rfl⟩ := Option.map_eq_some_iff.mp h
    have hkey := FinMap.mem_of_get hq
    exact (hp.modifyQueue _ _).queue hkey _ _
  next hr =>
    obtain rfl := Option.some.inj h
    exact (hp.modifyQueue _ _).queue (hp.2 _ _ _ hr) _ _
  next =>
    obtain ⟨q, hq, rfl⟩ := Option.map_eq_some_iff.mp h
    split_ifs
    · exact hp.queue (FinMap.mem_of_get hq) _ _
    · exact (hp.modifyQueue _ _).setRefresher nofun
  next => obtain rfl := Option.some.inj h; exact (hp.modifyQueue _ _).setRefresher nofun
  next hr =>
    obtain rfl := Option.some.inj h
    exact (hp.modifyQueue _ _).queue (hp.2 _ _ _ hr) _ _
  next => contradiction

theorem Step.present (h : Step c s e t) (hp : s.Present c) : t.Present c := by
  obtain ⟨now, event⟩ := e
  simp only [Step] at h
  cases event with
  | dispatch task =>
    simp only [apply] at h
    split_ifs at h
    exact dispatch_present h hp
  | take i alive => exact take_present h hp
  | refresh => exact refresh_present h hp
  | connected stream =>
    simp only [apply] at h
    split at h
    next hr =>
      obtain rfl := Option.some.inj h
      exact hp.queue (hp.2 _ _ _ hr) _ _
    next => contradiction

/-- What holds in every state. -/
structure Inv (c : WarmSetup ι) (s : WarmPool ι) : Prop where
  locked : (s.sched c).Locked
  busy : (s.sched c).busy ≤ c.workers
  present : s.Present c

theorem Step.inv (h : Step c s e t) (hs : s.Inv c) : t.Inv c where
  locked := (h.sched hs.locked hs.present).locked hs.locked
  busy := (h.sched hs.locked hs.present).busy_le hs.busy
  present := h.present hs.present

omit [DecidableEq ι] in
theorem inv_start (c : WarmSetup ι) (connections : FinMap String (List WarmConnection)) :
    (start connections).Inv c where
  locked := .init (status_start c connections) (mutexAt_start connections)
  busy := by
    rw [Sched.busy_eq_zero fun task => by rw [status_start]; exact Bool.false_ne_true]
    exact Nat.zero_le _
  present := ⟨nofun, nofun⟩

end Sched

end WarmPool

end VpnGateway
