import VpnGateway.Pool.WarmPoolProgress

/-! The run after which the warm pool is stuck, and exactly which setups have one. -/
namespace VpnGateway

open Locks Tasks

namespace WarmPool

variable {ι : Type*} {c : WarmSetup ι} {s₀ s t : WarmPool ι} {now : Instant}

/-- No call of `take` has a worker, and every connection in a queue is too old by now. -/
structure Calm (c : WarmSetup ι) (now : Instant) (s : WarmPool ι) : Prop where
  takes : ∀ i, s.takes i = .start ∨ s.takes i = .waiting
  stale : ∀ key q, s.connections.get key = some q →
    ∀ conn ∈ q.queue, ¬ now - conn.establishedAt < c.maxAge

namespace Calm

theorem not_active (h : s.Calm c now) (i : ι) : ¬ ((s.sched c).status (some i)).isActive := by
  rw [status_take]
  obtain hi | hi := h.takes i <;> rw [hi] <;> exact Bool.false_ne_true

theorem setRefresher (h : s.Calm c now) (step : RefreshStep) : (s.setRefresher step).Calm c now :=
  ⟨h.takes, h.stale⟩

theorem modifyQueue (h : s.Calm c now) (key : String) {f : WarmQueue ι → WarmQueue ι}
    (hf : ∀ q, ∀ conn ∈ (f q).queue, conn ∈ q.queue) : (s.modifyQueue key f).Calm c now := by
  refine ⟨h.takes, fun key' q hq conn hconn => ?_⟩
  obtain ⟨q', hq', rfl | ⟨-, rfl⟩⟩ := FinMap.get_modify_some hq
  · exact h.stale key' q hq' conn hconn
  · exact h.stale key' q' hq' conn (hf q' conn hconn)

theorem lockQueue (h : s.Calm c now) (key : String) (task : Option ι) :
    (s.lockQueue key task).Calm c now := h.modifyQueue key fun _ _ hconn => hconn

theorem unlockQueue (h : s.Calm c now) (key : String) : (s.unlockQueue key).Calm c now :=
  h.modifyQueue key fun _ _ hconn => hconn

theorem setQueue (h : s.Calm c now) (key : String) {f : List WarmConnection → List WarmConnection}
    (hf : ∀ queue, f queue ⊆ queue) : (s.setQueue key f).Calm c now :=
  h.modifyQueue key fun q _ hconn => hf q.queue hconn

theorem busy_eq_zero [Fintype ι] (h : s.Calm c now) (hr : ¬ s.refresher.status.isActive) :
    (s.sched c).busy = 0 := Sched.busy_eq_zero fun task => by
  cases task with
  | none => exact hr
  | some i => exact h.not_active i

end Calm

/-- At some time every connection that is there from the start is too old. -/
theorem exists_calm (c : WarmSetup ι) (connections : FinMap String (List WarmConnection)) :
    ∃ now, (start connections).Calm c now := by
  let times := fun key => (((connections.get key).getD []).map (·.establishedAt)).sum
  refine ⟨∑ key ∈ connections.keys, times key + c.maxAge, fun _ => .inl rfl, ?_⟩
  intro key q hq conn hconn
  obtain ⟨queue, hqueue, rfl⟩ := Option.map_eq_some_iff.mp hq
  have hconn' : conn.establishedAt ≤ times key := by
    refine List.le_sum_of_mem ?_
    rw [hqueue]
    exact List.mem_map_of_mem hconn
  have hkey : times key ≤ ∑ key ∈ connections.keys, times key :=
    Finset.single_le_sum (fun _ _ => Nat.zero_le _) (FinMap.mem_of_get hqueue)
  have hold : ∀ a b m : ℕ, a ≤ b → ¬ b + m - a < m := by omega
  exact hold _ _ _ (hconn'.trans hkey)

/-- Of two visited proxies that break the condition on the shards, the later one can be chosen as
the first behind the other. -/
theorem exists_close (h : ¬ c.ShardsApart) : ∃ before proxy between proxy' after i,
    c.visited = before ++ proxy :: between ++ proxy' :: after ∧ c.proxyKey i = proxy.1 ∧
      c.shardOf proxy.1 = c.shardOf proxy'.1 ∧
      ∀ p ∈ between, c.shardOf proxy.1 ≠ c.shardOf p.1 := by
  rw [WarmSetup.ShardsApart, List.pairwise_iff_forall_sublist] at h
  push Not at h
  obtain ⟨proxy, proxy', hsub, ⟨i, hi⟩, hshard⟩ := h
  obtain ⟨front, back, hvisited, hfront, hback⟩ := List.cons_sublist_iff.mp hsub
  obtain ⟨before, rest, rfl⟩ := List.append_of_mem hfront
  have hmem : proxy' ∈ rest ++ back := List.mem_append_right _ (List.singleton_sublist.mp hback)
  have hfind : ((rest ++ back).find? fun p => c.shardOf proxy.1 = c.shardOf p.1).isSome :=
    List.find?_isSome.mpr ⟨proxy', hmem, by simpa using hshard⟩
  obtain ⟨close, hclose⟩ := Option.isSome_iff_exists.mp hfind
  obtain ⟨heq, between, after, hsplit, hbetween⟩ := List.find?_eq_some_iff_append.mp hclose
  refine ⟨before, proxy, between, close, after, i, ?_, hi, by simpa using heq,
    fun p hp => by simpa using hbetween p hp⟩
  rw [hvisited, List.append_assoc, List.cons_append, hsplit, List.append_assoc, List.cons_append]

variable [DecidableEq ι] [Fintype ι]

/-- `refresh` comes to a proxy whose queue is free, finds nothing usable in it and connects. -/
theorem reach_connecting (hs : Runs.Reachable (Step c) s₀ s) (hcalm : s.Calm c now)
    {proxy : String × String} {rest : List (String × String)}
    (hr : s.refresher = .entry (proxy :: rest))
    (hshard : s.ShardFree c (c.shardOf proxy.1)) (hmutex : s.mutexAt proxy.1 = .free)
    (hmax : 0 < c.maxPerProxy) :
    ∃ t, Runs.Reachable (Step c) s₀ t ∧ t.Calm c now ∧
      t.refresher = .queue .connecting proxy rest ∧ t.takes = s.takes ∧
      proxy.1 ∈ t.connections ∧
      t.mutexAt = Function.update s.mutexAt proxy.1 (Mutex.free.lock none) := by
  let s₁ : WarmPool ι := { s with
    connections := s.connections.orInsert proxy.1 ⟨.free, []⟩
    refresher := .queue .lock proxy rest }
  let s₂ := (s₁.lockQueue proxy.1 none).setRefresher (.queue .locked proxy rest)
  let s₃ := (s₂.setQueue proxy.1 fun queue =>
    queue.filter fun conn => now - conn.establishedAt < c.maxAge).setRefresher
      (.queue .fill proxy rest)
  have hmutex₁ : s₁.mutexAt = s.mutexAt := mutexAt_orInsert proxy.1 _
  have hkey₁ : proxy.1 ∈ s₁.connections := FinMap.mem_orInsert.mpr (.inl rfl)
  obtain ⟨q, hq⟩ := FinMap.mem_iff.mp hkey₁
  have hcalm₁ : s₁.Calm c now := by
    refine ⟨hcalm.takes, fun key q hq => ?_⟩
    simp only [s₁, FinMap.get_orInsert] at hq
    split_ifs at hq
    · obtain rfl := Option.some.inj hq
      exact nofun
    · exact hcalm.stale key q hq
  have hcalm₃ : s₃.Calm c now :=
    ((hcalm₁.lockQueue _ _).setQueue _ fun _ => List.filter_subset_self _).setRefresher _
  have hempty : (q.queue.filter fun conn => now - conn.establishedAt < c.maxAge) = [] :=
    List.filter_eq_nil_iff.mpr fun conn hconn => by
      simpa using hcalm₁.stale proxy.1 q hq conn hconn
  have hq₃ : s₃.connections.get proxy.1 = some ⟨q.mutex.lock none, []⟩ := by
    simp [s₃, s₂, WarmPool.setRefresher, setQueue, lockQueue, modifyQueue, FinMap.get_modify, hq,
      hempty]
  have hs₁ : Step c s (now, .refresh) s₁ := by simp [Step, apply, refresh, hr, hshard, s₁]
  have hs₂ : Step c s₁ (now, .refresh) s₂ := by
    have hfree : q.mutex.tasks = [] := by
      rw [← mutexAt_eq hq, hmutex₁, hmutex]
      rfl
    have hr₁ : s₁.refresher = .queue .lock proxy rest := rfl
    simp [Step, apply, refresh, hr₁, hq, hfree, s₂]
  have hs₃ : Step c s₂ (now, .refresh) s₃ := rfl
  have hs₄ : Step c s₃ (now, .refresh) (s₃.setRefresher (.queue .connecting proxy rest)) := by
    have hr₃ : s₃.refresher = .queue .fill proxy rest := rfl
    simp [Step, apply, refresh, hr₃, hq₃, hmax]
  have hreach := (((hs.step hs₁).step hs₂).step hs₃).step hs₄
  refine ⟨_, hreach, hcalm₃.setRefresher _, rfl, rfl, hkey₁, ?_⟩
  have hmutex₂ := mutexAt_modifyQueue hkey₁ (fun q => { q with mutex := q.mutex.lock none })
    fun q hq => by rw [← mutexAt_eq hq, hmutex₁, hmutex]
  rw [hmutex₁] at hmutex₂
  exact (funext (mutexAt_setQueue (s := s₂) _)).trans hmutex₂

/-- The connect fails, and `refresh` gets a worker and goes on to the next proxy. -/
theorem reach_entry (hs : Runs.Reachable (Step c) s₀ s) (hcalm : s.Calm c now)
    {proxy : String × String} {rest : List (String × String)}
    (hr : s.refresher = .queue .connecting proxy rest) (hkey : proxy.1 ∈ s.connections) :
    ∃ t, Runs.Reachable (Step c) s₀ t ∧ t.Calm c now ∧ t.refresher = .entry rest ∧
      t.takes = s.takes ∧
      t.mutexAt = Function.update s.mutexAt proxy.1 (s.mutexAt proxy.1).unlock := by
  let s₁ := s.setRefresher (.queue (.connected none) proxy rest)
  have hs₁ : Step c s (now, .connected none) s₁ := by simp [Step, apply, hr, s₁]
  have hs₂ : Step c s₁ (now, .dispatch none)
      (s₁.setRefresher (.queue (.resumed none) proxy rest)) := by
    have hbusy : (s₁.sched c).busy < c.workers := by
      have hzero : (s₁.sched c).busy = 0 := (hcalm.setRefresher _).busy_eq_zero Bool.false_ne_true
      exact hzero ▸ c.workers_pos
    exact if_pos hbusy
  have hs₃ : Step c (s₁.setRefresher (.queue (.resumed none) proxy rest)) (now, .refresh)
      ((s.unlockQueue proxy.1).setRefresher (.entry rest)) := rfl
  refine ⟨_, ((hs.step hs₁).step hs₂).step hs₃,
    (hcalm.unlockQueue _).setRefresher _, rfl, rfl, ?_⟩
  exact mutexAt_modifyQueue hkey _ fun q hq => by rw [← mutexAt_eq hq]

/-- `refresh` passes proxies whose shards and queues are free. -/
theorem reach_rest (hs : Runs.Reachable (Step c) s₀ s) (hcalm : s.Calm c now)
    (hmax : 0 < c.maxPerProxy) {passed rest : List (String × String)}
    (hr : s.refresher = .entry (passed ++ rest))
    (hshard : ∀ proxy ∈ passed, s.ShardFree c (c.shardOf proxy.1))
    (hmutex : ∀ proxy ∈ passed, s.mutexAt proxy.1 = .free) :
    ∃ t, Runs.Reachable (Step c) s₀ t ∧ t.Calm c now ∧ t.refresher = .entry rest ∧
      t.takes = s.takes ∧ t.mutexAt = s.mutexAt := by
  induction passed generalizing s with
  | nil => exact ⟨s, hs, hcalm, hr, rfl, rfl⟩
  | cons proxy passed ih =>
    obtain ⟨hfirst, hshard⟩ := List.forall_mem_cons.mp hshard
    obtain ⟨hfree, hmutex⟩ := List.forall_mem_cons.mp hmutex
    obtain ⟨t, ht, htcalm, htr, httakes, hkey, htmutex⟩ :=
      reach_connecting hs hcalm hr hfirst hfree hmax
    obtain ⟨u, hu, hucalm, hur, hutakes, humutex⟩ := reach_entry ht htcalm htr hkey
    have hsame : u.mutexAt = s.mutexAt := by
      rw [humutex, htmutex, Function.update_self, Function.update_idem]
      exact Function.update_eq_iff.mpr ⟨hfree.symm, fun _ _ => rfl⟩
    have htakes : u.takes = s.takes := hutakes.trans httakes
    obtain ⟨v, hv, hvcalm, hvr, hvtakes, hvmutex⟩ := ih hu hucalm hur
      (fun p hp => by simpa only [ShardFree, htakes] using hshard p hp)
      (fun p hp => by rw [hsame, hmutex p hp])
    exact ⟨v, hv, hvcalm, hvr, hvtakes.trans htakes, hvmutex.trans hsame⟩

/-- While `refresh` connects, a call of `take` for the same proxy waits for the queue. -/
theorem reach_waiting (hs : Runs.Reachable (Step c) s₀ s) (hcalm : s.Calm c now)
    {proxy : String × String} {rest : List (String × String)}
    (hr : s.refresher = .queue .connecting proxy rest) (hkey : proxy.1 ∈ s.connections)
    {i : ι} (hi : s.takes i = .start) (hproxy : c.proxyKey i = proxy.1)
    (hmutex : (s.mutexAt proxy.1).tasks ≠ []) :
    ∃ t, Runs.Reachable (Step c) s₀ t ∧ t.Calm c now ∧
      t.refresher = .queue .connecting proxy rest ∧ proxy.1 ∈ t.connections ∧
      t.takes = Function.update s.takes i .waiting ∧
      t.mutexAt = Function.update s.mutexAt proxy.1 ((s.mutexAt proxy.1).lock (some i)) := by
  obtain ⟨q, hq⟩ := FinMap.mem_iff.mp hkey
  have hbusy : (s.sched c).busy < c.workers := by
    rw [hcalm.busy_eq_zero (by rw [hr]; exact Bool.false_ne_true)]
    exact c.workers_pos
  let s₁ := s.setTake i .get
  let s₂ := s₁.setTake i .referenced
  let s₃ := (s₂.lockQueue proxy.1 (some i)).setTake i .waiting
  have hs₁ : Step c s (now, .dispatch (some i)) s₁ := by
    simp [Step, apply, if_pos hbusy, dispatch, hi, s₁]
  have hs₂ : Step c s₁ (now, .take i fun _ => true) s₂ := by
    have hmem : c.proxyKey i ∈ s₁.connections := hproxy ▸ hkey
    simp [Step, apply, take, s₁, if_pos hmem, s₂]
  have hs₃ : Step c s₂ (now, .take i fun _ => true) s₃ := by
    have htake₂ : s₂.takes i = .referenced := takes_setTake_self ..
    have hq₂ : s₂.connections.get proxy.1 = some q := hq
    have htaken : q.mutex.tasks ≠ [] := by rwa [← mutexAt_eq hq]
    simp [Step, apply, take, htake₂, hq₂, htaken, s₃, hproxy]
  have htakes : s₃.takes = Function.update s.takes i .waiting := by
    funext j
    by_cases hj : j = i
    · simp [hj, s₃]
    · simp [hj, s₃, s₂, s₁, takes_setTake_of_ne, lockQueue, modifyQueue]
  have hcalm₃ : s₃.Calm c now := by
    refine ⟨fun j => ?_, ((hcalm.lockQueue proxy.1 (some i))).stale⟩
    rw [htakes]
    by_cases hj : j = i
    · simp [hj]
    · simpa [hj] using hcalm.takes j
  refine ⟨s₃, ((hs.step hs₁).step hs₂).step hs₃, hcalm₃, hr, hkey, htakes, ?_⟩
  exact mutexAt_modifyQueue hkey _ fun q hq => by rw [← mutexAt_eq hq]

/-- From the start, `refresh` comes to the first proxy that it visits. -/
theorem reach_visited (connections : FinMap String (List WarmConnection))
    (hcalm : (start connections).Calm c now) :
    ∃ t, Runs.Reachable (Step c) (start connections) t ∧ t.Calm c now ∧
      t.refresher = .entry c.visited ∧ (∀ i, t.takes i = .start) ∧
      ∀ key, t.mutexAt key = .free := by
  have hretain : ∀ shard ≤ c.shards, ∃ t, Runs.Reachable (Step c) (start connections) t ∧
      t.Calm c now ∧ t.refresher = .retain shard ∧ (∀ i, t.takes i = .start) ∧
      ∀ key, t.mutexAt key = .free := by
    intro shard
    induction shard with
    | zero =>
      intro _
      have hs : Step c (start connections) (now, .dispatch none)
          ((start connections).setRefresher (.retain 0)) := by
        have hbusy : ((start connections).sched c).busy < c.workers := by
          rw [hcalm.busy_eq_zero Bool.false_ne_true]
          exact c.workers_pos
        simp only [Step, apply, if_pos hbusy]
        rfl
      exact ⟨_, (Runs.Reachable.init _).step hs, hcalm.setRefresher _, rfl, fun _ => rfl,
        mutexAt_start connections⟩
    | succ shard ih =>
      intro hle
      obtain ⟨t, ht, htcalm, htr, htakes, htfree⟩ := ih (Nat.le_of_succ_le hle)
      have hfree : t.ShardFree c ⟨shard, hle⟩ := fun i hi => by
        rw [htakes i] at hi
        contradiction
      let u : WarmPool ι := { t with
        connections := t.connections.retainKeys fun key =>
          (c.shardOf key).val ≠ shard ∨ key ∈ c.activeKeys
        refresher := .retain (shard + 1) }
      have hu : Step c t (now, .refresh) u := by
        simp [Step, apply, refresh, htr, Nat.lt_of_succ_le hle, hfree, u]
      have hucalm : u.Calm c now := by
        refine ⟨htcalm.takes, fun key q hq => ?_⟩
        simp only [u, FinMap.get_retainKeys] at hq
        split_ifs at hq
        exact htcalm.stale key q hq
      refine ⟨u, ht.step hu, hucalm, rfl, htakes, fun key => ?_⟩
      rw [← htfree key]
      exact congrFun (mutexAt_retainKeys (fun key _ => htfree key) _) key
  obtain ⟨t, ht, htcalm, htr, htakes, htfree⟩ := hretain c.shards le_rfl
  have hu : Step c t (now, .refresh) (t.setRefresher (.entry c.visited)) := by
    simp [Step, apply, refresh, htr]
  exact ⟨_, ht.step hu, htcalm.setRefresher _, rfl, htakes, htfree⟩

/-- `refresh` has the only worker and stands at a shard that a waiting call keeps. -/
theorem stuck_of_entry (hcalm : s.Calm c now) (hw : c.workers = 1) {proxy : String × String}
    {rest : List (String × String)} (hr : s.refresher = .entry (proxy :: rest)) {i : ι}
    (hi : s.takes i = .waiting) (hshard : c.shardOf (c.proxyKey i) = c.shardOf proxy.1) :
    s.Stuck c := by
  refine ⟨fun hfinished => ?_, ?_⟩
  · rw [hfinished.2] at hr
    contradiction
  have hbusy : ¬ (s.sched c).busy < c.workers := by
    have hactive : ((s.sched c).status none).isActive := by rw [status_refresher, hr]; rfl
    have hpos := Sched.busy_pos hactive
    omega
  rintro ⟨time, event⟩ t h
  simp only [Step] at h
  cases event with
  | dispatch task => simp [apply, hbusy] at h
  | take j alive => obtain hj | hj := hcalm.takes j <;> simp [apply, take, hj] at h
  | refresh =>
    have hkept : ¬ s.ShardFree c (c.shardOf proxy.1) := fun hfree =>
      hfree i (by rw [hi]; rfl) hshard
    simp [apply, refresh, hr, hkept] at h
  | connected stream => simp [apply, hr] at h

theorem exists_stuck (connections : FinMap String (List WarmConnection)) (hw : c.workers = 1)
    (hmax : 0 < c.maxPerProxy) (hclose : ¬ c.ShardsApart) :
    ∃ s, Runs.Reachable (Step c) (start connections) s ∧ s.Stuck c := by
  obtain ⟨before, proxy, between, proxy', after, i, hvisited, hi, hshard, hbetween⟩ :=
    exists_close hclose
  obtain ⟨now, hcalm⟩ := exists_calm c connections
  obtain ⟨s₀, hs₀, hcalm₀, hr₀, htakes₀, hfree₀⟩ := reach_visited connections hcalm
  have hshards₀ : ∀ shard, s₀.ShardFree c shard := fun _ j hj => by
    rw [htakes₀ j] at hj
    contradiction
  rw [hvisited, List.append_assoc, List.cons_append] at hr₀
  -- up to the first of the two proxies, whose queue the call then waits for
  obtain ⟨s₁, hs₁, hcalm₁, hr₁, htakes₁, hmutex₁⟩ := reach_rest hs₀ hcalm₀ hmax hr₀
    (fun _ _ => hshards₀ _) fun p _ => hfree₀ p.1
  have hshards₁ : s₁.ShardFree c (c.shardOf proxy.1) := by
    simpa only [ShardFree, htakes₁] using hshards₀ _
  obtain ⟨s₂, hs₂, hcalm₂, hr₂, htakes₂, hkey₂, hmutex₂⟩ := reach_connecting hs₁ hcalm₁ hr₁
    hshards₁ (by rw [hmutex₁, hfree₀]) hmax
  have htake₂ : s₂.takes i = .start := by rw [htakes₂, htakes₁, htakes₀]
  obtain ⟨s₃, hs₃, hcalm₃, hr₃, hkey₃, htakes₃, hmutex₃⟩ := reach_waiting hs₂ hcalm₂ hr₂ hkey₂
    htake₂ hi (by simp [hmutex₂, Mutex.lock])
  -- the call is handed the queue, but `refresh` keeps the worker up to the second proxy
  obtain ⟨s₄, hs₄, hcalm₄, hr₄, htakes₄, hmutex₄⟩ := reach_entry hs₃ hcalm₃ hr₃ hkey₃
  have htakes : ∀ j, (s₄.takes j).hasShard → j = i := by
    intro j hj
    by_contra hne
    rw [htakes₄, htakes₃, Function.update_of_ne hne, htakes₂, htakes₁, htakes₀] at hj
    contradiction
  obtain ⟨s₅, hs₅, hcalm₅, hr₅, htakes₅, -⟩ := reach_rest hs₄ hcalm₄ hmax hr₄
    (fun p hp j hj => by rw [htakes j hj, hi]; exact hbetween p hp) (fun p hp => by
      have hne : p.1 ≠ proxy.1 := fun h => hbetween p hp (by rw [h])
      rw [hmutex₄, Function.update_of_ne hne, hmutex₃, Function.update_of_ne hne, hmutex₂,
        Function.update_of_ne hne, hmutex₁, hfree₀])
  have htake₅ : s₅.takes i = .waiting := by rw [htakes₅, htakes₄, htakes₃, Function.update_self]
  exact ⟨s₅, hs₅, stuck_of_entry hcalm₅ hw hr₅ htake₅ (by rw [hi, hshard])⟩

/-- No run gets stuck exactly where a second worker is there, no connection is ever kept warm, or
no proxy that a call takes from shares its shard with one that `refresh` visits later. -/
theorem never_stuck_iff (c : WarmSetup ι) (connections : FinMap String (List WarmConnection)) :
    (∀ s, Runs.Reachable (Step c) (start connections) s → ¬ s.Stuck c) ↔
      2 ≤ c.workers ∨ c.maxPerProxy = 0 ∨ c.ShardsApart := by
  constructor
  · intro hall
    by_contra hc
    push Not at hc
    obtain ⟨hw, hmax, hclose⟩ := hc
    have hpos := c.workers_pos
    obtain ⟨s, hs, hstuck⟩ := exists_stuck connections (by omega) (by omega) hclose
    exact hall s hs hstuck
  · rintro hc s hs ⟨hnot, hstuck⟩
    have hinv : s.Inv c := hs.invariant (fun _ _ _ hs h => h.inv hs) (inv_start c connections)
    have hpassed : c.workers = 1 → ∃ passed, s.Passed c passed := fun hw => by
      have hstep : ∀ s e t, (s.Inv c ∧ ∃ passed, s.Passed c passed) → Step c s e t →
          t.Inv c ∧ ∃ passed, t.Passed c passed := by
        rintro s e t ⟨hs, passed, hp⟩ h
        exact ⟨h.inv hs, h.passed hp hs hw⟩
      exact (hs.invariant hstep ⟨inv_start c connections, [], passed_start c connections⟩).2
    obtain ⟨e, t, h⟩ := progress hinv hpassed hc hnot
    exact hstuck e t h

/-- One worker, two proxies whose keys fall into one of four shards, and a call for the first. -/
private def oneWorker : WarmSetup Unit where
  workers := 1
  workers_pos := le_rfl
  shards := 4
  shardOf _ := 2
  maxPerProxy := 2
  maxProxies := 10
  maxAge := fromSecs 60
  proxyKey _ := "10.0.0.1:8080"
  topProxyKeys := [("10.0.0.1:8080", "10.0.0.1:8080"), ("10.0.0.2:1080", "10.0.0.2:1080")]

/-- The gateway stops: neither the call nor `refresh` can go on. -/
theorem stuck_on_one_worker :
    ¬ ∀ s, Runs.Reachable (Step oneWorker) (start .empty) s → ¬ s.Stuck oneWorker := by
  intro hall
  have hclose : ¬ oneWorker.ShardsApart := fun hapart =>
    (List.pairwise_pair.mp hapart) ⟨(), rfl⟩ rfl
  obtain ⟨s, hs, hstuck⟩ := exists_stuck .empty rfl (by decide : 0 < 2) hclose
  exact hall s hs hstuck

end WarmPool

end VpnGateway
