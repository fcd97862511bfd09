import VpnGateway.Pool.WarmPool

/-! When the warm pool can stop for good: `refresh` blocks the only worker at a shard whose guard
a call of `take` keeps while it waits for a mutex. -/
namespace VpnGateway

open Locks Tasks

/-- The proxies that `refresh` has not come to. -/
def RefreshStep.ahead (visited : List (String × String)) : RefreshStep → List (String × String)
  | start | retain _ => visited
  | entry rest | queue _ _ rest => rest
  | done => []

/-- `refresh` leaves its worker to others here. -/
@[simp] def FillStep.suspends : FillStep → Bool
  | waiting | connecting | connected _ => true
  | lock | locked | fill | resumed _ => false

namespace WarmPool

variable {ι : Type*} {c : WarmSetup ι} {s t : WarmPool ι} {e : Instant × WarmEvent ι}

/-- `refresh` has come to the proxies `passed`. With one worker, calls of `take` wait only for
their queues, and only because a connect has suspended `refresh`. -/
structure Passed (c : WarmSetup ι) (s : WarmPool ι) (passed : List (String × String)) : Prop where
  visited : c.visited = passed ++ s.refresher.ahead c.visited
  current : ∀ step proxy rest, s.refresher = .queue step proxy rest →
    proxy ∈ passed ∧ (step.suspends → 0 < c.maxPerProxy)
  takes : ∀ i, s.takes i = .waiting →
    0 < c.maxPerProxy ∧ ∃ proxy ∈ passed, proxy.1 = c.proxyKey i

theorem passed_start (c : WarmSetup ι) (connections : FinMap String (List WarmConnection)) :
    (start connections).Passed c [] := ⟨rfl, nofun, nofun⟩

theorem status_take (s : WarmPool ι) (c : WarmSetup ι) (i : ι) :
    (s.sched c).status (some i) = (s.takes i).status (c.proxyKey i) := rfl

theorem status_refresher (s : WarmPool ι) (c : WarmSetup ι) :
    (s.sched c).status none = s.refresher.status := rfl

/-- What a call of `take` does at a mutex that it wants. -/
theorem takes_of_wants {i : ι} {key : String} (h : ((s.sched c).status (some i)).Wants key) :
    c.proxyKey i = key ∧ (s.takes i = .waiting ∨
      s.takes i = .locked ∧ ((s.sched c).status (some i)).isActive) := by
  revert h
  rw [status_take, Status.Wants]
  cases s.takes i <;> simp [TakeStep.status, Status.isActive]

/-- What `refresh` does at a mutex that it wants. -/
theorem refresher_of_wants {key : String} (h : ((s.sched c).status none).Wants key) :
    ∃ step proxy rest, s.refresher = .queue step proxy rest ∧ proxy.1 = key ∧
      (step.suspends ∨ ((s.sched c).status none).isActive) := by
  revert h
  rw [status_refresher, Status.Wants]
  cases s.refresher with
  | queue step proxy rest =>
    intro h
    refine ⟨step, proxy, rest, rfl, ?_⟩
    revert h
    cases step <;> simp [RefreshStep.status, FillStep.status, FillStep.suspends, Status.isActive]
  | _ => simp [RefreshStep.status]

namespace Passed

variable {passed : List (String × String)}

theorem setRefresher (hp : s.Passed c passed) {step : RefreshStep}
    (hahead : step.ahead c.visited = s.refresher.ahead c.visited)
    (hcurrent : ∀ filling proxy rest, step = .queue filling proxy rest →
      proxy ∈ passed ∧ (filling.suspends → 0 < c.maxPerProxy)) :
    (s.setRefresher step).Passed c passed :=
  ⟨hp.visited.trans (congrArg (passed ++ ·) hahead.symm), hcurrent, hp.takes⟩

/-- `refresh` goes on with the same proxy. -/
theorem queue (hp : s.Passed c passed) {step step' : FillStep} {proxy : String × String}
    {rest : List (String × String)} (hr : s.refresher = .queue step proxy rest)
    (hstep : step'.suspends → 0 < c.maxPerProxy) :
    (s.setRefresher (.queue step' proxy rest)).Passed c passed := by
  refine hp.setRefresher (by rw [hr]; rfl) fun _ _ _ heq => ?_
  cases heq
  exact ⟨(hp.current _ _ _ hr).1, hstep⟩

theorem modifyQueue (hp : s.Passed c passed) (key : String) (f : WarmQueue ι → WarmQueue ι) :
    (s.modifyQueue key f).Passed c passed := ⟨hp.visited, hp.current, hp.takes⟩

theorem count (hp : s.Passed c passed) (stream : Option ℕ) : (s.count stream).Passed c passed := by
  cases stream <;> exact ⟨hp.visited, hp.current, hp.takes⟩

variable [DecidableEq ι]

theorem setTake (hp : s.Passed c passed) {i : ι} {step : TakeStep}
    (hstep : step = .waiting → 0 < c.maxPerProxy ∧ ∃ proxy ∈ passed, proxy.1 = c.proxyKey i) :
    (s.setTake i step).Passed c passed := by
  refine ⟨hp.visited, hp.current, fun j hj => ?_⟩
  by_cases hji : j = i
  · subst hji
    exact hstep (by simpa using hj)
  · exact hp.takes j (by simpa [takes_setTake_of_ne s step hji] using hj)

theorem dispatch (hp : s.Passed c passed) {task : Option ι} (h : s.dispatch c task = some t) :
    t.Passed c passed := by
  cases task with
  | some i =>
    simp only [WarmPool.dispatch] at h
    split at h
    next => obtain rfl := Option.some.inj h; exact hp.setTake (by simp)
    next =>
      split_ifs at h
      obtain rfl := Option.some.inj h
      exact hp.setTake (by simp)
    next => contradiction
  | none =>
    simp only [WarmPool.dispatch] at h
    split at h
    next hr => obtain rfl := Option.some.inj h; exact hp.setRefresher (by rw [hr]; rfl) (by simp)
    next hr =>
      split_ifs at h
      obtain rfl := Option.some.inj h
      exact hp.queue hr (by simp)
    next hr => obtain rfl := Option.some.inj h; exact hp.queue hr (by simp)
    next => contradiction

variable [Fintype ι]

/-- Who else wants the mutex that a running call finds taken is not running. -/
theorem take (hp : s.Passed c passed) (hs : s.Inv c) (hw : c.workers = 1) {i : ι} {now : Instant}
    {alive : WarmConnection → Bool} (h : s.take c i now alive = some t) : t.Passed c passed := by
  simp only [WarmPool.take] at h
  split at h
  next =>
    obtain rfl := Option.some.inj h
    split_ifs
    · exact hp.setTake (by simp)
    · exact (hp.count none).setTake (by simp)
  next hi =>
    obtain ⟨q, hq, rfl⟩ := Option.map_eq_some_iff.mp h
    refine (hp.modifyQueue _ _).setTake fun hwait => ?_
    have htaken : q.mutex.tasks ≠ [] := fun hnil => by simp [hnil] at hwait
    obtain ⟨task, htask⟩ := List.exists_mem_of_ne_nil _ htaken
    rw [← mutexAt_eq hq] at htask
    have hwants := (hs.locked.mem_tasks _ task).mp htask
    have hrunning : ((s.sched c).status (some i)).isActive := by rw [status_take, hi]; rfl
    have honly {task : Option ι} (htask : ((s.sched c).status task).isActive) : task = some i :=
      Sched.eq_of_busy_le_one (hw ▸ hs.busy) htask hrunning
    cases task with
    | none =>
      obtain ⟨step, proxy, rest, hr, hkey, hsuspends | hactive⟩ := refresher_of_wants hwants
      · obtain ⟨hmem, hmax⟩ := hp.current step proxy rest hr
        exact ⟨hmax hsuspends, proxy, hmem, hkey⟩
      · exact absurd (honly hactive) (Option.some_ne_none i).symm
    | some j =>
      obtain ⟨hkey, hj | ⟨hj, hactive⟩⟩ := takes_of_wants hwants
      · exact hkey ▸ hp.takes j hj
      · obtain rfl := Option.some.inj (honly hactive)
        rw [hi] at hj
        contradiction
  next =>
    obtain ⟨q, hq, rfl⟩ := Option.map_eq_some_iff.mp h
    exact (((hp.modifyQueue _ _).count _).modifyQueue _ _).setTake (by simp)
  next => obtain rfl := Option.some.inj h; exact hp.setTake (by simp)
  next => contradiction

omit [DecidableEq ι] in
theorem refresh (hp : s.Passed c passed) (hs : s.Inv c) (hw : c.workers = 1) {now : Instant}
    (h : s.refresh c now = some t) : ∃ passed', t.Passed c passed' := by
  have hahead {step : FillStep} {proxy : String × String} {rest : List (String × String)}
      (hr : s.refresher = .queue step proxy rest) : rest = s.refresher.ahead c.visited := by
    rw [hr]
    rfl
  simp only [WarmPool.refresh] at h
  split at h
  next shard hr =>
    split_ifs at h <;> obtain rfl := Option.some.inj h
    · exact ⟨passed, hp.visited.trans (by rw [hr]; rfl), by simp, hp.takes⟩
    · exact ⟨passed, hp.setRefresher (by rw [hr]; rfl) (by simp)⟩
  next hr =>
    obtain rfl := Option.some.inj h
    exact ⟨passed, hp.setRefresher (by rw [hr]; rfl) (by simp)⟩
  next proxy rest hr =>
    split_ifs at h
    obtain rfl := Option.some.inj h
    refine ⟨passed ++ [proxy], ?_, fun _ _ _ heq => ?_, fun i hi => ?_⟩
    · exact hp.visited.trans (by rw [hr, List.append_assoc]; rfl)
    · cases heq
      exact ⟨by simp, by simp⟩
    · obtain ⟨hmax, proxy', hmem, hkey⟩ := hp.takes i hi
      exact ⟨hmax, proxy', List.mem_append_left _ hmem, hkey⟩
  next proxy rest hr =>
    obtain ⟨q, hq, rfl⟩ := Option.map_eq_some_iff.mp h
    refine ⟨passed, (hp.modifyQueue _ _).queue hr fun hsuspends => ?_⟩
    have htaken : q.mutex.tasks ≠ [] := fun hnil => by
      rw [if_pos hnil] at hsuspends
      contradiction
    obtain ⟨task, htask⟩ := List.exists_mem_of_ne_nil _ htaken
    rw [← mutexAt_eq hq] at htask
    have hwants := (hs.locked.mem_tasks _ task).mp htask
    cases task with
    | none =>
      simp [status_refresher, hr, RefreshStep.status, FillStep.status, Status.Wants] at hwants
    | some j =>
      obtain ⟨-, hj | ⟨-, hactive⟩⟩ := takes_of_wants hwants
      · exact (hp.takes j hj).1
      · have hrunning : ((s.sched c).status none).isActive := by rw [status_refresher, hr]; rfl
        have heq := Sched.eq_of_busy_le_one (hw ▸ hs.busy) hactive hrunning
        contradiction
  next hr =>
    obtain rfl := Option.some.inj h
    exact ⟨passed, (hp.modifyQueue _ _).queue hr (by simp)⟩
  next hr =>
    obtain ⟨q, hq, rfl⟩ := Option.map_eq_some_iff.mp h
    split_ifs with hlen
    · exact ⟨passed, hp.queue hr fun _ => Nat.zero_lt_of_lt hlen⟩
    · exact ⟨passed, (hp.modifyQueue _ _).setRefresher (hahead hr) (by simp)⟩
  next hr =>
    obtain rfl := Option.some.inj h
    exact ⟨passed, (hp.modifyQueue _ _).setRefresher (hahead hr) (by simp)⟩
  next hr =>
    obtain rfl := Option.some.inj h
    exact ⟨passed, (hp.modifyQueue _ _).queue hr (by simp)⟩
  next => contradiction

end Passed

theorem takes_eq_waiting {i : ι} (hidle : ¬ ((s.sched c).status (some i)).isActive)
    (hi : (s.takes i).hasShard) : s.takes i = .waiting := by
  rw [status_take] at hidle
  revert hidle hi
  cases s.takes i <;> simp [TakeStep.status, TakeStep.hasShard, Status.isActive]

/-- With the condition on the shards, `refresh` does not block the only worker. -/
theorem shardFree_of_apart (hidle : ∀ i, ¬ ((s.sched c).status (some i)).isActive)
    {passed : List (String × String)} (hp : s.Passed c passed)
    (hapart : c.maxPerProxy = 0 ∨ c.ShardsApart) {shard : Fin c.shards}
    (hr : s.refresher = .retain shard ∨
      ∃ proxy rest, s.refresher = .entry (proxy :: rest) ∧ c.shardOf proxy.1 = shard) :
    s.ShardFree c shard := by
  intro i hi heq
  have hwait : s.takes i = .waiting := takes_eq_waiting (hidle i) hi
  obtain ⟨hmax, proxy, hmem, hkey⟩ := hp.takes i hwait
  rcases hr with hr | ⟨proxy', rest, hr, hshard⟩
  · have hnil := hp.visited
    rw [hr, RefreshStep.ahead] at hnil
    rw [List.self_eq_append_left.mp hnil] at hmem
    contradiction
  · rcases hapart with hzero | hapart
    · omega
    · rw [WarmSetup.ShardsApart, hp.visited, hr, List.pairwise_append] at hapart
      refine hapart.2.2 proxy hmem proxy' (by simp [RefreshStep.ahead]) ⟨i, hkey.symm⟩ ?_
      rw [hkey, heq, hshard]

variable [DecidableEq ι] [Fintype ι]

theorem Step.passed {passed : List (String × String)} (h : Step c s e t)
    (hp : s.Passed c passed) (hs : s.Inv c) (hw : c.workers = 1) :
    ∃ passed', t.Passed c passed' := by
  obtain ⟨now, event⟩ := e
  simp only [Step] at h
  cases event with
  | dispatch task =>
    simp only [apply] at h
    split_ifs at h
    exact ⟨passed, hp.dispatch h⟩
  | take i alive => exact ⟨passed, hp.take hs hw h⟩
  | refresh => exact hp.refresh hs hw h
  | connected stream =>
    simp only [apply] at h
    split at h
    next hr =>
      obtain rfl := Option.some.inj h
      exact ⟨passed, hp.queue hr fun _ => (hp.current _ _ _ hr).2 rfl⟩
    next => contradiction

/-- A call of `take` that has a worker can go on. -/
theorem take_step {i : ι} (hs : s.Inv c) (hi : ((s.sched c).status (some i)).isActive) :
    ∃ e t, Step c s e t := by
  refine ⟨(0, .take i fun _ => true), Option.isSome_iff_exists.mp ?_⟩
  have hget : (s.takes i).hasShard → ∃ q, s.connections.get (c.proxyKey i) = some q := fun h =>
    FinMap.mem_iff.mp (hs.present.1 i h)
  rw [status_take] at hi
  simp only [apply, take]
  cases hstep : s.takes i with
  | get => rfl
  | referenced =>
    obtain ⟨q, hq⟩ := hget (by rw [hstep]; rfl)
    rw [hq]
    rfl
  | locked =>
    obtain ⟨q, hq⟩ := hget (by rw [hstep]; rfl)
    rw [hq]
    rfl
  | unlocked stream => rfl
  | start => rw [hstep] at hi; contradiction
  | waiting => rw [hstep] at hi; contradiction
  | done stream => rw [hstep] at hi; contradiction

/-- A task that is not suspended can have a worker that is free. -/
theorem dispatch_step {task : Option ι} {held : Option String}
    (h : (s.sched c).status task = .ready held) (hw : (s.sched c).busy < c.workers) :
    ∃ e t, Step c s e t := by
  refine ⟨(0, .dispatch task), Option.isSome_iff_exists.mp ?_⟩
  simp only [apply, if_pos hw]
  cases task with
  | some i =>
    rw [status_take] at h
    cases hi : s.takes i <;> simp [hi, TakeStep.status] at h
    simp [dispatch, hi]
  | none =>
    rw [status_refresher] at h
    cases hr : s.refresher with
    | start => simp [dispatch, hr]
    | queue step proxy rest =>
      cases step <;> simp [hr, RefreshStep.status, FillStep.status] at h
      simp [dispatch, hr]
    | _ => simp [hr, RefreshStep.status] at h

/-- A task that has been handed its mutex can have a worker that is free. -/
theorem resume_step {task : Option ι} {key : String} (h : (s.sched c).status task = .waiting key)
    (hturn : (s.mutexAt key).holder = some task) (hw : (s.sched c).busy < c.workers) :
    ∃ e t, Step c s e t := by
  refine ⟨(0, .dispatch task), Option.isSome_iff_exists.mp ?_⟩
  simp only [apply, if_pos hw]
  cases task with
  | some i =>
    rw [status_take] at h
    cases hi : s.takes i <;> simp [hi, TakeStep.status] at h
    subst h
    simp [dispatch, hi, hturn]
  | none =>
    rw [status_refresher] at h
    cases hr : s.refresher with
    | queue step proxy rest =>
      cases step <;> simp [hr, RefreshStep.status, FillStep.status] at h
      subst h
      simp [dispatch, hr, hturn]
    | _ => simp [hr, RefreshStep.status] at h

/-- Where `refresh` has a worker, it goes on unless it stands at a shard that is not free. -/
theorem refresh_step (hs : s.Inv c) (hr : ((s.sched c).status none).isActive) :
    (∃ e t, Step c s e t) ∨
      ∃ shard, ¬ s.ShardFree c shard ∧ (s.refresher = .retain shard ∨
        ∃ proxy rest, s.refresher = .entry (proxy :: rest) ∧ c.shardOf proxy.1 = shard) := by
  have hgo : (s.refresh c 0).isSome → ∃ e t, Step c s e t := fun h =>
    ⟨(0, .refresh), Option.isSome_iff_exists.mp h⟩
  have hget {step : FillStep} {proxy : String × String} {rest : List (String × String)}
      (h : s.refresher = .queue step proxy rest) : ∃ q, s.connections.get proxy.1 = some q :=
    FinMap.mem_iff.mp (hs.present.2 step proxy rest h)
  rw [status_refresher] at hr
  cases hstep : s.refresher with
  | start => rw [hstep] at hr; contradiction
  | done => rw [hstep] at hr; contradiction
  | retain shard =>
    by_cases hshard : shard < c.shards
    · by_cases hfree : s.ShardFree c ⟨shard, hshard⟩
      · exact .inl (hgo (by simp [refresh, hstep, hshard, hfree]))
      · exact .inr ⟨⟨shard, hshard⟩, hfree, .inl rfl⟩
    · exact .inl (hgo (by simp [refresh, hstep, hshard]))
  | entry rest =>
    cases rest with
    | nil => exact .inl (hgo (by simp [refresh, hstep]))
    | cons proxy rest =>
      by_cases hfree : s.ShardFree c (c.shardOf proxy.1)
      · exact .inl (hgo (by simp [refresh, hstep, hfree]))
      · exact .inr ⟨_, hfree, .inr ⟨proxy, rest, rfl, rfl⟩⟩
  | queue step proxy rest =>
    obtain ⟨q, hq⟩ := hget hstep
    refine .inl (hgo ?_)
    rw [hstep] at hr
    cases step with
    | lock => simp [refresh, hstep, hq]
    | locked => simp [refresh, hstep]
    | fill => simp [refresh, hstep, hq]
    | resumed stream => cases stream <;> simp [refresh, hstep]
    | waiting => contradiction
    | connecting => contradiction
    | connected stream => contradiction

omit [DecidableEq ι] in
/-- Among tasks without a worker, whoever waits for a mutex waits for one that has been handed to
a waiting task, or for one that `refresh` keeps. -/
theorem exists_turn (hs : s.Inv c) (hidle : ∀ i, ¬ ((s.sched c).status (some i)).isActive)
    {task : Option ι} {key : String} (h : (s.sched c).status task = .waiting key) :
    (∃ u, (s.mutexAt key).holder = some u ∧ (s.sched c).status u = .waiting key) ∨
      ((s.sched c).status none).held = some key := by
  obtain ⟨u, hholder, hwait | hheld⟩ := hs.locked.exists_holder h
  · exact .inl ⟨u, hholder, hwait⟩
  · cases u with
    | none => exact .inr hheld
    | some j =>
      obtain ⟨-, hj | ⟨-, hactive⟩⟩ := takes_of_wants (c := c) (.inr hheld)
      · rw [status_take, hj] at hheld
        contradiction
      · exact absurd hactive (hidle j)

/-- Where every worker is free, some task that has not finished can have one. -/
theorem idle_step (hs : s.Inv c) (hidle : ∀ i, ¬ ((s.sched c).status (some i)).isActive)
    (hr : ¬ ((s.sched c).status none).isActive) (hw : (s.sched c).busy < c.workers)
    (hnot : ¬ s.Finished) : ∃ e t, Step c s e t := by
  have hstatus {step : RefreshStep} (h : s.refresher = step) :
      (s.sched c).status none = step.status := congrArg RefreshStep.status h
  cases hstep : s.refresher with
  | start => exact dispatch_step (hstatus hstep) hw
  | retain shard => exact absurd (by rw [hstatus hstep]; rfl) hr
  | entry rest => exact absurd (by rw [hstatus hstep]; rfl) hr
  | queue step proxy rest =>
    have hqueue := hstatus hstep
    cases step with
    | waiting =>
      obtain ⟨u, hturn, hu⟩ | hheld := exists_turn hs hidle hqueue
      · exact resume_step hu hturn hw
      · rw [hqueue] at hheld
        contradiction
    | connecting =>
      refine ⟨(0, .connected none), Option.isSome_iff_exists.mp ?_⟩
      simp [apply, hstep]
    | connected stream => exact dispatch_step hqueue hw
    | _ => exact absurd (by rw [hqueue]; rfl) hr
  | done =>
    have hwait : ∃ i, ∀ stream, s.takes i ≠ .done stream := by
      by_contra hall
      push Not at hall
      exact hnot ⟨hall, hstep⟩
    obtain ⟨i, hi⟩ := hwait
    cases htake : s.takes i with
    | start =>
      have hready : (s.sched c).status (some i) = .ready none := by
        rw [status_take, htake]
        rfl
      exact dispatch_step hready hw
    | waiting =>
      have hqueue : (s.sched c).status (some i) = .waiting (c.proxyKey i) := by
        rw [status_take, htake]
        rfl
      obtain ⟨u, hturn, hu⟩ | hheld := exists_turn hs hidle hqueue
      · exact resume_step hu hturn hw
      · rw [hstatus hstep] at hheld
        contradiction
    | done stream => exact absurd htake (hi stream)
    | _ => exact absurd (by rw [status_take, htake]; rfl) (hidle i)

/-- As long as a task has not finished, some task can do a step. -/
theorem progress (hs : s.Inv c) (hp : c.workers = 1 → ∃ passed, s.Passed c passed)
    (hc : 2 ≤ c.workers ∨ c.maxPerProxy = 0 ∨ c.ShardsApart) (hnot : ¬ s.Finished) :
    ∃ e t, Step c s e t := by
  by_cases hidle : ∀ i, ¬ ((s.sched c).status (some i)).isActive
  case neg =>
    push Not at hidle
    obtain ⟨i, hi⟩ := hidle
    exact take_step hs hi
  have hpos := c.workers_pos
  by_cases hactive : ((s.sched c).status none).isActive
  · obtain hstep | ⟨shard, hfree, hr⟩ := refresh_step hs hactive
    · exact hstep
    have honly : (s.sched c).busy ≤ 1 := Sched.busy_le_one (t := none) fun u hu => by
      cases u with
      | none => rfl
      | some i => exact absurd hu (hidle i)
    by_cases hw : c.workers = 1
    · -- the call that keeps the shard waits for a queue that `refresh` has left
      obtain ⟨passed, hp⟩ := hp hw
      have hapart : c.maxPerProxy = 0 ∨ c.ShardsApart := hc.resolve_left (by omega)
      exact absurd (shardFree_of_apart hidle hp hapart hr) hfree
    · simp only [ShardFree, not_forall] at hfree
      obtain ⟨i, hi, -⟩ := hfree
      have hwait : (s.sched c).status (some i) = .waiting (c.proxyKey i) := by
        rw [status_take, takes_eq_waiting (hidle i) hi]
        rfl
      obtain ⟨u, hturn, hu⟩ | hheld := exists_turn hs hidle hwait
      · exact resume_step hu hturn (by omega)
      · rw [status_refresher] at hheld
        rcases hr with hr | ⟨proxy, rest, hr, -⟩ <;> rw [hr] at hheld <;> contradiction
  · have hzero : (s.sched c).busy = 0 := Sched.busy_eq_zero fun u => by
      cases u with
      | none => exact hactive
      | some i => exact hidle i
    exact idle_step hs hidle hactive (by omega) hnot

end WarmPool

end VpnGateway
