import VpnGateway.Pool.Persistence
import VpnGateway.Pool.Revalidation

/-! Which dead proxies a full refresh retires: its cleanup goes by the time of the last attempt,
and every failed attempt writes that time. -/
namespace VpnGateway

/-- Whether health-check rounds, client connections or source refreshes run the operation. -/
def Op.isRoutine : Op → Bool
  | .addVerified _ => false
  | .addProxy _ => false
  | .banProxy _ => false
  | .unbanProxy _ => false
  | .reloadConfig _ _ => false
  | _ => true

/-- The pool, and when the record under each key failed its first health check. -/
structure Aging where
  pool : SharedState
  firstFail : String → Option DateTime

/-- A routine operation inserts under no key that is present. -/
theorem SharedState.notMem_of_inserts {s : SharedState} {p : Proxy} {op : Op}
    (hroutine : op.isRoutine = true) (h : s.Inserts p op) : p.key ∉ s.proxies := by
  cases op with
  | insertIfAbsent proxy => exact h.2.2
  | addVerified proxy => cases hroutine
  | addProxy payload => cases hroutine
  | _ => exact False.elim h

theorem Update.isSome_lastCheck {p : Proxy} (h : p.lastCheck.isSome = true) (u : Update)
    (now : Clock) : (u.apply p now).lastCheck.isSome = true := by
  cases u with
  | recordSuccess latencyMs => rfl
  | recordFail => rw [Update.apply, lastCheck_recordFail, Option.isSome_some]
  | _ => exact h

namespace Aging

def start (stickyTtlSecs : UInt64) (maxProxies : ℕ) (excludeCountries : List String) : Aging :=
  ⟨.withConfig stickyTtlSecs maxProxies excludeCountries, fun _ => none⟩

/-- The first failed checks after an operation that leads to the pool `t`. -/
def noteCheck (a : Aging) (e : Traffic) (t : SharedState) (k : String) : Option DateTime :=
  if k ∈ t.proxies then
    match e.event.op with
    | .recordFail key =>
      if e.byCheck = true ∧ key = k then (a.firstFail k).or (some e.event.now.utc)
      else a.firstFail k
    | _ => a.firstFail k
  else none

def Step (a : Aging) (e : Traffic) (b : Aging) : Prop :=
  e.event.op.isRoutine = true ∧ a.pool.Step e.event b.pool ∧ b.firstFail = a.noteCheck e b.pool

/-- The pool holds a record that has never succeeded and has failed its checks for more than a
day. -/
def Overdue (a : Aging) (now : Clock) (k : String) : Prop :=
  ∃ p first, a.pool.proxies.get k = some p ∧ p.successCount = 0 ∧ a.firstFail k = some first ∧
    fromSecs 86400 < now.utc - first

/-- At a cleanup no attempt on an overdue record is younger than a day. -/
def Rested (a : Aging) (e : Traffic) : Prop :=
  e.event.op = .cleanupStale → ∀ k p, a.Overdue e.event.now k → a.pool.proxies.get k = some p →
    ∀ checked, p.lastCheck = some checked → fromSecs 86400 ≤ e.event.now.utc - checked

/-- A record that has failed a check carries the time of an attempt. -/
def Tracked (a : Aging) : Prop :=
  ∀ k first, a.firstFail k = some first →
    ∃ p, a.pool.proxies.get k = some p ∧ p.lastCheck.isSome = true

theorem tracked_start (ttl : UInt64) (maxProxies : ℕ) (countries : List String) :
    (start ttl maxProxies countries).Tracked := nofun

variable {a b : Aging} {e : Traffic}

theorem noteCheck_eq_some {t : SharedState} {k : String} {first : DateTime}
    (h : a.noteCheck e t k = some first) : k ∈ t.proxies ∧
      (a.firstFail k = some first ∨ a.firstFail k = none ∧ e.event.op = .recordFail k) := by
  obtain ⟨hin, hnote⟩ := Option.ite_none_right_eq_some.mp h
  refine ⟨hin, ?_⟩
  cases hold : a.firstFail k with
  | some since =>
    left
    split at hnote
    · split_ifs at hnote
      · rwa [hold, Option.some_or] at hnote
      · rwa [hold] at hnote
    · rwa [hold] at hnote
  | none =>
    right
    refine ⟨rfl, ?_⟩
    split at hnote
    next key hop =>
      split_ifs at hnote with hkey
      · rw [hop, hkey.2]
      · rw [hold] at hnote
        cases hnote
    next =>
      rw [hold] at hnote
      cases hnote

/-- Where a record is kept by a routine operation, so is the time of an attempt on it. -/
theorem Step.lastCheck_kept (h : a.Step e b) {k : String} {p p' : Proxy}
    (hp : a.pool.proxies.get k = some p) (hc : p.lastCheck.isSome = true)
    (hp' : b.pool.proxies.get k = some p') : p'.lastCheck.isSome = true := by
  obtain ⟨hroutine, hstep, -⟩ := h
  cases hstep.effect with
  | kept hproxies _ _ =>
    obtain ⟨q, hq, hor⟩ := hproxies k p' hp'
    obtain rfl := Option.some.inj (hp.symm.trans hq)
    rcases hor with rfl | ⟨u, -, rfl⟩
    · exact hc
    · exact u.isSome_lastCheck hc _
  | inserted q hop hproxies _ =>
    have hnew := SharedState.notMem_of_inserts hroutine hop
    have hne : k ≠ q.key := fun hk => hnew (hk ▸ FinMap.mem_of_get hp)
    rw [hproxies, FinMap.get_insert_of_ne _ _ hne, hp] at hp'
    rwa [← Option.some.inj hp']
  | ban _ _ hop _ _ _ =>
    rw [hop] at hroutine
    cases hroutine
  | unban _ _ hop _ _ _ _ =>
    rw [hop] at hroutine
    cases hroutine

theorem Tracked.step (ha : a.Tracked) (h : a.Step e b) : b.Tracked := by
  intro k first hk
  rw [h.2.2] at hk
  obtain ⟨hin, hnote⟩ := noteCheck_eq_some hk
  obtain ⟨p', hp'⟩ := FinMap.mem_iff.mp hin
  refine ⟨p', hp', ?_⟩
  rcases hnote with hold | ⟨-, hop⟩
  · obtain ⟨p, hp, hc⟩ := ha k first hold
    exact h.lastCheck_kept hp hc hp'
  · have hmodify := h.2.1.proxies_of_update (k := k) (u := .recordFail) (by rw [hop]; rfl)
    rw [hmodify, FinMap.get_modify, if_pos rfl] at hp'
    obtain ⟨p, -, rfl⟩ := Option.map_eq_some_iff.mp hp'
    show (p.recordFail e.event.now).lastCheck.isSome = true
    rw [lastCheck_recordFail, Option.isSome_some]

/-- What a cleanup keeps of the records that have never succeeded. -/
theorem keepsStale_iff {now : Clock} {p : Proxy} {checked : DateTime} (hp : p.successCount = 0)
    (hc : p.lastCheck = some checked) :
    SharedState.keepsStale now p = true ↔ now.utc - checked < fromSecs 86400 := by
  unfold SharedState.keepsStale
  rw [hp, hc, if_neg (lt_irrefl 0), decide_eq_true_iff, numHours_lt (by norm_num)]
  rfl

/-- A cleanup leaves no overdue record exactly when none of them was tried within the day. -/
theorem Step.retires_iff (ha : a.Tracked) (h : a.Step e b) (hop : e.event.op = .cleanupStale) :
    (∀ k, ¬b.Overdue e.event.now k) ↔ a.Rested e := by
  obtain ⟨-, hstep, hfirst⟩ := h
  have hpool : b.pool.proxies = a.pool.proxies.retain (SharedState.keepsStale e.event.now) := by
    unfold SharedState.Step at hstep
    rw [hop] at hstep
    rw [← (Prod.mk.inj (Option.some.inj hstep)).2]
    rfl
  have hnote : ∀ k, k ∈ b.pool.proxies → b.firstFail k = a.firstFail k := by
    intro k hk
    rw [hfirst, noteCheck, if_pos hk, hop]
  constructor
  · intro hnone _ k p hover hp checked hc
    by_contra hyoung
    obtain ⟨q, first, hq, hzero, hsince, hspan⟩ := hover
    obtain rfl := Option.some.inj (hp.symm.trans hq)
    have hkept : b.pool.proxies.get k = some p := by
      rw [hpool, FinMap.get_retain_some]
      exact ⟨hp, (keepsStale_iff hzero hc).mpr (not_le.mp hyoung)⟩
    exact hnone k ⟨p, first, hkept, hzero, (hnote k (FinMap.mem_of_get hkept)).trans hsince, hspan⟩
  · rintro hrested k ⟨p, first, hp, hzero, hsince, hspan⟩
    rw [hnote k (FinMap.mem_of_get hp)] at hsince
    rw [hpool, FinMap.get_retain_some] at hp
    obtain ⟨q, hq, hchecked⟩ := ha k first hsince
    obtain rfl := Option.some.inj (hp.1.symm.trans hq)
    obtain ⟨checked, hc⟩ := Option.isSome_iff_exists.mp hchecked
    have hage := hrested hop k p ⟨p, first, hp.1, hzero, hsince, hspan⟩ hp.1 checked hc
    exact absurd ((keepsStale_iff hzero hc).mp hp.2) (not_lt.mpr hage)

theorem Step.unique (a : Aging) (e : Traffic) (b c : Aging) (h : a.Step e b) (h' : a.Step e c) :
    b = c := by
  obtain ⟨-, hpool, hfirst⟩ := h
  obtain ⟨-, hpool', hfirst'⟩ := h'
  have heq : b.pool = c.pool := (Prod.mk.inj (Option.some.inj (hpool.symm.trans hpool'))).2
  cases b
  cases c
  simp only at heq hfirst hfirst'
  rw [hfirst, hfirst', heq]

/-- Over a whole run, every full refresh retires the proxies that have never worked and have failed
their checks for more than a day, exactly when no refresh meets one that was tried within the
day. -/
theorem dead_retired_iff (ttl : UInt64) (maxProxies : ℕ) (countries : List String)
    {es : List Traffic} {a : Aging} (h : Runs.Run Step (start ttl maxProxies countries) es a) :
    (∀ before e after b, es = before ++ e :: after →
        Runs.Run Step (start ttl maxProxies countries) (before ++ [e]) b →
        e.event.op = .cleanupStale → ∀ k, ¬b.Overdue e.event.now k) ↔
      ∀ before e after b, es = before ++ e :: after →
        Runs.Run Step (start ttl maxProxies countries) before b → b.Rested e := by
  have htracked : ∀ before b, Runs.Run Step (start ttl maxProxies countries) before b →
      b.Tracked := fun before b hb =>
    hb.invariant (fun _ _ _ ha hstep => ha.step hstep) (tracked_start ttl maxProxies countries)
  constructor
  · intro hall before e after b hes hb hop
    obtain ⟨m, hm, hrest⟩ := Runs.run_append.mp (hes ▸ h)
    obtain rfl := hm.unique Step.unique hb
    cases hrest with
    | cons head _ =>
      exact (head.retires_iff (htracked before m hm) hop).mp
        (hall before e after _ hes (hm.snoc head) hop) hop
  · intro hall before e after b hes hb hop
    obtain ⟨m, hm, hlast⟩ := Runs.run_append.mp hb
    cases hlast with
    | cons head tail =>
      cases tail
      exact (head.retires_iff (htracked before m hm) hop).mpr (hall before e after m hes hm)

/-! A pool for one proxy, which is dead and is checked once an hour. -/

def hours (n : ℕ) : Clock := ⟨fromSecs (3600 * n), fromSecs (3600 * n)⟩

def hourly : ℕ → Proxy
  | 0 => .new "1.2.3.4" 8080 .http
  | n + 1 => (hourly n).recordFail (hours n)

def hourlyPool : ℕ → SharedState
  | 0 => ((SharedState.withConfig 300 1 []).insertIfAbsent (hourly 0)).2
  | n + 1 => (hourlyPool n).recordFail (hours n) "1.2.3.4:8080"

def hourlyCheck (n : ℕ) : Traffic := ⟨true, ⟨hours n, .recordFail "1.2.3.4:8080", none⟩⟩

def hourlyEvents (n : ℕ) : List Traffic :=
  ⟨false, ⟨hours 0, .insertIfAbsent (hourly 0), none⟩⟩ :: (List.range n).map hourlyCheck

def refreshAt (n : ℕ) : Traffic := ⟨false, ⟨hours n, .cleanupStale, none⟩⟩

def hourlyAging (n : ℕ) : Aging :=
  ⟨hourlyPool n, fun k => if k = "1.2.3.4:8080" ∧ 0 < n then some 0 else none⟩

theorem get_hourlyPool (n : ℕ) : (hourlyPool n).proxies.get "1.2.3.4:8080" = some (hourly n) := by
  induction n with
  | zero => rfl
  | succ n ih =>
    show ((hourlyPool n).proxies.modify _ _).get _ = _
    rw [FinMap.get_modify, if_pos rfl, ih, Option.map_some]
    rfl

theorem mem_hourlyPool {n : ℕ} {k : String} :
    k ∈ (hourlyPool n).proxies ↔ k = "1.2.3.4:8080" := by
  induction n with
  | zero =>
    show k ∈ (FinMap.empty.insert "1.2.3.4:8080" (hourly 0)) ↔ _
    simp
  | succ n ih => exact FinMap.mem_modify.trans ih

theorem maxProxies_hourlyPool (n : ℕ) : (hourlyPool n).maxProxies = 1 := by
  induction n with
  | zero => rfl
  | succ n ih => exact ih

theorem step_hourly (n : ℕ) : (hourlyAging n).Step (hourlyCheck n) (hourlyAging (n + 1)) := by
  refine ⟨rfl, rfl, funext fun k => ?_⟩
  have hin : k ∈ (hourlyAging (n + 1)).pool.proxies ↔ k = "1.2.3.4:8080" := mem_hourlyPool
  simp only [noteCheck, hin, hourlyCheck]
  by_cases hk : k = "1.2.3.4:8080"
  · subst hk
    cases n with
    | zero => rfl
    | succ n => simp [hourlyAging]
  · simp [hourlyAging, hk]

theorem step_inserted : (start 300 1 []).Step
    ⟨false, ⟨hours 0, .insertIfAbsent (hourly 0), none⟩⟩ (hourlyAging 0) := by
  refine ⟨rfl, rfl, funext fun k => ?_⟩
  simp [noteCheck, hourlyAging, start]

/-- After `n` checks and a full refresh at hour `m`. -/
def refreshed (n m : ℕ) : Aging :=
  ⟨(hourlyPool n).cleanupStale (hours m),
    (hourlyAging n).noteCheck (refreshAt m) ((hourlyPool n).cleanupStale (hours m))⟩

theorem step_refresh (n m : ℕ) : (hourlyAging n).Step (refreshAt m) (refreshed n m) :=
  ⟨rfl, rfl, rfl⟩

theorem run_hourly (n : ℕ) :
    Runs.Run Step (start 300 1 []) (hourlyEvents n) (hourlyAging n) := by
  induction n with
  | zero => exact .single step_inserted
  | succ n ih =>
    have hevents : hourlyEvents (n + 1) = hourlyEvents n ++ [hourlyCheck n] := by
      rw [hourlyEvents, List.range_succ, List.map_append, List.map_singleton, hourlyEvents,
        List.cons_append]
    rw [hevents]
    exact ih.snoc (step_hourly n)

theorem disableSecs_le {n d : ℕ} (h : Proxy.disableSecs n = some d) : d ≤ 3600 := by
  unfold Proxy.disableSecs at h
  split_ifs at h <;> simp only [Option.some.injEq] at h <;> omega

/-- The proxy has never succeeded, and its breaker has expired by the next hour. -/
theorem hourly_spec (n : ℕ) : (hourly n).successCount = 0 ∧
    ((hourly n).status = some .unchecked ∨ (hourly n).status = some .failed) ∧
    (hourly n).isAvailable (hours n) = true := by
  induction n with
  | zero => exact ⟨rfl, Or.inl rfl, rfl⟩
  | succ n ih =>
    obtain ⟨hzero, hst, havail⟩ := ih
    have hle : (hours n).instant ≤ (hours (n + 1)).instant := by
      show 3600 * n * 1000000000 ≤ 3600 * (n + 1) * 1000000000
      omega
    have hlater := Proxy.isAvailable_mono havail hle
    rcases (hourly n).recordFail_cases (hours n) rfl with
      ⟨-, hp⟩ | ⟨d, -, hd, -, -, hp⟩ | ⟨-, hp⟩
    · rw [hourly, hp]
      exact ⟨hzero, hst, hlater⟩
    · rw [hourly, hp]
      refine ⟨hzero, Or.inr rfl, Proxy.isAvailable_iff.mpr fun deadline hdl => ?_⟩
      have hd' := disableSecs_le hd
      rw [← Option.some.inj hdl]
      show 3600 * n * 1000000000 + d * 1000000000 ≤ 3600 * (n + 1) * 1000000000
      omega
    · rw [hourly, hp]
      exact ⟨hzero, Or.inr rfl, hlater⟩

/-- So the health check takes it up again every hour. -/
theorem needsCheck_hourly (n : ℕ) : SharedState.needsCheck (hours n) (hourly n) = true := by
  obtain ⟨-, hst, havail⟩ := hourly_spec n
  rcases hst with hst | hst
  · simp [SharedState.needsCheck, hst]
  · simp [SharedState.needsCheck, hst, havail]

/-- A full refresh at hour `m` keeps the proxy exactly if its last check was less than a day
before. -/
theorem get_refreshed (n m : ℕ) : (refreshed (n + 1) m).pool.proxies.get "1.2.3.4:8080" =
    some (hourly (n + 1)) ↔ (hours m).utc - (hours n).utc < fromSecs 86400 := by
  have hpast : (hourly (n + 1)).lastCheck = some (hours n).utc := lastCheck_recordFail _ _
  rw [← keepsStale_iff (hourly_spec (n + 1)).1 hpast]
  exact FinMap.get_retain_some.trans (and_iff_right (get_hourlyPool (n + 1)))

/-- A proxy that failed its only check and was left alone for a day is retired. -/
theorem dead_retired_after_rest : ∃ b,
    Runs.Run Step (start 300 1 []) (hourlyEvents 1 ++ [refreshAt 25]) b ∧
      ∀ k, ¬b.Overdue (hours 25) k := by
  have hrested : (hourlyAging 1).Rested (refreshAt 25) := by
    intro _ k p _ hp checked hc
    obtain rfl := mem_hourlyPool.mp (FinMap.mem_of_get hp)
    obtain rfl := Option.some.inj ((get_hourlyPool 1).symm.trans hp)
    obtain rfl : (hours 0).utc = checked :=
      Option.some.inj ((lastCheck_recordFail (hourly 0) (hours 0)).symm.trans hc)
    norm_num [refreshAt, hours, fromSecs]
  have hguarded : Runs.Run (Runs.Guarded Step Rested) (start 300 1 [])
      (hourlyEvents 1 ++ [refreshAt 25]) (refreshed 1 25) :=
    .cons ⟨nofun, step_inserted⟩ (.cons ⟨nofun, step_hourly 0⟩
      (.single ⟨hrested, step_refresh 1 25⟩))
  have hrun := hguarded.unguarded
  exact ⟨_, hrun, (dead_retired_iff 300 1 [] hrun).mpr
    (fun _ _ _ _ => hguarded.guard Step.unique) _ (refreshAt 25) [] _ rfl hrun rfl⟩

/-- However long the hourly checks have failed, the refresh an hour after the last one keeps the
proxy, and the pool takes no other. -/
theorem hourly_kept {n : ℕ} (hn : 24 ≤ n) :
    (refreshed (n + 1) (n + 1)).Overdue (hours (n + 1)) "1.2.3.4:8080" ∧
      ∀ p, ((refreshed (n + 1) (n + 1)).pool.insertIfAbsent p).1 = false := by
  have hutc : ∀ n, (hours n).utc = 3600 * n * 1000000000 := fun n => by simp [hours, fromSecs]
  have hage : (hours (n + 1)).utc - (hours n).utc < fromSecs 86400 := by
    rw [hutc, hutc, fromSecs]
    push_cast
    linarith
  have hspan : (fromSecs 86400 : ℤ) < (hours (n + 1)).utc - 0 := by
    have hn' : (24 : ℤ) ≤ n := by exact_mod_cast hn
    rw [hutc, fromSecs]
    push_cast
    linarith
  have hkept := (get_refreshed n (n + 1)).mpr hage
  have hin := FinMap.mem_of_get hkept
  have hmax : (refreshed (n + 1) (n + 1)).pool.maxProxies = 1 := maxProxies_hourlyPool (n + 1)
  have hfull : (refreshed (n + 1) (n + 1)).pool.IsFull := by
    rw [SharedState.IsFull, hmax]
    exact ⟨Nat.one_pos, Finset.card_pos.mpr ⟨_, hin⟩⟩
  have hold : (hourlyAging (n + 1)).firstFail "1.2.3.4:8080" = some 0 := by simp [hourlyAging]
  have hfirst : (refreshed (n + 1) (n + 1)).firstFail "1.2.3.4:8080" = some 0 :=
    (if_pos hin).trans hold
  refine ⟨⟨hourly (n + 1), 0, hkept, (hourly_spec (n + 1)).1, hfirst, hspan⟩, fun p => ?_⟩
  rw [SharedState.insertIfAbsent, if_pos hfull]

/-- A proxy that fails a check every hour is still there after more than a day, although every one
of the checks was due; it fills the pool, which takes no other proxy. -/
theorem dead_kept : ∃ a b,
    Runs.Run Step (start 300 1 []) (hourlyEvents 26) a ∧
    (∀ i < 26, ∃ p, (hourlyPool i).proxies.get "1.2.3.4:8080" = some p ∧
      SharedState.needsCheck (hours i) p = true) ∧
    Step a (refreshAt 26) b ∧ b.Overdue (hours 26) "1.2.3.4:8080" ∧
    ∀ p, (b.pool.insertIfAbsent p).1 = false :=
  ⟨hourlyAging 26, refreshed 26 26, run_hourly 26,
    fun i _ => ⟨hourly i, get_hourlyPool i, needsCheck_hourly i⟩, step_refresh 26 26,
    hourly_kept (n := 25) (by norm_num)⟩

end Aging

end VpnGateway
