import VpnGateway.Pool.Operations

/-! The circuit breaker over whole runs of a record: its status, its failure counter and its
deadline agree, and how long failures lock a proxy out. -/
namespace VpnGateway

namespace Proxy

/-- The record after one update. -/
def Step (p : Proxy) (a : Clock × Update) (q : Proxy) : Prop := q = a.2.apply p a.1

/-- The failure counter does not wrap around. -/
def NoWrap (p : Proxy) (a : Clock × Update) : Prop :=
  a.2 = .recordFail → p.consecutiveFails.toNat + 1 < 2 ^ 32

/-- Some run of updates leads from a new record to this one. -/
def Reached (p : Proxy) : Prop :=
  ∃ host port protocol es, Runs.Run (Runs.Guarded Step NoWrap) (new host port protocol) es p

structure BreakerInv (p : Proxy) : Prop where
  opened : ∀ deadline, p.circuitOpenUntil = some deadline →
    p.status = some .failed ∧ 5 ≤ p.consecutiveFails.toNat
  alive : p.status = some .verified ∨ p.status = some .presumedAlive →
    p.circuitOpenUntil = none ∧ p.consecutiveFails.toNat ≤ 4
  failed : p.status = some .failed → 5 ≤ p.consecutiveFails.toNat

theorem toNat_consecutiveFails_add_one {p : Proxy} (h : p.consecutiveFails.toNat + 1 < 2 ^ 32) :
    (p.consecutiveFails + 1).toNat = p.consecutiveFails.toNat + 1 := by
  rw [UInt32.toNat_add, UInt32.toNat_one, Nat.mod_eq_of_lt h]

theorem breakerInv_new (host : String) (port : UInt16) (protocol : Protocol) :
    (new host port protocol).BreakerInv := ⟨by simp [new], by simp [new], by simp [new]⟩

theorem BreakerInv.recordFail {p : Proxy} (h : p.BreakerInv) (now : Clock)
    (hwrap : p.consecutiveFails.toNat + 1 < 2 ^ 32) : (p.recordFail now).BreakerInv := by
  have hn := toNat_consecutiveFails_add_one hwrap
  rcases p.recordFail_cases now hn with ⟨h4, hp⟩ | ⟨d, _, _, h5, _, hp⟩ | ⟨h50, hp⟩
  · -- below the first tier the breaker was closed and stays so
    rw [hp]
    refine ⟨fun d hd => ?_, fun hst => ?_, fun hst => ?_⟩
    · have := (h.opened d hd).2
      omega
    · exact ⟨(h.alive hst).1, by rw [countFail, hn]; exact h4⟩
    · have := h.failed hst
      omega
  · rw [hp]
    exact ⟨fun _ _ => ⟨rfl, by rw [countFail, hn]; exact h5⟩, by simp, fun _ => by
      rw [countFail, hn]; exact h5⟩
  · rw [hp]
    have h5 : 5 ≤ (p.consecutiveFails + 1).toNat := by omega
    exact ⟨fun _ _ => ⟨rfl, h5⟩, by simp, fun _ => h5⟩

theorem BreakerInv.step {p q : Proxy} {a : Clock × Update} (h : p.BreakerInv) (hs : p.Step a q)
    (hw : p.NoWrap a) : q.BreakerInv := by
  obtain ⟨now, u⟩ := a
  subst hs
  cases u with
  | recordSuccess latencyMs => exact ⟨by simp [Update.apply, recordSuccess], fun _ => ⟨rfl, by
      simp [Update.apply, recordSuccess]⟩, by simp [Update.apply, recordSuccess]⟩
  | recordFail => exact h.recordFail now (hw rfl)
  | markPresumedAlive => exact ⟨by simp [Update.apply, markPresumedAlive], fun _ => ⟨rfl, by
      simp [Update.apply, markPresumedAlive]⟩, by simp [Update.apply, markPresumedAlive]⟩
  | setTlsClean clean => exact ⟨h.opened, h.alive, h.failed⟩
  | setCountry country => exact ⟨h.opened, h.alive, h.failed⟩
  | reload => exact ⟨by simp [Update.apply, reloaded], by simp [Update.apply, reloaded],
      by simp [Update.apply, reloaded]⟩

theorem Reached.breakerInv {p : Proxy} (h : p.Reached) : p.BreakerInv := by
  obtain ⟨host, port, protocol, es, hrun⟩ := h
  exact hrun.invariant (fun _ _ _ hi hs => hi.step hs.2 hs.1) (breakerInv_new host port protocol)

theorem Reached.new (host : String) (port : UInt16) (protocol : Protocol) :
    (Proxy.new host port protocol).Reached := ⟨host, port, protocol, [], .nil _⟩

theorem Reached.update {p : Proxy} (h : p.Reached) {a : Clock × Update} (hw : p.NoWrap a) :
    (a.2.apply p a.1).Reached := by
  obtain ⟨host, port, protocol, es, hrun⟩ := h
  exact ⟨host, port, protocol, es ++ [a], hrun.snoc ⟨hw, rfl⟩⟩

/-- A saved record comes back as a reached one, whether or not it is presumed alive. -/
theorem Reached.reloaded {p : Proxy} (h : p.Reached) :
    p.reloaded.Reached ∧ p.reloaded.markPresumedAlive.Reached := by
  have hreload : p.reloaded.Reached := h.update (a := (⟨0, 0⟩, .reload)) nofun
  exact ⟨hreload, hreload.update (a := (⟨0, 0⟩, .markPresumedAlive)) nofun⟩

/-- The health check looks at the breaker of failed records only; the others have none open. -/
theorem BreakerInv.isAvailable_of_needsCheck {p : Proxy} (h : p.BreakerInv) {now : Clock}
    (hc : SharedState.needsCheck now p) : p.isAvailable now := by
  cases hopen : p.circuitOpenUntil with
  | none => exact isAvailable_of_closed hopen now
  | some deadline =>
    have hst := (h.opened deadline hopen).1
    simpa [SharedState.needsCheck, hst] using hc

end Proxy

namespace SharedState

/-- The records of the pool and of the ban list each have a history of updates. -/
structure RecordsReached (s : SharedState) : Prop where
  live : ∀ k p, s.proxies.get k = some p → p.Reached
  banned : ∀ k p, s.banned.get k = some p → p.Reached

/-- The operation brings in reached records only and wraps no failure counter. -/
def Admits (s : SharedState) (e : Event) : Prop :=
  (∀ p, s.Inserts p e.op → p.Reached) ∧
    ∀ k u p, e.op.update = some (k, u) → s.proxies.get k = some p → p.NoWrap (e.now, u)

theorem recordsReached_withConfig (ttl : UInt64) (maxProxies : ℕ) (countries : List String) :
    (withConfig ttl maxProxies countries).RecordsReached :=
  ⟨by simp [withConfig], by simp [withConfig]⟩

theorem RecordsReached.step {s t : SharedState} {e : Event} (h : s.RecordsReached)
    (hs : s.Step e t) (hg : s.Admits e) : t.RecordsReached := by
  have hupdate : ∀ k u p, e.op.update = some (k, u) → s.proxies.get k = some p → p.Reached →
      (u.apply p e.now).Reached := fun k u p hu hp hr => hr.update (hg.2 k u p hu hp)
  obtain ⟨hlive, hbanned⟩ := hs.forall_records hupdate hg.1 (fun _ _ => id) h.live h.banned
  exact ⟨hlive, hbanned⟩

/-- In every state of the gateway a health check's batch holds available proxies only. -/
theorem batch_available {ttl : UInt64} {maxProxies : ℕ} {countries : List String}
    {es : List Event} {s : SharedState}
    (hrun : Runs.Run (Runs.Guarded Step Admits) (withConfig ttl maxProxies countries) es s)
    (it : s.proxies.Iteration) (now : Clock) (limit : ℕ) :
    ∀ p ∈ s.proxiesNeedingCheck it now limit, p.isAvailable now := by
  intro p hp
  have hreached := hrun.invariant (fun _ _ _ hi hs => hi.step hs.2 hs.1)
    (recordsReached_withConfig ttl maxProxies countries)
  obtain ⟨⟨k, hk⟩, hc⟩ := mem_proxiesNeedingCheck hp
  exact (hreached.live k p hk).breakerInv.isAvailable_of_needsCheck hc

end SharedState

/-- Status, counter and deadline agree in every record that a run of updates reaches, so the
health check's batch holds no proxy whose breaker is open. -/
theorem breaker_consistent :
    (∀ p : Proxy, p.Reached → p.BreakerInv) ∧
    ∀ (s : SharedState) (it : s.proxies.Iteration) (now : Clock) (limit : ℕ),
      (∀ k p, s.proxies.get k = some p → p.Reached) →
      ∀ p ∈ s.proxiesNeedingCheck it now limit, p.isAvailable now := by
  refine ⟨fun p hp => hp.breakerInv, fun s it now limit hs p hp => ?_⟩
  obtain ⟨⟨k, hk⟩, hc⟩ := SharedState.mem_proxiesNeedingCheck hp
  exact (hs k p hk).breakerInv.isAvailable_of_needsCheck hc

namespace Proxy

/-- A new proxy after `n` failures at time zero. -/
def failing : ℕ → Proxy
  | 0 => .new "1.2.3.4" 8080 .http
  | n + 1 => (failing n).recordFail ⟨0, 0⟩

theorem toNat_consecutiveFails_failing {n : ℕ} (h : n < 2 ^ 32) :
    (failing n).consecutiveFails.toNat = n := by
  induction n with
  | zero => rfl
  | succ n ih =>
    have hn := ih (by omega)
    rw [failing, consecutiveFails_recordFail, toNat_consecutiveFails_add_one (by omega), hn]

theorem failing_reached {n : ℕ} (h : n < 2 ^ 32) : (failing n).Reached := by
  induction n with
  | zero => exact Reached.new _ _ _
  | succ n ih =>
    have hwrap : (failing n).NoWrap (⟨0, 0⟩, .recordFail) := fun _ => by
      rwa [toNat_consecutiveFails_failing (by omega)]
    exact (ih (by omega)).update hwrap

end Proxy

/-- A pool that holds a proxy with five failures: its record is consistent, and no batch takes
it up while its breaker is open. -/
theorem breaker_consistent_failing :
    (Proxy.failing 5).BreakerInv ∧
    ∀ it now limit, ∀ p ∈ SharedState.proxiesNeedingCheck
      ((SharedState.withConfig 300 5000 []).insertIfAbsent (Proxy.failing 5)).2 it now limit,
      p.isAvailable now := by
  have h5 := Proxy.failing_reached (n := 5) (by norm_num)
  refine ⟨breaker_consistent.1 _ h5, fun it now limit => breaker_consistent.2 _ it now limit ?_⟩
  intro k p hp
  rcases SharedState.get_insertIfAbsent hp with hold | ⟨rfl, -⟩
  · cases hold
  · exact h5

namespace Proxy

/-- A record and the time of its last update. -/
structure Timed where
  proxy : Proxy
  time : Instant

/-- An update at a time that is not before the last one. -/
def Timed.Step (s : Timed) (a : Clock × Update) (t : Timed) : Prop :=
  s.time ≤ a.1.instant ∧ t = ⟨a.2.apply s.proxy a.1, a.1.instant⟩

/-- Neither a success nor a revival nor a restart, and no wrap of the failure counter. -/
def Timed.StaysFailing (s : Timed) (a : Clock × Update) : Prop :=
  s.proxy.NoWrap a ∧ (∀ latencyMs, a.2 ≠ .recordSuccess latencyMs) ∧ a.2 ≠ .markPresumedAlive ∧
    a.2 ≠ .reload

/-- Seconds for which the `n`-th consecutive failure should lock a proxy out. -/
def lockoutSecs (n : ℕ) : ℕ∞ :=
  if n ≤ 9 then 60 else if n ≤ 19 then 300 else if n ≤ 49 then 3600 else ⊤

/-- Whether a lockout that began at `start` with `n` failures still lasts. -/
def LockedOut (n start t : ℕ) : Prop := (t : ℕ∞) < start + lockoutSecs n * 1000000000

/-- What a lockout promises at one moment: no selection and no health check. -/
def Shunned (p : Proxy) (now : Clock) : Prop :=
  ¬ p.isAvailable now ∧ ∀ (s : SharedState) (it : s.proxies.Iteration) (limit : ℕ),
    p ∉ s.proxiesNeedingCheck it now limit

theorem shunned_of_failed {p : Proxy} {now : Clock} (hst : p.status = some .failed)
    (h : ¬ p.isAvailable now) : p.Shunned now := by
  refine ⟨h, fun s it limit hp => h ?_⟩
  have hc := (SharedState.mem_proxiesNeedingCheck hp).2
  simpa [SharedState.needsCheck, hst] using hc

/-- Below the last tier the deadline that is written is the one the table promises. -/
theorem lockoutSecs_eq {n d : ℕ} (h5 : 5 ≤ n) (hd : disableSecs n = some d) :
    lockoutSecs n = d := by
  unfold disableSecs at hd
  unfold lockoutSecs
  split_ifs at hd ⊢ <;> first | omega | (cases hd; rfl)

theorem disableSecs_mono {n m d e : ℕ} (hnm : n ≤ m) (hn : disableSecs n = some d)
    (hm : disableSecs m = some e) : d ≤ e := by
  unfold disableSecs at hn hm
  split_ifs at hn hm <;> simp only [Option.some.injEq] at hn hm <;> omega

/-- The breaker is open for the `d` seconds after `start` at least. -/
structure OpenFor (start : Instant) (n d : ℕ) (s : Timed) : Prop where
  failed : s.proxy.status = some .failed
  count : n ≤ s.proxy.consecutiveFails.toNat
  deadline : ∃ t, s.proxy.circuitOpenUntil = some t ∧ start + fromSecs d ≤ t
  time : start ≤ s.time

theorem OpenFor.step {start : Instant} {n d : ℕ} {s t : Timed} {a : Clock × Update}
    (hd : disableSecs n = some d) (h5 : 5 ≤ n) (h : OpenFor start n d s) (hs : s.Step a t)
    (hg : s.StaysFailing a) : OpenFor start n d t := by
  obtain ⟨now, u⟩ := a
  obtain ⟨hle, rfl⟩ := hs
  obtain ⟨hwrap, hsucc, hmark, hreload⟩ := hg
  have htime := h.time.trans hle
  cases u with
  | recordSuccess latencyMs => exact absurd rfl (hsucc latencyMs)
  | markPresumedAlive => exact absurd rfl hmark
  | reload => exact absurd rfl hreload
  | setTlsClean clean => exact ⟨h.failed, h.count, h.deadline, htime⟩
  | setCountry country => exact ⟨h.failed, h.count, h.deadline, htime⟩
  | recordFail =>
    have hn := toNat_consecutiveFails_add_one (hwrap rfl)
    have hcount := h.count
    have hcount' : n ≤ (s.proxy.recordFail now).consecutiveFails.toNat := by
      rw [consecutiveFails_recordFail, hn]
      omega
    rcases s.proxy.recordFail_cases now hn with ⟨h4, hp⟩ | ⟨e, _, he, _, _, hp⟩ | ⟨h50, hp⟩
    · omega
    · have hde : d ≤ e := disableSecs_mono (by omega) hd he
      have hlater : start + fromSecs d ≤ now.instant + fromSecs e :=
        Nat.add_le_add htime (Nat.mul_le_mul_right _ hde)
      have hopen : (s.proxy.recordFail now).circuitOpenUntil = some (now.instant + fromSecs e) := by
        rw [hp]
      exact ⟨by rw [Update.apply, hp], hcount', ⟨_, hopen, hlater⟩, htime⟩
    · refine ⟨by rw [Update.apply, hp], hcount', ?_, htime⟩
      rw [Update.apply, hp]
      exact h.deadline

/-- A failure that brings the count to `n` locks the proxy out for as long as the table says,
whatever failures follow, exactly when `n` is below the last tier. -/
theorem lockout_iff (p : Proxy) (now : Clock) (h5 : 5 ≤ p.consecutiveFails.toNat + 1)
    (hwrap : p.consecutiveFails.toNat + 1 < 2 ^ 32) :
    (∀ es t, Runs.Run (Runs.Guarded Timed.Step Timed.StaysFailing)
        ⟨p.recordFail now, now.instant⟩ es t →
      ∀ later : Clock, t.time ≤ later.instant →
        LockedOut (p.consecutiveFails.toNat + 1) now.instant later.instant →
        t.proxy.Shunned later) ↔
      p.consecutiveFails.toNat + 1 < 50 := by
  have hn := toNat_consecutiveFails_add_one hwrap
  rcases p.recordFail_cases now hn with ⟨h4, _⟩ | ⟨d, _, hd, _, h49, hp⟩ | ⟨h50, hp⟩
  · omega
  · refine iff_of_true (fun es t hrun later hle hlock => ?_) (by omega)
    have hopen : OpenFor now.instant (p.consecutiveFails.toNat + 1) d
        ⟨p.recordFail now, now.instant⟩ :=
      ⟨by rw [hp], by rw [consecutiveFails_recordFail, hn], ⟨_, by rw [hp], le_rfl⟩, le_rfl⟩
    have hend := hrun.invariant (fun _ _ _ hi hs => hi.step hd h5 hs.2 hs.1) hopen
    obtain ⟨deadline, hdl, hle'⟩ := hend.deadline
    refine shunned_of_failed hend.failed fun havail => ?_
    have hpast := Nat.le_trans hle' (isAvailable_iff.mp havail deadline hdl)
    rw [LockedOut, lockoutSecs_eq h5 hd] at hlock
    norm_cast at hlock
    exact absurd hpast (Nat.not_le_of_lt hlock)
  · refine iff_of_false (fun hall => ?_) (by omega)
    -- the deadline that was there before the failure has passed at some later time
    let later : Clock := ⟨max now.instant (p.circuitOpenUntil.getD 0), 0⟩
    refine (hall [] _ (.nil _) later (le_max_left _ _) ?_).1 (isAvailable_iff.mpr fun t ht => ?_)
    · have htop : lockoutSecs (p.consecutiveFails.toNat + 1) = ⊤ := by
        unfold lockoutSecs
        split_ifs <;> first | omega | rfl
      rw [LockedOut, htop, ENat.top_mul (by norm_num), add_top]
      exact ENat.natCast_lt_top _
    · rw [hp] at ht
      have ht' : p.circuitOpenUntil = some t := ht
      simp [later, ht']

/-- Five failures keep a proxy out for the next 59 seconds. -/
theorem shunned_failing : (failing 5).Shunned ⟨fromSecs 59, 0⟩ := by
  have hn : (failing 4).consecutiveFails.toNat = 4 := toNat_consecutiveFails_failing (by norm_num)
  refine (lockout_iff (failing 4) ⟨0, 0⟩ (by omega) (by omega)).mpr (by omega) [] _ (.nil _)
    ⟨fromSecs 59, 0⟩ (Nat.zero_le _) ?_
  rw [hn]
  norm_num [LockedOut, lockoutSecs, fromSecs]

/-- In the last tier a proxy whose old deadline has passed is available, and due for a check. -/
theorem available_of_last_tier {p : Proxy} {now : Clock} (hn : 50 ≤ (p.consecutiveFails + 1).toNat)
    (hp : p.isAvailable now) : (p.recordFail now).isAvailable now ∧
      SharedState.needsCheck now (p.recordFail now) := by
  rcases p.recordFail_cases now rfl with ⟨h4, _⟩ | ⟨_, _, _, _, h49, _⟩ | ⟨_, hlast⟩
  · omega
  · omega
  · rw [hlast]
    exact ⟨hp, hp⟩

/-- The fiftieth failure, an hour after the others, leaves the proxy available at once: the
old deadline has passed and no new one is set. The next health check takes it up. -/
theorem available_after_fifty_failures :
    (failing 49).Reached ∧
    ((failing 49).recordFail ⟨fromSecs 3601, 0⟩).consecutiveFails.toNat = 50 ∧
    LockedOut 50 (fromSecs 3601) (fromSecs 3601) ∧
    ((failing 49).recordFail ⟨fromSecs 3601, 0⟩).isAvailable ⟨fromSecs 3601, 0⟩ ∧
    SharedState.needsCheck ⟨fromSecs 3601, 0⟩ ((failing 49).recordFail ⟨fromSecs 3601, 0⟩) := by
  have h48 : ((failing 48).consecutiveFails + 1).toNat = 49 := by
    rw [← consecutiveFails_recordFail _ ⟨0, 0⟩]
    exact toNat_consecutiveFails_failing (n := 49) (by norm_num)
  have hopen : (failing 49).circuitOpenUntil = some (fromSecs 3600) := by
    rcases (failing 48).recordFail_cases ⟨0, 0⟩ h48 with ⟨h4, _⟩ | ⟨d, _, hd, _, _, hp⟩ | ⟨h50, _⟩
    · omega
    · obtain rfl : 3600 = d := Option.some.inj hd
      rw [failing, hp]
      rfl
    · omega
  have h49 : ((failing 49).consecutiveFails + 1).toNat = 50 := by
    rw [← consecutiveFails_recordFail _ ⟨0, 0⟩]
    exact toNat_consecutiveFails_failing (n := 50) (by norm_num)
  have hpast : (failing 49).isAvailable ⟨fromSecs 3601, 0⟩ := by
    refine isAvailable_iff.mpr fun t ht => ?_
    rw [hopen, Option.some.injEq] at ht
    rw [← ht]
    exact Nat.mul_le_mul_right _ (by norm_num)
  refine ⟨failing_reached (by norm_num), ?_, ?_, available_of_last_tier h49.ge hpast⟩
  · rw [consecutiveFails_recordFail, h49]
  · simp [LockedOut, lockoutSecs]

end Proxy

end VpnGateway
