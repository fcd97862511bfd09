import VpnGateway.Core.Backlog
import VpnGateway.Pool.Breaker
import VpnGateway.Pool.Keys
import VpnGateway.Pool.Revalidation

/-! How long a proxy waits for its health check. The loop takes the unchecked proxies before the
presumed alive ones and lets the rest wait; a proxy leaves these two ranks with a success or with
its fifth failure in a row, so that each full batch uses up some of the checks they can ask for. -/
namespace VpnGateway

open Runs Backlog

namespace Proxy

/-- The checks a proxy can ask for before it leaves the ranks up to this one. -/
def pendingChecks (rank : ℕ) (p : Proxy) : ℕ :=
  if SharedState.checkRank p.status ≤ rank then 5 - min 4 p.consecutiveFails.toNat else 0

theorem pendingChecks_le (rank : ℕ) (p : Proxy) : p.pendingChecks rank ≤ 5 := by
  unfold pendingChecks
  split_ifs <;> omega

theorem pendingChecks_pos_iff {rank : ℕ} {p : Proxy} :
    0 < p.pendingChecks rank ↔ SharedState.checkRank p.status ≤ rank := by
  unfold pendingChecks
  split_ifs with h
  · exact iff_of_true (by omega) h
  · exact iff_of_false (lt_irrefl 0) h

variable {rank : ℕ} (hrank : rank ≤ 1)

include hrank

/-- Verified proxies are in a later rank. -/
theorem pendingChecks_recordSuccess (p : Proxy) (now : Clock) (latencyMs : F64) :
    (p.recordSuccess now latencyMs).pendingChecks rank = 0 := by
  have hverified : SharedState.checkRank (p.recordSuccess now latencyMs).status = 2 := rfl
  rw [pendingChecks, hverified, if_neg (by omega)]

/-- A failure uses up one check; the fifth in a row moves the proxy into the last rank. -/
theorem pendingChecks_recordFail {p : Proxy} {now : Clock} (hw : p.NoWrap (now, .recordFail)) :
    (p.recordFail now).pendingChecks rank ≤ p.pendingChecks rank - 1 := by
  have hfails := toNat_consecutiveFails_add_one (hw rfl)
  have hlast : SharedState.checkRank (some .failed) = 3 := rfl
  rcases p.recordFail_cases now rfl with ⟨h4, h⟩ | ⟨d, -, -, h5, -, h⟩ | ⟨h50, h⟩
  · have hstatus : (p.recordFail now).status = p.status := by rw [h]; rfl
    rw [pendingChecks, pendingChecks, hstatus, consecutiveFails_recordFail, hfails]
    split_ifs
    · omega
    · exact Nat.zero_le _
  · rw [h, pendingChecks, if_neg (by rw [hlast]; omega)]
    exact Nat.zero_le _
  · rw [h, pendingChecks, if_neg (by rw [hlast]; omega)]
    exact Nat.zero_le _

/-- The recorded end of an attempt uses up a check of a proxy in these ranks. -/
theorem pendingChecks_outcome {p : Proxy} {u : Update} {now : Clock} (hu : u.IsOutcome)
    (hw : p.NoWrap (now, u)) (hpos : 0 < p.pendingChecks rank) :
    (u.apply p now).pendingChecks rank < p.pendingChecks rank := by
  cases u with
  | recordSuccess latencyMs =>
    exact (pendingChecks_recordSuccess hrank p now latencyMs).trans_lt hpos
  | recordFail =>
    have hless := pendingChecks_recordFail hrank hw
    exact hless.trans_lt (Nat.sub_lt hpos one_pos)
  | _ => exact False.elim hu

/-- No update of an operation adds to them. -/
theorem pendingChecks_update {op : Op} {k : String} {u : Update} (hop : op.update = some (k, u))
    {p : Proxy} {now : Clock} (hw : p.NoWrap (now, u)) :
    (u.apply p now).pendingChecks rank ≤ p.pendingChecks rank := by
  cases Op.updates hop with
  | recordSuccess latencyMs =>
    exact (pendingChecks_recordSuccess hrank p now latencyMs).trans_le (Nat.zero_le _)
  | recordFail => exact (pendingChecks_recordFail hrank hw).trans (Nat.sub_le _ _)
  | setTlsClean clean | geoipResult country => exact le_rfl

end Proxy

/-- The operations that can bring an unverified proxy into the pool, each with its key. -/
def Op.arrival : Op → Option String
  | .insertIfAbsent proxy => some proxy.key
  | .addProxy payload => some payload.proxy.key
  | .unbanProxy proxyKey => some proxyKey
  | _ => none

/-- The operations that can take the record under a key out of the pool, or put another one in
its place; the clean-up of stale records is apart. -/
def Op.Displaces (k : String) : Op → Prop
  | .addVerified proxy => proxy.key = k
  | .banProxy proxyKey => proxyKey = k
  | .unbanProxy proxyKey => proxyKey = k
  | _ => False

/-- How an attempt to use the proxy ended is recorded. -/
def Event.Records (e : Event) (k : String) : Prop :=
  ∃ u, e.op.update = some (k, u) ∧ u.IsOutcome

namespace SharedState

/-- The operation wraps no failure counter around. -/
def CountsFails (s : SharedState) (e : Event) : Prop :=
  ∀ k u p, e.op.update = some (k, u) → s.proxies.get k = some p → p.NoWrap (e.now, u)

/-- The checks that the proxies in the ranks up to this one can ask for, by key. -/
noncomputable def pending (rank : ℕ) (s : SharedState) : String →₀ ℕ :=
  Finsupp.onFinset s.proxies.keys (fun k => (s.proxies.get k).elim 0 (Proxy.pendingChecks rank))
    fun k hk => by
      cases hget : s.proxies.get k with
      | none => exact absurd (by rw [hget]; rfl) hk
      | some p => exact FinMap.mem_of_get hget

theorem pending_apply (rank : ℕ) (s : SharedState) (k : String) :
    s.pending rank k = (s.proxies.get k).elim 0 (Proxy.pendingChecks rank) := rfl

theorem pending_le (rank : ℕ) (s : SharedState) (k : String) : s.pending rank k ≤ 5 := by
  rw [pending_apply]
  cases s.proxies.get k with
  | none => exact Nat.zero_le 5
  | some p => exact p.pendingChecks_le rank

/-- Each proxy in these ranks asks for five checks at most. -/
theorem degree_pending_le (rank : ℕ) (s : SharedState) :
    (s.pending rank).degree ≤ 5 * s.proxies.countP fun p => checkRank p.status ≤ rank := by
  have hsupport : (s.pending rank).support ⊆
      s.proxies.keys.filter fun k => (s.proxies.get k).any fun p => checkRank p.status ≤ rank := by
    intro k hk
    have hpos := Nat.pos_of_ne_zero (Finsupp.mem_support_iff.mp hk)
    rw [pending_apply] at hpos
    cases hget : s.proxies.get k with
    | none =>
      rw [hget] at hpos
      exact absurd hpos (lt_irrefl 0)
    | some p =>
      rw [hget] at hpos
      simpa [hget, FinMap.mem_of_get hget] using
        ⟨FinMap.mem_of_get hget, Proxy.pendingChecks_pos_iff.mp hpos⟩
  calc (s.pending rank).degree = ∑ k ∈ (s.pending rank).support, s.pending rank k :=
        Finsupp.degree_apply _
    _ ≤ ∑ _k ∈ (s.pending rank).support, 5 := Finset.sum_le_sum fun k _ => s.pending_le rank k
    _ = 5 * (s.pending rank).support.card := by rw [Finset.sum_const, smul_eq_mul, mul_comm]
    _ ≤ _ := Nat.mul_le_mul_left 5 (Finset.card_le_card hsupport)

/-- What an operation brings in. -/
noncomputable def brings (e : Event) : String →₀ ℕ :=
  e.op.arrival.elim 0 fun k => Finsupp.single k 5

variable {rank : ℕ} {s t : SharedState} {k : String}

theorem pending_le_of_get {m : ℕ} (h : ∀ p, t.proxies.get k = some p → p.pendingChecks rank ≤ m) :
    t.pending rank k ≤ m := by
  rw [pending_apply]
  cases hget : t.proxies.get k with
  | none => exact Nat.zero_le m
  | some p => exact h p hget

theorem pending_eq_of_get {p : Proxy} (h : s.proxies.get k = some p) :
    s.pending rank k = p.pendingChecks rank := by rw [pending_apply, h, Option.elim_some]

theorem pendingChecks_inserted (hrank : rank ≤ 1) {e : Event} {p : Proxy}
    (hop : s.Inserts p e.op) : p.pendingChecks rank ≤ brings e p.key := by
  obtain ⟨now, op, reply⟩ := e
  cases op with
  | insertIfAbsent q =>
    obtain ⟨rfl, -, -⟩ := hop
    exact (q.pendingChecks_le rank).trans (Finsupp.single_eq_same (a := q.key)).ge
  | addProxy payload =>
    obtain ⟨rfl, -⟩ := hop
    exact (payload.proxy.pendingChecks_le rank).trans
      (Finsupp.single_eq_same (a := payload.proxy.key)).ge
  | addVerified q =>
    obtain rfl := hop
    have hverified : checkRank ({ q with status := some .verified } : Proxy).status = 2 := rfl
    rw [Proxy.pendingChecks, hverified, if_neg (by omega)]
    exact Nat.zero_le _
  | _ => exact False.elim hop

/-- Nobody asks for more checks than before, except for those who come in. -/
theorem Step.pending_le (hrank : rank ≤ 1) {e : Event} (hs : Keyed s.banned) (h : s.Step e t)
    (hcount : s.CountsFails e) : t.pending rank ≤ s.pending rank + brings e := by
  intro k
  rw [Finsupp.add_apply]
  cases h.effect with
  | kept hp _ _ =>
    refine pending_le_of_get fun p' hp' => ?_
    obtain ⟨p, hget, rfl | ⟨u, hu, rfl⟩⟩ := hp k p' hp'
    · rw [pending_eq_of_get hget]
      exact Nat.le_add_right _ _
    · rw [pending_eq_of_get hget]
      exact (Proxy.pendingChecks_update hrank hu (hcount k u p hu hget)).trans
        (Nat.le_add_right _ _)
  | inserted p hop hp _ =>
    refine pending_le_of_get fun p' hp' => ?_
    rw [hp, FinMap.get_insert] at hp'
    split_ifs at hp' with hk
    · obtain rfl := Option.some.inj hp'
      exact (hk ▸ pendingChecks_inserted hrank hop).trans (Nat.le_add_left _ _)
    · rw [pending_eq_of_get hp']
      exact Nat.le_add_right _ _
  | ban j p hop _ hp _ =>
    refine pending_le_of_get fun p' hp' => ?_
    rw [hp, FinMap.get_remove] at hp'
    split_ifs at hp'
    rw [pending_eq_of_get hp']
    exact Nat.le_add_right _ _
  | unban j p hop _ hget hp _ =>
    refine pending_le_of_get fun p' hp' => ?_
    rw [hp, FinMap.get_insert] at hp'
    split_ifs at hp' with hk
    · have hj : j = k := (hs j p hget).trans hk.symm
      have hbrings : brings e k = 5 := by
        rw [brings, hop, hj]
        exact Finsupp.single_eq_same
      rw [hbrings]
      exact (p'.pendingChecks_le rank).trans (Nat.le_add_left _ _)
    · rw [pending_eq_of_get hp']
      exact Nat.le_add_right _ _

/-- A recorded outcome uses up a check of a proxy that asks for some. -/
theorem Step.pending_lt (hrank : rank ≤ 1) {e : Event} (h : s.Step e t)
    (hcount : s.CountsFails e) (hrec : e.Records k) (hpos : 0 < s.pending rank k) :
    t.pending rank k < s.pending rank k := by
  obtain ⟨u, hu, houtcome⟩ := hrec
  cases hget : s.proxies.get k with
  | none =>
    rw [pending_apply, hget] at hpos
    exact absurd hpos (lt_irrefl 0)
  | some p =>
    have ht : t.proxies.get k = some (u.apply p e.now) := by
      rw [h.proxies_of_update hu, FinMap.get_modify, if_pos rfl, hget, Option.map_some]
    rw [pending_eq_of_get hget] at hpos ⊢
    rw [pending_eq_of_get ht]
    exact Proxy.pendingChecks_outcome hrank houtcome (hcount k u p hu hget) hpos

/-- The steps from coherent states that wrap no failure counter around. -/
def CheckStep (s : SharedState) (e : Event) (t : SharedState) : Prop :=
  s.AllKeyed ∧ Guarded Step CountsFails s e t

theorem accounts_pending (hrank : rank ≤ 1) :
    Accounts CheckStep (pending rank) brings Event.Records where
  step _ _ _ h := h.2.2.pending_le hrank h.1.banned h.2.1
  serves _ _ _ _ h hrec hpos := h.2.2.pending_lt hrank h.2.1 hrec hpos

/-- No proxy is in a batch twice. -/
theorem AllKeyed.nodup_proxiesNeedingCheck (hs : s.AllKeyed) (it : s.proxies.Iteration)
    (now : Clock) (limit : ℕ) : ((s.proxiesNeedingCheck it now limit).map Proxy.key).Nodup := by
  have hvalues : (it.values.map Proxy.key).Nodup := by
    rw [it.map_values fun j q hq => (hs.live j q hq).symm]
    exact it.nodup
  have hcandidates : ((it.values.filter (needsCheck now)).map Proxy.key).Nodup :=
    hvalues.sublist (List.filter_sublist.map Proxy.key)
  have hsorted := ((List.mergeSort_perm _ fun a b : Proxy =>
    decide (checkRank a.status ≤ checkRank b.status)).map Proxy.key).nodup_iff.mpr hcandidates
  exact hsorted.sublist ((List.take_sublist _ _).map Proxy.key)

/-- With a candidate left over, the batch is full, and nobody in it has a later rank. -/
theorem batch_of_notMem {it : s.proxies.Iteration} {now : Clock} {limit : ℕ} {p : Proxy}
    (hp : s.proxies.get k = some p) (hneeds : needsCheck now p)
    (hout : p ∉ s.proxiesNeedingCheck it now limit) :
    (s.proxiesNeedingCheck it now limit).length = limit ∧
      ∀ q ∈ s.proxiesNeedingCheck it now limit, checkRank q.status ≤ checkRank p.status := by
  let sorted := (it.values.filter (needsCheck now)).mergeSort
    fun a b => decide (checkRank a.status ≤ checkRank b.status)
  have hbatch : s.proxiesNeedingCheck it now limit = sorted.take limit := rfl
  have hsorted : sorted.Pairwise fun a b => checkRank a.status ≤ checkRank b.status := by
    have hpairwise : sorted.Pairwise fun a b => decide (checkRank a.status ≤ checkRank b.status) :=
      List.pairwise_mergeSort
        (fun a b c hab hbc => decide_eq_true
          ((of_decide_eq_true hab).trans (of_decide_eq_true hbc)))
        (fun a b => by
          rcases Nat.le_total (checkRank a.status) (checkRank b.status) with h | h <;> simp [h])
        _
    exact hpairwise.imp of_decide_eq_true
  have hmem : p ∈ sorted := by
    rw [List.mem_mergeSort, List.mem_filter]
    exact ⟨FinMap.Iteration.mem_values.mpr ⟨k, hp⟩, hneeds⟩
  have hsplit := List.take_append_drop limit sorted
  have hrest : p ∈ sorted.drop limit := by
    rw [← hsplit, List.mem_append, ← hbatch] at hmem
    exact hmem.resolve_left hout
  rw [hbatch]
  constructor
  · have hpos := List.length_pos_of_mem hrest
    rw [List.length_drop] at hpos
    rw [List.length_take]
    omega
  · rw [← hsplit, List.pairwise_append] at hsorted
    exact fun q hq => hsorted.2.2 q hq p hrest

/-- A record that is neither displaced nor stale stays, up to an update of its own. -/
theorem Step.stays {e : Event} {p : Proxy} (hs : Keyed s.banned) (h : s.Step e t)
    (hget : s.proxies.get k = some p) (hstay : ¬e.op.Displaces k)
    (hkeeps : e.op = .cleanupStale → keepsStale e.now p) :
    t.proxies.get k = some p ∨
      ∃ u, e.op.update = some (k, u) ∧ t.proxies.get k = some (u.apply p e.now) := by
  have hupdate : ∀ j u, e.op.update = some (j, u) → t.proxies.get k = some p ∨
      ∃ u, e.op.update = some (k, u) ∧ t.proxies.get k = some (u.apply p e.now) := by
    intro j u hu
    rw [h.proxies_of_update hu, FinMap.get_modify, hget]
    split_ifs with hk
    · exact Or.inr ⟨u, hk ▸ hu, rfl⟩
    · exact Or.inl rfl
  obtain ⟨now, op, reply⟩ := e
  cases op with
  | recordSuccess key latencyMs => exact hupdate key (.recordSuccess latencyMs) rfl
  | recordFail key => exact hupdate key .recordFail rfl
  | setTlsClean key clean => exact hupdate key (.setTlsClean clean) rfl
  | geoipResult key country => exact hupdate key (.setCountry country) rfl
  | cleanupStale =>
    obtain ⟨rfl, rfl⟩ := Prod.mk.inj (Option.some.inj h)
    exact Or.inl (FinMap.get_retain_some.mpr ⟨hget, hkeeps rfl⟩)
  | stickyGet peer =>
    obtain ⟨r, hr, hrt⟩ := Option.map_eq_some_iff.mp h
    obtain ⟨rfl, rfl⟩ := Prod.mk.inj hrt
    obtain ⟨q, -, rfl⟩ := Option.map_eq_some_iff.mp hr
    exact Or.inl hget
  | cleanupSessions =>
    obtain ⟨r, hr, hrt⟩ := Option.map_eq_some_iff.mp h
    obtain ⟨rfl, rfl⟩ := Prod.mk.inj hrt
    obtain ⟨q, -, rfl⟩ := Option.map_eq_some_iff.mp hr
    exact Or.inl hget
  | insertIfAbsent proxy =>
    obtain ⟨rfl, rfl⟩ := Prod.mk.inj (Option.some.inj h)
    exact Or.inl (get_insertIfAbsent_of_get hget proxy)
  | addVerified proxy =>
    obtain ⟨rfl, rfl⟩ := Prod.mk.inj (Option.some.inj h)
    exact Or.inl ((FinMap.get_insert_of_ne _ _ (Ne.symm hstay)).trans hget)
  | addProxy payload =>
    obtain ⟨rfl, rfl⟩ := Prod.mk.inj (Option.some.inj h)
    rcases s.addProxy_cases payload with ⟨m, hm⟩ | ⟨hin, m, hm⟩ <;> rw [hm]
    · exact Or.inl hget
    · have hne : k ≠ payload.key := fun hk => hin (hk ▸ FinMap.mem_of_get hget)
      exact Or.inl ((FinMap.get_insert_of_ne _ _ hne).trans hget)
  | banProxy j =>
    obtain ⟨rfl, rfl⟩ := Prod.mk.inj (Option.some.inj h)
    rcases s.banProxy_cases j with ⟨m, hm⟩ | ⟨q, m, -, hm⟩ <;> rw [hm]
    · exact Or.inl hget
    · rw [FinMap.get_remove, if_neg (Ne.symm hstay)]
      exact Or.inl hget
  | unbanProxy j =>
    obtain ⟨rfl, rfl⟩ := Prod.mk.inj (Option.some.inj h)
    rcases s.unbanProxy_cases j with ⟨-, m, hm⟩ | ⟨q, m, hq, hm⟩ <;> rw [hm]
    · exact Or.inl hget
    · have hne : k ≠ q.key := fun hk => hstay ((hs j q hq).trans hk.symm)
      exact Or.inl ((FinMap.get_insert_of_ne _ _ hne).trans hget)
  | _ =>
    obtain ⟨rfl, rfl⟩ := Prod.mk.inj (Option.some.inj h)
    exact Or.inl hget

/-- The proxy has this status, and the clean-up will not take it. -/
def Waits (k : String) (status : Option ProxyStatus) (s : SharedState) : Prop :=
  ∃ p, s.proxies.get k = some p ∧ p.status = status ∧ (0 < p.successCount ∨ p.lastCheck = none)

theorem successCount_update {op : Op} {u : Update} (hop : op.update = some (k, u))
    (hu : ¬u.IsOutcome) (p : Proxy) (now : Clock) :
    (u.apply p now).successCount = p.successCount := by
  cases Op.updates hop with
  | recordSuccess latencyMs | recordFail => exact absurd True.intro hu
  | setTlsClean clean | geoipResult country => rfl

theorem keepsStale_of_waits {p : Proxy} {now : Clock}
    (h : 0 < p.successCount ∨ p.lastCheck = none) : keepsStale now p := by
  unfold keepsStale
  rcases h with h | h
  · rw [if_pos h]
  · rw [h]
    split_ifs <;> rfl

theorem run_checkStep {es : List Event} (hs : s.AllKeyed)
    (h : Run (Guarded Step CountsFails) s es t) : Run CheckStep s es t ∧ t.AllKeyed := by
  induction h with
  | nil s => exact ⟨.nil s, hs⟩
  | cons head _ ih =>
    obtain ⟨hrest, ht⟩ := ih (hs.step head.2)
    exact ⟨.cons ⟨hs, head⟩ hrest, ht⟩

/-- Until it is displaced or an attempt to use it is recorded, the proxy waits. -/
theorem CheckStep.waits {status : Option ProxyStatus} {e : Event} (h : s.CheckStep e t)
    (hw : s.Waits k status) (hstay : ¬e.op.Displaces k) (hrec : ¬e.Records k) :
    t.Waits k status := by
  obtain ⟨p, hget, hstatus, hstale⟩ := hw
  rcases h.2.2.stays h.1.banned hget hstay fun _ => keepsStale_of_waits hstale with
    hp | ⟨u, hu, hp⟩
  · exact ⟨p, hp, hstatus, hstale⟩
  · have hno : ¬u.IsOutcome := fun houtcome => hrec ⟨u, hu, houtcome⟩
    obtain ⟨hst, hlast⟩ := Op.update_frame hu hno p e.now
    refine ⟨_, hp, hst.trans hstatus, ?_⟩
    rwa [hlast, successCount_update hu hno]

theorem waits_of_run {status : Option ProxyStatus} {es : List Event} (h : Run CheckStep s es t)
    (hw : s.Waits k status) (hstay : ∀ e ∈ es, ¬e.op.Displaces k)
    (hrec : ∀ e ∈ es, ¬e.Records k) : t.Waits k status := by
  induction h with
  | nil => exact hw
  | cons head _ ih =>
    exact ih (head.waits hw (hstay _ (by simp)) (hrec _ (by simp)))
      (fun e he => hstay e (by simp [he])) fun e he => hrec e (by simp [he])

end SharedState

/-- One turn of the health loop: when it takes its batch and how large, and what happens until
every check of the batch has ended. -/
structure HealthRound where
  now : Clock
  limit : ℕ
  events : List Event

namespace HealthRound

open SharedState

/-- Between two turns of the loop nothing is taken, which is a round without a batch. -/
structure Leads (s : SharedState) (r : HealthRound) (t : SharedState) : Prop where
  run : Run (Guarded Step CountsFails) s r.events t
  checked : ∃ it : s.proxies.Iteration,
    ∀ p ∈ s.proxiesNeedingCheck it r.now r.limit, ∃ e ∈ r.events, e.Records p.key

variable {s t : SharedState} {k : String}

/-- While a proxy of one of the first two ranks waits, a round serves a full batch that asks for
no fewer checks. -/
theorem Leads.round {r : HealthRound} {status : Option ProxyStatus} (h : r.Leads s t)
    (hs : s.AllKeyed) (hw : s.Waits k status) (hrank : checkRank status ≤ 1)
    (hrec : ∀ e ∈ r.events, ¬e.Records k) :
    ∃ batch : Finset String, batch.card = r.limit ∧
      Round.Leads CheckStep (pending (checkRank status)) Event.Records s ⟨batch, r.events⟩ t := by
  obtain ⟨it, hchecked⟩ := h.checked
  obtain ⟨p, hget, rfl, -⟩ := hw
  have hkey : k = p.key := hs.live k p hget
  have hneeds : needsCheck r.now p := by
    unfold needsCheck
    rcases hst : p.status with - | status <;> [rfl; skip]
    cases status with
    | unchecked | presumedAlive => rfl
    | verified | failed => rw [hst] at hrank; simp [checkRank] at hrank
  have hout : p ∉ s.proxiesNeedingCheck it r.now r.limit := by
    intro hin
    obtain ⟨e, he, hr⟩ := hchecked p hin
    exact hrec e he (hkey ▸ hr)
  obtain ⟨hlength, hranks⟩ := batch_of_notMem hget hneeds hout
  have hnodup := hs.nodup_proxiesNeedingCheck it r.now r.limit
  refine ⟨((s.proxiesNeedingCheck it r.now r.limit).map Proxy.key).toFinset, ?_,
    (run_checkStep hs h.run).1, ?_, ?_⟩
  · rw [List.toFinset_card_of_nodup hnodup, List.length_map, hlength]
  · intro j hj
    obtain ⟨q, hq, rfl⟩ := List.mem_map.mp (List.mem_toFinset.mp hj)
    obtain ⟨⟨i, hi⟩, -⟩ := mem_proxiesNeedingCheck hq
    rw [← hs.live i q hi, pending_eq_of_get hi, Proxy.pendingChecks_pos_iff]
    exact hranks q hq
  · intro j hj
    obtain ⟨q, hq, rfl⟩ := List.mem_map.mp (List.mem_toFinset.mp hj)
    exact hchecked q hq

variable {rounds : List HealthRound}

theorem exists_rounds {status : Option ProxyStatus}
    (h : Run (fun s r t => Leads s r t) s rounds t) (hs : s.AllKeyed)
    (hw : s.Waits k status) (hrank : checkRank status ≤ 1)
    (hstay : ∀ r ∈ rounds, ∀ e ∈ r.events, ¬e.op.Displaces k)
    (hrec : ∀ r ∈ rounds, ∀ e ∈ r.events, ¬e.Records k) :
    ∃ full : List (Round Event String),
      Run (fun s r t => Round.Leads CheckStep (pending (checkRank status)) Event.Records s r t)
        s full t ∧
      (full.map fun r => r.batch.card) = rounds.map limit ∧
      full.flatMap Round.steps = rounds.flatMap events := by
  induction h with
  | nil s => exact ⟨[], .nil s, rfl, rfl⟩
  | @cons s u t r rounds head _ ih =>
    have hrec' := hrec r (by simp)
    obtain ⟨batch, hcard, hround⟩ := head.round hs hw hrank hrec'
    obtain ⟨hrun, hu⟩ := run_checkStep hs head.run
    obtain ⟨full, hfull, hcards, hsteps⟩ := ih hu (waits_of_run hrun hw (hstay r (by simp)) hrec')
      (fun r hr => hstay r (by simp [hr])) fun r hr => hrec r (by simp [hr])
    refine ⟨⟨batch, r.events⟩ :: full, .cons hround hfull, ?_, ?_⟩
    · rw [List.map_cons, List.map_cons, hcards, hcard]
    · rw [List.flatMap_cons, List.flatMap_cons, hsteps]

end HealthRound

/-- Five checks for each proxy that comes in. -/
theorem degree_brings (es : List Event) :
    ((es.map SharedState.brings).sum).degree =
      5 * es.countP fun e => e.op.arrival.isSome := by
  induction es with
  | nil => simp
  | cons e es ih =>
    rw [List.map_cons, List.sum_cons, map_add, ih, List.countP_cons, SharedState.brings]
    cases e.op.arrival with
    | none => simp
    | some k =>
      simp
      omega

/-- A proxy of the first two ranks is checked before the batches of the health loop, taken
together, exceed five times the proxies that are not behind it and those that come in meanwhile,
whatever else happens between and during the rounds, in every order of scan. -/
theorem check_within (ttl : UInt64) (maxProxies : ℕ) (countries : List String)
    {history : List SharedState.StoreEvent} {s t : SharedState}
    (hs : Run SharedState.StoreStep (.withConfig ttl maxProxies countries) history s)
    {rounds : List HealthRound} (hrun : Run (fun s r t => HealthRound.Leads s r t) s rounds t)
    {k : String} {p : Proxy} (hget : s.proxies.get k = some p)
    (hrank : SharedState.checkRank p.status ≤ 1)
    (hstale : 0 < p.successCount ∨ p.lastCheck = none)
    (hstay : ∀ r ∈ rounds, ∀ e ∈ r.events, ¬e.op.Displaces k)
    (hlimits : 5 * ((s.proxies.countP fun q =>
        SharedState.checkRank q.status ≤ SharedState.checkRank p.status) +
        (rounds.flatMap HealthRound.events).countP fun e => e.op.arrival.isSome) <
      (rounds.map HealthRound.limit).sum) :
    ∃ r ∈ rounds, ∃ e ∈ r.events, e.Records k := by
  by_contra hnone
  have hrec : ∀ r ∈ rounds, ∀ e ∈ r.events, ¬e.Records k :=
    fun r hr e he h => hnone ⟨r, hr, e, he, h⟩
  have hkeyed := hs.invariant (fun _ _ _ hi hs => hi.storeStep hs)
    (SharedState.allKeyed_withConfig ttl maxProxies countries)
  obtain ⟨full, hfull, hcards, hsteps⟩ :=
    HealthRound.exists_rounds hrun hkeyed ⟨p, hget, rfl, hstale⟩ hrank hstay hrec
  have hbound := (SharedState.accounts_pending hrank).rounds_le hfull
  rw [hcards, hsteps, degree_brings] at hbound
  have hpending := SharedState.degree_pending_le (SharedState.checkRank p.status) s
  omega

namespace HealthRound

open SharedState

def queued : SharedState :=
  (((withConfig 300 5000 []).insertIfAbsent (.new "1.2.3.4" 8080 .http)).2.insertIfAbsent
    (.new "5.6.7.8" 3128 .socks5)).2

/-- Both proxies are checked: the first does not answer. -/
def bothChecked : HealthRound where
  now := ⟨0, 0⟩
  limit := 11
  events := [⟨⟨1, 1⟩, .recordFail "1.2.3.4:8080", none⟩,
    ⟨⟨2, 2⟩, .recordSuccess "5.6.7.8:3128" (.finite 40), none⟩]

def afterBoth : SharedState :=
  (queued.recordFail ⟨1, 1⟩ "1.2.3.4:8080").recordSuccess ⟨2, 2⟩ "5.6.7.8:3128" (.finite 40)

theorem get_queued {k : String} {p : Proxy} (h : queued.proxies.get k = some p) :
    p = .new "5.6.7.8" 3128 .socks5 ∨ p = .new "1.2.3.4" 8080 .http := by
  rcases get_insertIfAbsent h with h | ⟨rfl, -, -⟩
  · rcases get_insertIfAbsent h with h | ⟨rfl, -, -⟩
    · cases h
    · exact Or.inr rfl
  · exact Or.inl rfl

theorem leads_bothChecked : bothChecked.Leads queued afterBoth where
  run := by
    refine .cons ⟨fun k u p hu hget hfail => ?_, rfl⟩ (.single ⟨fun k u p hu hget hfail => ?_, rfl⟩)
    · rcases get_queued hget with rfl | rfl <;> decide
    · obtain ⟨-, rfl⟩ := Prod.mk.inj (Option.some.inj hu)
      cases hfail
  checked := by
    obtain ⟨it⟩ := FinMap.Iteration.nonempty queued.proxies
    refine ⟨it, fun p hp => ?_⟩
    obtain ⟨⟨k, hk⟩, -⟩ := mem_proxiesNeedingCheck hp
    rcases get_queued hk with rfl | rfl
    · exact ⟨⟨⟨2, 2⟩, .recordSuccess "5.6.7.8:3128" (.finite 40), none⟩, by simp [bothChecked],
        .recordSuccess (.finite 40), rfl, trivial⟩
    · exact ⟨⟨⟨1, 1⟩, .recordFail "1.2.3.4:8080", none⟩, by simp [bothChecked], .recordFail, rfl,
        trivial⟩

theorem check_within_both : ∃ r ∈ [bothChecked], ∃ e ∈ r.events, e.Records "5.6.7.8:3128" := by
  have hhistory : Run StoreStep (withConfig 300 5000 [])
      [.op ⟨⟨0, 0⟩, .insertIfAbsent (.new "1.2.3.4" 8080 .http), none⟩,
        .op ⟨⟨0, 0⟩, .insertIfAbsent (.new "5.6.7.8" 3128 .socks5), none⟩] queued :=
    .cons (.op rfl) (.single (.op rfl))
  exact check_within 300 5000 [] hhistory (.single leads_bothChecked) (k := "5.6.7.8:3128")
    (p := .new "5.6.7.8" 3128 .socks5) rfl (by decide) (Or.inr rfl)
    (by simp [bothChecked, Op.Displaces]) (by decide)

end HealthRound

end VpnGateway
