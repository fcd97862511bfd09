import VpnGateway.Pool.Accounting
import VpnGateway.Pool.Metrics
import VpnGateway.Pool.Restart
import VpnGateway.Pool.WarmPool

/-! The metrics of a pool that is read shard by shard while everything else goes on. -/
namespace VpnGateway

open Runs

structure WarmPoolStats where
  totalConnections : ℕ
  proxiesTracked : ℕ
  hits : UInt64
  misses : UInt64

/-- The queues are not locked: each one counts as full. -/
def WarmPool.stats {ι : Type*} (c : WarmSetup ι) (s : WarmPool ι) : WarmPoolStats where
  totalConnections := s.connections.len * c.maxPerProxy
  proxiesTracked := s.connections.len
  hits := s.hits
  misses := s.misses

namespace Metrics

def countCountry (byCountry : FinMap String ℕ) (proxy : Proxy) : FinMap String ℕ :=
  match proxy.country with
  | some country => byCountry.insert country ((byCountry.get country).getD 0 + 1)
  | none => byCountry

/-- Seconds of the streak under way, or of the longest one. -/
def uptimeSecs (now : Clock) (p : Proxy) : ℚ :=
  let current := (p.uptimeStreakStart.map (·.elapsedSecs now)).getD 0
  max current p.uptimeMaxSecs

/-- `is_available` reads the clock anew for the count, for the sum of the latencies and for the
uptimes. -/
structure Readings where
  counted : Clock
  summed : Clock
  uptimes : Clock

def collect (now : Readings) (proxies : List Proxy) (banned activeConnections : ℕ)
    (warmStats : WarmPoolStats) (stickyCount : ℕ) : Metrics :=
  let alive := proxies.countP (·.isAvailable now.counted)
  let latencies := (proxies.filter (·.isAvailable now.summed)).map Proxy.latencyEwma
  let results : Tally := proxies.foldl
    (fun sf p => (sf.1 + p.successCount, sf.2 + p.failCount)) (0, 0)
  let uptimes := (proxies.filter fun p => p.isAvailable now.uptimes && 0 < p.uptimeMaxSecs).map
    (uptimeSecs now.uptimes)
  { proxiesTotal := proxies.length
    proxiesAlive := alive
    proxiesBanned := banned
    avgLatencyMs := .finite (if 0 < alive then latencies.sum / alive else 0)
    connectionsActive := activeConnections
    proxiesByCountry := proxies.foldl countCountry .empty
    successRate := .finite
      (if 0 < results.1 + results.2 then (results.1 : ℚ) / (results.1 + results.2 : ℕ) else 0)
    circuitBreakerTrips := proxies.countP (·.circuitOpenUntil.isSome)
    warmPoolProxies := warmStats.proxiesTracked
    warmPoolHits := warmStats.hits.toNat
    warmPoolMisses := warmStats.misses.toNat
    stickySessionsActive := stickyCount
    avgUptimeSecs := .finite (if uptimes = [] then 0 else uptimes.sum / uptimes.length) }

theorem get_countCountries (proxies : List Proxy) (byCountry : FinMap String ℕ) (c : String) :
    ((proxies.foldl countCountry byCountry).get c).getD 0 =
      (byCountry.get c).getD 0 + proxies.countP (·.country = some c) := by
  induction proxies generalizing byCountry with
  | nil => rfl
  | cons p proxies ih =>
    rw [List.foldl_cons, ih, List.countP_cons]
    cases hp : p.country with
    | none => simp [countCountry, hp]
    | some country =>
      simp only [countCountry, hp, FinMap.get_insert]
      by_cases hc : c = country
      · subst hc
        simp only [if_true, Option.getD_some, decide_true]
        omega
      · simp [hc, Ne.symm hc]

/-- An average over at least as many numbers as it divides by. -/
theorem le_average {xs : List ℚ} {n : ℕ} {lo : ℚ} (hn : 0 < n) (hlo : 0 ≤ lo)
    (hxs : ∀ x ∈ xs, lo ≤ x) (hlen : n ≤ xs.length) : lo ≤ xs.sum / n := by
  have hpos : (0 : ℚ) < n := Nat.cast_pos.mpr hn
  rw [le_div_iff₀ hpos]
  have hsum := List.card_nsmul_le_sum xs lo hxs
  rw [nsmul_eq_mul] at hsum
  have hlen' : (n : ℚ) ≤ xs.length := Nat.cast_le.mpr hlen
  nlinarith

theorem average_le {xs : List ℚ} {n : ℕ} {hi : ℚ} (hn : 0 < n) (hxs : ∀ x ∈ xs, x ≤ hi)
    (hlen : xs.length = n) : xs.sum / n ≤ hi := by
  have hpos : (0 : ℚ) < n := Nat.cast_pos.mpr hn
  rw [div_le_iff₀ hpos]
  have hsum := List.sum_le_card_nsmul xs hi hxs
  rw [nsmul_eq_mul, hlen] at hsum
  rwa [mul_comm]

theorem one_le_uptimeSecs {p : Proxy} (now : Clock) (h : 0 < p.uptimeMaxSecs) :
    1 ≤ uptimeSecs now p := by
  have hcast : (1 : ℚ) ≤ p.uptimeMaxSecs := by exact_mod_cast h
  exact le_max_of_le_right hcast

theorem isAvailable_mono {p : Proxy} {now later : Clock} (hle : now.instant ≤ later.instant)
    (h : p.isAvailable now) : p.isAvailable later := by
  unfold Proxy.isAvailable at *
  cases hp : p.circuitOpenUntil with
  | none => rfl
  | some deadline =>
    simp only [hp, decide_eq_true_eq] at *
    exact h.trans hle

/-- The counters of the records, added up. -/
theorem foldl_counters (proxies : List Proxy) (acc : Tally) :
    proxies.foldl (fun sf p => (sf.1 + p.successCount, sf.2 + p.failCount)) acc =
      acc + (proxies.map Proxy.tally).sum := by
  induction proxies generalizing acc with
  | nil => exact (add_zero acc).symm
  | cons p proxies ih => rw [List.foldl_cons, ih, List.map_cons, List.sum_cons, ← add_assoc]; rfl

/-- The share of the successes. -/
theorem ratio_spec (n m : ℕ) : ∃ q ∈ Set.Icc (0 : ℚ) 1,
    (if 0 < n + m then (n : ℚ) / (n + m : ℕ) else 0) = q ∧ q * (n + m : ℕ) = n := by
  split_ifs with h
  · have hpos : (0 : ℚ) < (n + m : ℕ) := Nat.cast_pos.mpr h
    refine ⟨_, ⟨by positivity, div_le_one_of_le₀ ?_ hpos.le⟩, rfl, div_mul_cancel₀ _ hpos.ne'⟩
    exact_mod_cast Nat.le_add_right n m
  · obtain rfl : n = 0 := by omega
    exact ⟨0, by simp, rfl, zero_mul _⟩

end Metrics

namespace Saving

open SharedState

variable {time : TimeFormat} {shard : String → ℕ} {shards : ℕ} {s : SharedState} {w : Saving}
  {es : List SaveEvent}

/-- Whether the record under the key has the property during the whole scan. -/
def Throughout (time : TimeFormat) (shard : String → ℕ) (w : Saving) (es : List SaveEvent)
    (P : Proxy → Bool) (k : String) : Prop :=
  ∀ u, Visits time shard w es u → ∃ p, u.pool.proxies.get k = some p ∧ P p

/-- Whether it has the property at some time of the scan. -/
def Sometime (time : TimeFormat) (shard : String → ℕ) (w : Saving) (es : List SaveEvent)
    (P : Proxy → Bool) (k : String) : Prop :=
  ∃ u, Visits time shard w es u ∧ ∃ p, u.pool.proxies.get k = some p ∧ P p

/-- Everything counts that has the property throughout, and nothing that never has it, nor
anything twice. -/
structure Between (time : TimeFormat) (shard : String → ℕ) (w : Saving) (es : List SaveEvent)
    (P : Proxy → Bool) (n : ℕ) : Prop where
  throughout : ∀ keys : Finset String, (∀ k ∈ keys, Throughout time shard w es P k) → keys.card ≤ n
  sometime : ∀ keys : Finset String, (∀ k, Sometime time shard w es P k → k ∈ keys) → n ≤ keys.card

theorem between_countP (hs : s.AllStorable) (h : Run (Step time shard) (start s) es w)
    (hshard : ∀ k, shard k < shards) (hdone : w.next = shards) (P : Proxy → Bool) :
    Between time shard (start s) es P (w.seen.countP P) := by
  have hstart : (start s).Orderly shard := orderly_start hs
  have hdistinct := (orderly_run h hstart).distinct
  let counted := (w.seen.filter P).map Proxy.key
  have hcard : counted.toFinset.card = w.seen.countP P := by
    rw [List.toFinset_card_of_nodup (hdistinct.sublist (List.filter_sublist.map _)),
      List.length_map, List.countP_eq_length_filter]
  rw [← hcard]
  constructor
  · intro keys hkeys
    refine Finset.card_le_card fun k hk => ?_
    obtain ⟨p, hp, rfl, hP⟩ := seen_of_stays h hstart (hkeys k hk) (Nat.zero_le _)
      ((hshard k).trans_eq hdone.symm)
    exact List.mem_toFinset.mpr (List.mem_map_of_mem (List.mem_filter.mpr ⟨hp, hP⟩))
  · intro keys hkeys
    refine Finset.card_le_card fun k hk => hkeys k ?_
    obtain ⟨p, hp, rfl⟩ := List.mem_map.mp (List.mem_toFinset.mp hk)
    obtain ⟨hseen, hP⟩ := List.mem_filter.mp hp
    obtain ⟨u, hu, hget⟩ := (visited_of_seen h hstart hseen).resolve_left List.not_mem_nil
    exact ⟨u, hu, p, hget, hP⟩

end Saving

end VpnGateway
