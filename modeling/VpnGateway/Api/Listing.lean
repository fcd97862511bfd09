import VpnGateway.Api.BanRoundTrip
import VpnGateway.Pool.Collect

/-! The list of proxies that the API shows, read shard by shard while the pool changes, and what a
client can do with an entry of it. -/
namespace VpnGateway

open Runs

/-- The `Debug` text of a protocol, in lower case. -/
def Protocol.label : Protocol → String
  | .http => "http"
  | .socks5 => "socks5"
  | .https => "https"

structure ProxyInfo where
  host : String
  port : UInt16
  protocol : String
  latencyMs : ℚ
  successCount : ℕ
  failCount : ℕ
  available : Bool
  country : Option String
  tlsClean : Option Bool

namespace ProxyInfo

def ofProxy (p : Proxy) : ProxyInfo where
  host := p.host
  port := p.port
  protocol := p.protocol.label
  latencyMs := p.latencyEwma
  successCount := p.successCount
  failCount := p.failCount
  available := true
  country := p.country
  tlsClean := p.tlsClean

/-- How a client names the proxy. -/
def key (info : ProxyInfo) : String := s!"{info.host}:{info.port}"

end ProxyInfo

/-- `now` tells when the filter comes to the record of a key. -/
def listProxies (now : String → Clock) (proxies : List Proxy) : List ProxyInfo :=
  ((proxies.filter fun p => p.isAvailable (now p.key)).map ProxyInfo.ofProxy).mergeSort
    fun a b => a.latencyMs ≤ b.latencyMs

theorem mem_listProxies {now : String → Clock} {proxies : List Proxy} {info : ProxyInfo} :
    info ∈ listProxies now proxies ↔
      ∃ p ∈ proxies, p.isAvailable (now p.key) ∧ info = .ofProxy p := by
  rw [listProxies, List.mem_mergeSort, List.mem_map]
  constructor
  · rintro ⟨p, hp, rfl⟩
    exact ⟨p, (List.mem_filter.mp hp).1, (List.mem_filter.mp hp).2, rfl⟩
  · rintro ⟨p, hp, havailable, rfl⟩
    exact ⟨p, List.mem_filter.mpr ⟨hp, havailable⟩, rfl⟩

/-- The fastest ones first. -/
theorem pairwise_listProxies (now : String → Clock) (proxies : List Proxy) :
    (listProxies now proxies).Pairwise fun a b => a.latencyMs ≤ b.latencyMs := by
  have hsorted : (listProxies now proxies).Pairwise
      fun a b => decide (a.latencyMs ≤ b.latencyMs) = true :=
    List.pairwise_mergeSort
      (fun a b c hab hbc =>
        decide_eq_true ((of_decide_eq_true hab).trans (of_decide_eq_true hbc)))
      (fun a b => by simpa using le_total a.latencyMs b.latencyMs) _
  exact hsorted.imp of_decide_eq_true

theorem nodup_keys_listProxies {now : String → Clock} {proxies : List Proxy}
    (h : (proxies.map Proxy.key).Nodup) : ((listProxies now proxies).map ProxyInfo.key).Nodup := by
  have hperm := (List.mergeSort_perm ((proxies.filter fun p =>
    p.isAvailable (now p.key)).map ProxyInfo.ofProxy) fun a b => a.latencyMs ≤ b.latencyMs).map
      ProxyInfo.key
  refine hperm.nodup_iff.mpr ?_
  rw [List.map_map]
  exact h.sublist (List.filter_sublist.map Proxy.key)

/-- A request to ban a proxy under its own name is refused, or takes its record out. -/
theorem SharedState.AllStorable.banProxy_key {s : SharedState} (hs : s.AllStorable) (p : Proxy) :
    ((s.banProxy p.key).1.success = true ↔ p.key ∈ s.proxies ∧ ':' ∉ p.host.toList) ∧
    ((s.banProxy p.key).1.success = true →
      (s.banProxy p.key).2.proxies = s.proxies.remove p.key) ∧
    ((s.banProxy p.key).1.success = false → (s.banProxy p.key).2 = s) := by
  have hiff : (s.banProxy p.key).1.success = true ↔ p.key ∈ s.proxies ∧ ':' ∉ p.host.toList := by
    cases hget : s.proxies.get p.key with
    | none =>
      have hnot : p.key ∉ s.proxies := FinMap.notMem_iff.mpr hget
      rcases s.banProxy_cases p.key with ⟨message, hban⟩ | ⟨q, -, hq, -⟩
      · rw [hban]
        exact iff_of_false Bool.false_ne_true fun h => hnot h.1
      · cases hget.symm.trans hq
    | some q =>
      have hkey := (hs.live p.key q hget).key
      have hsuccess := SharedState.banProxy_success_iff (s := s) (p := q) (by rw [hkey, hget])
      rw [hkey, (Proxy.key_inj.mp hkey).1] at hsuccess
      rw [hsuccess]
      exact (and_iff_right (FinMap.mem_of_get hget)).symm
  rcases s.banProxy_cases p.key with ⟨message, hban⟩ | ⟨q, message, -, hban⟩
  · exact ⟨hiff, by simp [hban], by simp [hban]⟩
  · exact ⟨hiff, by simp [hban], by simp [hban]⟩

namespace Saving

open SharedState

variable {time : TimeFormat} {shard : String → ℕ} {shards : ℕ} {s : SharedState} {w : Saving}
  {es : List SaveEvent}

/-- A list that is read while the pool changes: it is sorted and has each proxy once; each entry
was in the pool at some time of the scan and available when the filter came to it; whoever is
available all the time is listed; and a client can ban exactly the proxy that an entry shows, if
its host has no colon and it is still there. -/
theorem listing_between (hshard : ∀ k, shard k < shards) (ttl : UInt64) (maxProxies : ℕ)
    (countries : List String) {history : List Event}
    (h : Run (PoolStep time) (withConfig ttl maxProxies countries) history s)
    (hscan : Run (Step time shard) (start s) es w) (hdone : w.next = shards)
    (now : String → Clock) :
    (listProxies now w.seen).Pairwise (fun a b => a.latencyMs ≤ b.latencyMs) ∧
    ((listProxies now w.seen).map ProxyInfo.key).Nodup ∧
    (∀ info ∈ listProxies now w.seen, ∃ u p, Visits time shard (start s) es u ∧
      u.pool.proxies.get info.key = some p ∧ p.isAvailable (now info.key) ∧ info = .ofProxy p) ∧
    (∀ k, Throughout time shard (start s) es (·.isAvailable (now k)) k →
      ∃ info ∈ listProxies now w.seen, info.key = k) ∧
    Between time shard (start s) es (fun p => p.isAvailable (now p.key))
      (listProxies now w.seen).length ∧
    ∀ info ∈ listProxies now w.seen,
      ((w.pool.banProxy info.key).1.success = true ↔
        info.key ∈ w.pool.proxies ∧ ':' ∉ info.host.toList) ∧
      ((w.pool.banProxy info.key).1.success = true →
        (w.pool.banProxy info.key).2.proxies = w.pool.proxies.remove info.key) ∧
      ((w.pool.banProxy info.key).1.success = false → (w.pool.banProxy info.key).2 = w.pool) := by
  have hs := allStorable_run ttl maxProxies countries h
  have hstart : (start s).Orderly shard := orderly_start hs
  have horderly := orderly_run hscan hstart
  refine ⟨pairwise_listProxies now w.seen, nodup_keys_listProxies horderly.distinct,
    fun info hinfo => ?_, fun k hk => ?_, ?_, fun info hinfo => ?_⟩
  · obtain ⟨p, hp, havailable, rfl⟩ := mem_listProxies.mp hinfo
    obtain ⟨u, hu, hget⟩ := (visited_of_seen hscan hstart hp).resolve_left List.not_mem_nil
    exact ⟨u, p, hu, hget, havailable, rfl⟩
  · obtain ⟨p, hp, rfl, havailable⟩ := seen_of_stays hscan hstart hk (Nat.zero_le _)
      ((hshard k).trans_eq hdone.symm)
    exact ⟨.ofProxy p, mem_listProxies.mpr ⟨p, hp, havailable, rfl⟩, rfl⟩
  · have hlength : (listProxies now w.seen).length =
        w.seen.countP fun p => p.isAvailable (now p.key) := by
      rw [listProxies, List.length_mergeSort, List.length_map, List.countP_eq_length_filter]
    rw [hlength]
    exact between_countP hs hscan hshard hdone _
  · obtain ⟨p, -, -, rfl⟩ := mem_listProxies.mp hinfo
    exact horderly.storable.banProxy_key p

/-- The list of a pool with one checked proxy, and the ban of what it shows. -/
theorem listing_between_checked : ∃ w : Saving,
    Run (Step epochFormat fun _ => 0) (start checkedPool) [.readShard] w ∧
      ∃ info ∈ listProxies (fun _ => ⟨0, 0⟩) w.seen, info.key = "5.6.7.8:3128" ∧
        info.protocol = "http" ∧ (w.pool.banProxy "5.6.7.8:3128").1.success = true := by
  obtain ⟨it⟩ := FinMap.Iteration.nonempty checkedPool.proxies
  have hscan : Run (Step epochFormat fun _ => 0) (start checkedPool) [.readShard]
      ⟨checkedPool, 1, _⟩ := .single (.readShard it)
  obtain ⟨-, -, hread, hlisted, -, hban⟩ := listing_between (fun _ => Nat.zero_lt_one) 300 5000 []
    run_checkedPool hscan rfl fun _ => ⟨0, 0⟩
  obtain ⟨info, hinfo, hkey⟩ := hlisted "5.6.7.8:3128" fun u hu => by
    rw [visits_checkedPool hu]
    exact ⟨checkedProxy, get_checkedPool, rfl⟩
  obtain ⟨u, p, hu, hp, -, rfl⟩ := hread info hinfo
  rw [visits_checkedPool hu] at hp
  obtain rfl := values_checkedPool ⟨_, hp⟩
  exact ⟨_, hscan, _, hinfo, hkey, rfl, (hban _ hinfo).1.mpr
    ⟨FinMap.mem_of_get get_checkedPool, by decide⟩⟩

end Saving

end VpnGateway
