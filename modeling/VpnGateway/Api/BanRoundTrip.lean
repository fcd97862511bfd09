import VpnGateway.Pool.Keys

/-! A ban and the unban after it, for every record that the other endpoints can create: the ban
takes the key apart at its colons, and a host may contain colons. -/
namespace VpnGateway

namespace SharedState

/-- The ban succeeds and moves this record and nothing else, and an unban right after it restores
both maps. -/
structure BansBack (s : SharedState) (k : String) (p : Proxy) : Prop where
  succeeds : (s.banProxy k).1.success = true
  live : ∀ j, (s.banProxy k).2.proxies.get j = if j = k then none else s.proxies.get j
  banned : ∀ j, (s.banProxy k).2.banned.get j = if j = k then some p else s.banned.get j
  unban : ((s.banProxy k).2.unbanProxy k).1.success = true
  live_restored : ((s.banProxy k).2.unbanProxy k).2.proxies = s.proxies
  banned_restored : ((s.banProxy k).2.unbanProxy k).2.banned = s.banned

variable {s : SharedState} {p : Proxy}

/-- The key of a record takes apart into host and port exactly if the host has no colon. -/
theorem banProxy_success_iff (hp : s.proxies.get p.key = some p) :
    (s.banProxy p.key).1.success = true ↔ ':' ∉ p.host.toList := by
  constructor
  · intro h
    unfold banProxy at h
    split at h
    next host port hsplit =>
      rw [Proxy.toList_key] at hsplit
      exact Text.notMem_of_splitOn hsplit
    next => cases h
  · intro h
    have hport : ':' ∉ (toString p.port.toNat).toList := Text.notMem_toString rfl _
    have hsplit : p.key.toList.splitOn ':' = [p.host.toList, (toString p.port.toNat).toList] := by
      rw [Proxy.toList_key]
      exact Text.splitOn_two h hport
    have hkey := eq_of_splitOn hsplit
    unfold banProxy
    rw [hsplit]
    dsimp only
    rw [Text.parseU16_toString p.port.toNat_lt, hkey, hp]
    rfl

/-- A ban that succeeds moves the record, and the unban after it moves it back. -/
theorem bansBack_of_success (hp : s.proxies.get p.key = some p) (hnot : p.key ∉ s.banned)
    (h : (s.banProxy p.key).1.success = true) : s.BansBack p.key p := by
  rcases s.banProxy_cases p.key with ⟨message, hban⟩ | ⟨q, message, hq, hban⟩
  · rw [hban] at h
    cases h
  · obtain rfl : p = q := Option.some.inj (hp.symm.trans hq)
    have hunban := unbanProxy_cases (s.banProxy p.key).2 p.key
    rw [hban] at hunban
    rcases hunban with ⟨hnone, -⟩ | ⟨q, message', hq', hunban⟩
    · simp at hnone
    obtain rfl : p = q := Option.some.inj ((FinMap.get_insert_self _ _ _).symm.trans hq')
    refine ⟨h, fun j => ?_, fun j => ?_, ?_, ?_, ?_⟩
    · rw [hban]
      exact FinMap.get_remove _ _ _
    · rw [hban]
      exact FinMap.get_insert _ _ _ _
    · rw [hban, hunban]
    · rw [hban, hunban]
      ext1 j
      rw [FinMap.get_insert, FinMap.get_remove]
      split_ifs with hj
      · rw [hj, hp]
      · rfl
    · rw [hban, hunban]
      ext1 j
      rw [FinMap.get_remove, FinMap.get_insert]
      split_ifs with hj
      · rw [hj, FinMap.notMem_iff.mp hnot]
      · rfl

end SharedState

/-- In every reachable state, a record that is not banned already can be banned and brought back
exactly if its host has no colon. -/
theorem bansBack_iff (ttl : UInt64) (maxProxies : ℕ) (countries : List String)
    {es : List SharedState.StoreEvent} {s : SharedState}
    (h : Runs.Run SharedState.StoreStep (.withConfig ttl maxProxies countries) es s) {k : String}
    {p : Proxy} (hp : s.proxies.get k = some p) (hnot : k ∉ s.banned) :
    s.BansBack k p ↔ ':' ∉ p.host.toList := by
  have hs := h.invariant (fun _ _ _ hi hs => hi.storeStep hs)
    (SharedState.allKeyed_withConfig ttl maxProxies countries)
  obtain rfl := hs.live k p hp
  constructor
  · intro hback
    exact (SharedState.banProxy_success_iff hp).mp hback.succeeds
  · intro hhost
    exact SharedState.bansBack_of_success hp hnot ((SharedState.banProxy_success_iff hp).mpr hhost)

namespace SharedState

/-- A pool to which this endpoint was added. -/
def poolWith (payload : AddProxyRequest) : SharedState :=
  ((withConfig 300 5000 []).addProxy payload).2

theorem run_poolWith (payload : AddProxyRequest) : ∃ es,
    Runs.Run StoreStep (withConfig 300 5000 []) es (poolWith payload) :=
  ⟨[.op ⟨⟨0, 0⟩, .addProxy payload, some ((withConfig 300 5000 []).addProxy payload).1⟩],
    .single (.op rfl)⟩

theorem bansBack_ipv4 : (poolWith ⟨"1.2.3.4", 8080, none⟩).BansBack "1.2.3.4:8080"
    (.new "1.2.3.4" 8080 .http) := by
  obtain ⟨es, h⟩ := run_poolWith ⟨"1.2.3.4", 8080, none⟩
  exact (bansBack_iff 300 5000 [] h rfl (by decide)).mpr (by decide)

/-- An IPv6 endpoint, which the pool accepts, cannot be banned. -/
theorem not_bansBack_ipv6 :
    (∃ es, Runs.Run StoreStep (withConfig 300 5000 []) es (poolWith ⟨"::1", 8080, none⟩)) ∧
    (poolWith ⟨"::1", 8080, none⟩).proxies.get "::1:8080" = some (.new "::1" 8080 .http) ∧
    "::1:8080" ∉ (poolWith ⟨"::1", 8080, none⟩).banned ∧
    (poolWith ⟨"::1", 8080, none⟩).banProxy "::1:8080" =
      (⟨false, "Invalid proxy key format. Use host:port"⟩, poolWith ⟨"::1", 8080, none⟩) ∧
    ¬ (poolWith ⟨"::1", 8080, none⟩).BansBack "::1:8080" (.new "::1" 8080 .http) := by
  have hrefused : (poolWith ⟨"::1", 8080, none⟩).banProxy "::1:8080" =
      (⟨false, "Invalid proxy key format. Use host:port"⟩, poolWith ⟨"::1", 8080, none⟩) := rfl
  refine ⟨run_poolWith _, rfl, by decide, hrefused, fun hback => ?_⟩
  have hsuccess := hback.succeeds
  rw [hrefused] at hsuccess
  cases hsuccess

end SharedState

end VpnGateway
