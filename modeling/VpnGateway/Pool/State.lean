import VpnGateway.Pool.StickySessions

/-! The shared state of the gateway and the operations that change its pool. Each one is
atomic here; a claim about finer interleavings splits it into its map operations. -/
namespace VpnGateway

structure SharedState where
  proxies : FinMap String Proxy
  banned : FinMap String Proxy
  proxyRotations : ℕ
  stickySessions : StickySessionManager
  maxProxies : ℕ
  geoIndex : FinMap String (List String)
  excludeCountries : List String

namespace SharedState

def withConfig (stickyTtlSecs : UInt64) (maxProxies : ℕ) (excludeCountries : List String) :
    SharedState where
  proxies := .empty
  banned := .empty
  proxyRotations := 0
  stickySessions := .withTtl stickyTtlSecs
  maxProxies := maxProxies
  geoIndex := .empty
  excludeCountries := excludeCountries

/-- Whether the pool has a size limit and has reached it. -/
def IsFull (s : SharedState) : Prop := 0 < s.maxProxies ∧ s.maxProxies ≤ s.proxies.len

instance (s : SharedState) : Decidable s.IsFull := inferInstanceAs (Decidable (_ ∧ _))

/-- Whether the proxy was inserted, and the state after the attempt. -/
def insertIfAbsent (s : SharedState) (proxy : Proxy) : Bool × SharedState :=
  if s.IsFull then (false, s)
  else if proxy.key ∈ s.proxies then (false, s)
  else (true, { s with proxies := s.proxies.insert proxy.key proxy })

def addVerified (s : SharedState) (proxy : Proxy) : SharedState :=
  let proxy := { proxy with status := some .verified }
  { s with proxies := s.proxies.insert proxy.key proxy }

def recordSuccess (s : SharedState) (now : Clock) (key : String) (latencyMs : F64) : SharedState :=
  { s with proxies := s.proxies.modify key (·.recordSuccess now latencyMs) }

def recordFail (s : SharedState) (now : Clock) (key : String) : SharedState :=
  { s with
    proxies := s.proxies.modify key (·.recordFail now)
    proxyRotations := s.proxyRotations + 1 }

def setTlsClean (s : SharedState) (key : String) (clean : Bool) : SharedState :=
  { s with proxies := s.proxies.modify key (·.setTlsClean clean) }

/-- `GeoIndex::insert`. -/
def updateGeoIndex (s : SharedState) (key country : String) : SharedState :=
  let keys := (s.geoIndex.get country).getD []
  { s with
    geoIndex := s.geoIndex.insert country (if key ∈ keys then keys else keys ++ [key]) }

/-- The end of a GeoIP lookup: the country goes into the record, if it is still there, and
into the index. -/
def geoipResult (s : SharedState) (key country : String) : SharedState :=
  { s with proxies := s.proxies.modify key (·.setCountry country) }.updateGeoIndex key country

/-- Whether `cleanup_stale` keeps the record. -/
def keepsStale (now : Clock) (p : Proxy) : Bool :=
  if 0 < p.successCount then true
  else match p.lastCheck with
    | some checked => numHours (now.utc - checked) < 24
    | none => true

def cleanupStale (s : SharedState) (now : Clock) : SharedState :=
  { s with proxies := s.proxies.retain (keepsStale now) }

/-- The config reload loop: the session TTL and the excluded countries. -/
def reloadConfig (s : SharedState) (stickyTtlSecs : UInt64) (excludeCountries : List String) :
    SharedState :=
  { s with
    stickySessions := s.stickySessions.setTtl stickyTtlSecs
    excludeCountries := excludeCountries }

/-- `sticky_sessions.get`, which may drop the session; `none` where it panics. -/
def stickyGet (s : SharedState) (now : Clock) (peer : SocketAddr) :
    Option (Option String × SharedState) :=
  (s.stickySessions.get now peer).map fun (key, sessions) =>
    (key, { s with stickySessions := sessions })

def setOrTouch (s : SharedState) (now : Clock) (peer : SocketAddr) (key : String) : SharedState :=
  { s with stickySessions := s.stickySessions.setOrTouch now peer key }

def cleanupSessions (s : SharedState) (now : Clock) : Option SharedState :=
  (s.stickySessions.cleanup now).map fun sessions => { s with stickySessions := sessions }

def verifiedCount (s : SharedState) : ℕ := s.proxies.countP fun p => p.status = some .verified

def availableCount (s : SharedState) (now : Clock) : ℕ := s.proxies.countP (·.isAvailable now)

def tlsCleanCount (s : SharedState) : ℕ := s.proxies.countP fun p => p.tlsClean = some true

def tlsDirtyCount (s : SharedState) : ℕ := s.proxies.countP fun p => p.tlsClean = some false

/-- Whether the health check should visit the proxy. -/
def needsCheck (now : Clock) (p : Proxy) : Bool :=
  match p.status, p.lastCheck with
  | some .unchecked, _ => true
  | none, _ => true
  | some .presumedAlive, _ => true
  | some .verified, some last => 60 < numSeconds (now.utc - last)
  | some .failed, _ => p.isAvailable now
  | some .verified, none => false

/-- Unchecked first, then PresumedAlive, then Verified, then Failed. -/
def checkRank : Option ProxyStatus → ℕ
  | some .unchecked => 0
  | none => 0
  | some .presumedAlive => 1
  | some .verified => 2
  | some .failed => 3

def proxiesNeedingCheck (s : SharedState) (it : s.proxies.Iteration) (now : Clock) (limit : ℕ) :
    List Proxy :=
  let candidates := it.values.filter (needsCheck now)
  (candidates.mergeSort fun a b => checkRank a.status ≤ checkRank b.status).take limit

theorem mem_proxiesNeedingCheck {s : SharedState} {it : s.proxies.Iteration} {now : Clock}
    {limit : ℕ} {p : Proxy} (h : p ∈ s.proxiesNeedingCheck it now limit) :
    (∃ k, s.proxies.get k = some p) ∧ needsCheck now p := by
  have hmem := List.mem_of_mem_take h
  rw [List.mem_mergeSort, List.mem_filter] at hmem
  exact ⟨FinMap.Iteration.mem_values.mp hmem.1, hmem.2⟩

/-- A limit that is large enough cuts no candidate off. -/
theorem mem_proxiesNeedingCheck_of_le {s : SharedState} (it : s.proxies.Iteration) {now : Clock}
    {limit : ℕ} {k : String} {p : Proxy} (hget : s.proxies.get k = some p)
    (hneeds : needsCheck now p) (hlimit : s.proxies.countP (needsCheck now) ≤ limit) :
    p ∈ s.proxiesNeedingCheck it now limit := by
  have hlen : (it.values.filter (needsCheck now)).length ≤ limit := by
    rwa [← List.countP_eq_length_filter, it.countP_values]
  show p ∈ ((it.values.filter (needsCheck now)).mergeSort _).take limit
  rw [List.take_of_length_le (by rwa [List.length_mergeSort]), List.mem_mergeSort,
    List.mem_filter]
  exact ⟨FinMap.Iteration.mem_values.mpr ⟨k, hget⟩, hneeds⟩

/-- An entry of the pool after an insertion is an old one or the new one. -/
theorem get_insertIfAbsent {s : SharedState} {proxy p : Proxy} {k : String}
    (h : (s.insertIfAbsent proxy).2.proxies.get k = some p) :
    s.proxies.get k = some p ∨ p = proxy ∧ k = proxy.key ∧ ¬ s.IsFull := by
  unfold insertIfAbsent at h
  split_ifs at h with hfull hin
  · exact Or.inl h
  · exact Or.inl h
  · rw [FinMap.get_insert] at h
    split_ifs at h with hk
    · exact Or.inr ⟨(Option.some.inj h).symm, hk, hfull⟩
    · exact Or.inl h

/-- With room for it, a proxy is filed under its key, unless one is there. -/
theorem insertIfAbsent_of_room {s : SharedState} {p : Proxy}
    (hroom : s.maxProxies = 0 ∨ (s.proxies.orInsert p.key p).len ≤ s.maxProxies) :
    (s.insertIfAbsent p).2 = { s with proxies := s.proxies.orInsert p.key p } := by
  by_cases hin : p.key ∈ s.proxies
  · simp [insertIfAbsent, FinMap.orInsert, hin]
  · have hlen : (s.proxies.orInsert p.key p).len = s.proxies.len + 1 := by
      rw [FinMap.orInsert, if_neg hin, FinMap.len_insert_of_notMem hin]
    have hfull : ¬ s.IsFull := by
      rintro ⟨hpos, hmax⟩
      omega
    simp [insertIfAbsent, FinMap.orInsert, hin, hfull]

/-- With room for all of them, the first proxy of each key that is not there is filed. -/
theorem foldl_insertIfAbsent {proxies : List Proxy} {s : SharedState}
    (hroom : s.maxProxies = 0 ∨ (s.proxies.insertAll Proxy.key proxies).len ≤ s.maxProxies) :
    proxies.foldl (fun s p => (s.insertIfAbsent p).2) s =
      { s with proxies := s.proxies.insertAll Proxy.key proxies } := by
  induction proxies generalizing s with
  | nil => rfl
  | cons p proxies ih =>
    have hle : (s.proxies.orInsert p.key p).len ≤
        (s.proxies.insertAll Proxy.key (p :: proxies)).len :=
      (s.proxies.orInsert p.key p).len_le_insertAll Proxy.key proxies
    rw [List.foldl_cons, insertIfAbsent_of_room (hroom.imp_right hle.trans), ih hroom]
    rfl

theorem insertIfAbsent_banned (s : SharedState) (proxy : Proxy) :
    (s.insertIfAbsent proxy).2.banned = s.banned := by
  unfold insertIfAbsent
  split_ifs <;> rfl

end SharedState

end VpnGateway
