import VpnGateway.Core.FinMap
import VpnGateway.Pool.Proxy

/-! Client-to-proxy affinity: the session table, its dynamic time to live and its expiry. -/
namespace VpnGateway

inductive IpAddr where
  | v4 (bits : UInt32)
  | v6 (bits : BitVec 128)
  deriving DecidableEq

/-- The address a connection arrives from: the client's IP and its ephemeral port. -/
structure SocketAddr where
  ip : IpAddr
  port : UInt16
  deriving DecidableEq

/-- `x as i64`. -/
def asI64 (x : ℤ) : ℤ := x.bmod 18446744073709551616

/-- `TimeDelta::seconds`; `none` where it panics. -/
def durationSeconds (seconds : ℤ) : Option ℤ :=
  if -9223372036854775 ≤ seconds ∧ seconds ≤ 9223372036854775 then some (seconds * 1000000000)
  else none

/-- `DateTime - TimeDelta`; `none` where the result leaves the range of dates and it panics. -/
def DateTime.sub (t : DateTime) (d : ℤ) : Option DateTime :=
  if -8334601228800 * 1000000000 ≤ t - d ∧ t - d < 8210266876800 * 1000000000 then some (t - d)
  else none

/-- What is younger than `d` was not before the date `d` ago. -/
theorem DateTime.not_lt_of_sub {t u oldest : DateTime} {d : ℤ} (h : DateTime.sub t d = some oldest)
    (hlt : t - u < d) : ¬ u < oldest := by
  have heq : t - d = oldest := by
    unfold DateTime.sub at h
    split_ifs at h
    exact Option.some.inj h
  have hle : t - d < u := by linarith
  exact not_lt.mpr (heq ▸ hle.le)

structure StickySession where
  clientIp : SocketAddr
  proxyKey : String
  backupProxyKey : Option String
  createdAt : DateTime
  lastAccess : DateTime
  successCount : UInt32
  deriving DecidableEq

structure StickySessionManager where
  sessions : FinMap SocketAddr StickySession
  ttlSecs : UInt64

namespace StickySessionManager

def withTtl (ttlSecs : UInt64) : StickySessionManager := ⟨.empty, ttlSecs⟩

def setTtl (m : StickySessionManager) (ttlSecs : UInt64) : StickySessionManager :=
  { m with ttlSecs := ttlSecs }

/-- Base time plus a minute per ten successes, the bonus capped at twice the base. -/
def effectiveTtl (ttlSecs : UInt64) (successCount : UInt32) : Option ℤ :=
  let baseTtl := asI64 ttlSecs.toNat
  let bonusSecs : ℤ := successCount.toNat / 10 * 60
  durationSeconds (asI64 (baseTtl + min bonusSecs (asI64 (baseTtl * 2))))

/-- The key of the client's live session and the table after the lookup, which drops an
expired session. `none` where the date arithmetic panics. -/
def get (m : StickySessionManager) (now : Clock) (client : SocketAddr) :
    Option (Option String × StickySessionManager) :=
  match m.sessions.get client with
  | none => some (none, m)
  | some session =>
    (effectiveTtl m.ttlSecs session.successCount).bind fun ttl =>
      (DateTime.sub now.utc ttl).bind fun oldest =>
        if session.lastAccess < oldest then
          some (none, { m with sessions := m.sessions.remove client })
        else some (some session.proxyKey, m)

def setOrTouch (m : StickySessionManager) (now : Clock) (client : SocketAddr)
    (proxyKey : String) : StickySessionManager :=
  let session : StickySession := match m.sessions.get client with
    | some session =>
      if session.proxyKey = proxyKey then
        { session with lastAccess := now.utc, successCount := session.successCount + 1 }
      else
        { session with
          proxyKey := proxyKey
          backupProxyKey := some session.proxyKey
          lastAccess := now.utc
          successCount := 1 }
    | none =>
      { clientIp := client
        proxyKey := proxyKey
        backupProxyKey := none
        createdAt := now.utc
        lastAccess := now.utc
        successCount := 1 }
  { m with sessions := m.sessions.insert client session }

def getBackup (m : StickySessionManager) (client : SocketAddr) : Option String :=
  (m.sessions.get client).bind (·.backupProxyKey)

/-- Whether `cleanup` keeps the session; `none` where its time to live panics. -/
def keeps (m : StickySessionManager) (now : Clock) (session : StickySession) : Option Bool :=
  (effectiveTtl m.ttlSecs session.successCount).map fun ttl => now.utc - session.lastAccess < ttl

def cleanup (m : StickySessionManager) (now : Clock) : Option StickySessionManager :=
  if ∀ client ∈ m.sessions.keys, (m.sessions.get client).all fun s => (m.keeps now s).isSome then
    some { m with sessions := m.sessions.retain fun s => m.keeps now s == some true }
  else none

@[simp] theorem ttlSecs_setOrTouch (m : StickySessionManager) (now : Clock) (client : SocketAddr)
    (key : String) : (m.setOrTouch now client key).ttlSecs = m.ttlSecs := rfl

/-- After a success the client's session names the proxy and was accessed just now. -/
theorem get_setOrTouch_self (m : StickySessionManager) (now : Clock) (client : SocketAddr)
    (key : String) : ∃ session, (m.setOrTouch now client key).sessions.get client = some session ∧
      session.proxyKey = key ∧ session.lastAccess = now.utc := by
  refine ⟨_, FinMap.get_insert_self _ _ _, ?_⟩
  split
  · split
    next hk => exact ⟨hk, rfl⟩
    next => exact ⟨rfl, rfl⟩
  · exact ⟨rfl, rfl⟩

theorem get_setOrTouch_of_ne (m : StickySessionManager) (now : Clock) {client other : SocketAddr}
    (key : String) (h : other ≠ client) :
    (m.setOrTouch now client key).sessions.get other = m.sessions.get other :=
  FinMap.get_insert_of_ne _ _ h

/-- A lookup answers from the session or drops it; it never touches another entry. -/
theorem get_cases {m m' : StickySessionManager} {now : Clock} {client : SocketAddr}
    {answer : Option String} (h : m.get now client = some (answer, m')) :
    m' = m ∨ answer = none ∧ m' = { m with sessions := m.sessions.remove client } := by
  unfold get at h
  cases hs : m.sessions.get client with
  | none =>
    simp only [hs, Option.some.injEq, Prod.mk.injEq] at h
    exact Or.inl h.2.symm
  | some session =>
    rw [hs] at h
    obtain ⟨ttl, -, h⟩ := Option.bind_eq_some_iff.mp h
    obtain ⟨oldest, -, h⟩ := Option.bind_eq_some_iff.mp h
    split at h
    · simp only [Option.some.injEq, Prod.mk.injEq] at h
      exact Or.inr ⟨h.1.symm, h.2.symm⟩
    · simp only [Option.some.injEq, Prod.mk.injEq] at h
      exact Or.inl h.2.symm

theorem get_sessions_of_ne {m m' : StickySessionManager} {now : Clock} {client other : SocketAddr}
    {answer : Option String} (h : m.get now client = some (answer, m')) (hne : other ≠ client) :
    m'.sessions.get other = m.sessions.get other := by
  rcases get_cases h with rfl | ⟨-, rfl⟩
  · rfl
  · simp [FinMap.get_remove, hne]

/-- `cleanup` removes sessions and changes none. -/
theorem get_of_cleanup {m m' : StickySessionManager} {now : Clock} {client : SocketAddr}
    {session : StickySession} (h : m.cleanup now = some m')
    (hs : m'.sessions.get client = some session) : m.sessions.get client = some session := by
  unfold cleanup at h
  split at h
  · cases h
    exact (FinMap.get_retain_some.mp hs).1
  · cases h

/-- A session younger than its time to live survives `cleanup`. -/
theorem cleanup_get_of_young {m m' : StickySessionManager} {now : Clock} {client : SocketAddr}
    {session : StickySession} {ttl : ℤ} (h : m.cleanup now = some m')
    (hs : m.sessions.get client = some session)
    (httl : effectiveTtl m.ttlSecs session.successCount = some ttl)
    (hyoung : now.utc - session.lastAccess < ttl) : m'.sessions.get client = some session := by
  unfold cleanup at h
  split at h
  · cases h
    exact FinMap.get_retain_some.mpr ⟨hs, by simp [keeps, httl, hyoung]⟩
  · cases h

end StickySessionManager

end VpnGateway
