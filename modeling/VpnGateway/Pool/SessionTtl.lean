import VpnGateway.Pool.StickySessions

/-! The arithmetic behind the dynamic time to live: for which configured values none of its steps
wraps around or panics. -/
namespace VpnGateway

namespace StickySessionManager

/-- The time to live in seconds, as it is without a bound on integers. -/
def exactTtl (ttlSecs : UInt64) (successCount : UInt32) : ℕ :=
  ttlSecs.toNat + min (successCount.toNat / 10 * 60) (ttlSecs.toNat * 2)

/-- Every value on the way to the time to live fits an `i64`. -/
structure NoWrap (ttlSecs : UInt64) (successCount : UInt32) : Prop where
  base : asI64 ttlSecs.toNat = ttlSecs.toNat
  twice : asI64 (ttlSecs.toNat * 2) = ttlSecs.toNat * 2
  bonus : asI64 (successCount.toNat / 10 * 60) = successCount.toNat / 10 * 60
  sum : asI64 (exactTtl ttlSecs successCount) = exactTtl ttlSecs successCount

/-- The session's time to live lies between once and three times the configured one, is no shorter
than with fewer successes, and neither a lookup nor the clean-up wraps around or panics over it. -/
structure TtlSound (m : StickySessionManager) (now : Clock) (client : SocketAddr)
    (session : StickySession) : Prop where
  exact : NoWrap m.ttlSecs session.successCount
  bounded : ∃ ttl : ℤ, effectiveTtl m.ttlSecs session.successCount = some ttl ∧
    fromSecs m.ttlSecs.toNat ≤ ttl ∧ ttl ≤ 3 * fromSecs m.ttlSecs.toNat
  monotone : ∀ fewer ≤ session.successCount, ∃ less ttl,
    effectiveTtl m.ttlSecs fewer = some less ∧
      effectiveTtl m.ttlSecs session.successCount = some ttl ∧ less ≤ ttl
  lookup : (m.get now client).isSome
  sweep : (m.keeps now session).isSome

/-- The exact time to live fits a `TimeDelta`, and the date so long ago is one that chrono has. -/
structure TtlFits (ttlSecs : UInt64) (successCount : UInt32) (now : DateTime) : Prop where
  duration : exactTtl ttlSecs successCount ≤ 9223372036854775
  first : -8334601228800 * 1000000000 ≤ now - fromSecs (exactTtl ttlSecs successCount)
  last : now - fromSecs (exactTtl ttlSecs successCount) < 8210266876800 * 1000000000

theorem asI64_of_lt {n : ℕ} (h : n < 9223372036854775808) : asI64 n = n :=
  Int.bmod_eq_of_le (by omega) (by omega)

theorem exactTtl_mono (ttlSecs : UInt64) {fewer successCount : UInt32}
    (h : fewer ≤ successCount) : exactTtl ttlSecs fewer ≤ exactTtl ttlSecs successCount := by
  have hle : fewer.toNat ≤ successCount.toNat := UInt32.le_iff_toNat_le.mp h
  unfold exactTtl
  gcongr

theorem noWrap_of_le {ttlSecs : UInt64} {successCount : UInt32}
    (h : exactTtl ttlSecs successCount ≤ 9223372036854775) : NoWrap ttlSecs successCount := by
  have hbase : ttlSecs.toNat ≤ exactTtl ttlSecs successCount := Nat.le_add_right _ _
  have hcount := successCount.toNat_lt
  exact ⟨asI64_of_lt (by omega), by exact_mod_cast asI64_of_lt (n := ttlSecs.toNat * 2) (by omega),
    by exact_mod_cast asI64_of_lt (n := successCount.toNat / 10 * 60) (by omega),
    asI64_of_lt (by omega)⟩

/-- Without a wrap-around, the time to live is the exact one if it fits a `TimeDelta`. -/
theorem effectiveTtl_of_noWrap {ttlSecs : UInt64} {successCount : UInt32}
    (h : NoWrap ttlSecs successCount) : effectiveTtl ttlSecs successCount =
      if exactTtl ttlSecs successCount ≤ 9223372036854775 then
        some (fromSecs (exactTtl ttlSecs successCount) : ℤ)
      else none := by
  have hexact : (ttlSecs.toNat : ℤ) +
      min ((successCount.toNat : ℤ) / 10 * 60) ((ttlSecs.toNat : ℤ) * 2) =
        exactTtl ttlSecs successCount := by
    unfold exactTtl
    push_cast
    rfl
  unfold effectiveTtl durationSeconds
  simp only [h.base, h.twice]
  rw [hexact, h.sum]
  split_ifs with hrange hle hle
  · rw [fromSecs, Nat.cast_mul]
    rfl
  · omega
  · omega
  · rfl

theorem effectiveTtl_of_le {ttlSecs : UInt64} {successCount : UInt32}
    (h : exactTtl ttlSecs successCount ≤ 9223372036854775) :
    effectiveTtl ttlSecs successCount = some (fromSecs (exactTtl ttlSecs successCount) : ℤ) := by
  rw [effectiveTtl_of_noWrap (noWrap_of_le h), if_pos h]

/-- A lookup panics exactly where the time to live or the date before it does. -/
theorem isSome_get {m : StickySessionManager} {client : SocketAddr} {session : StickySession}
    (hs : m.sessions.get client = some session) {ttl : ℤ}
    (httl : effectiveTtl m.ttlSecs session.successCount = some ttl) (now : Clock) :
    (m.get now client).isSome = (DateTime.sub now.utc ttl).isSome := by
  unfold get
  simp only [hs, httl, Option.bind_some]
  cases hdate : DateTime.sub now.utc ttl with
  | none => rfl
  | some oldest =>
    rw [Option.bind_some]
    split_ifs <;> rfl

/-- A session's time to live is what it is documented to be, and no lookup of the session and no
clean-up panics over it, exactly where the exact value fits chrono's types. -/
theorem ttlSound_iff {m : StickySessionManager} {client : SocketAddr} {session : StickySession}
    (hs : m.sessions.get client = some session) (now : Clock) :
    m.TtlSound now client session ↔ TtlFits m.ttlSecs session.successCount now.utc := by
  constructor
  · intro hsound
    obtain ⟨ttl, httl, -, -⟩ := hsound.bounded
    have hdate := hsound.lookup
    rw [isSome_get hs httl] at hdate
    rw [effectiveTtl_of_noWrap hsound.exact] at httl
    obtain ⟨hle, hexact⟩ := Option.ite_none_right_eq_some.mp httl
    obtain rfl := Option.some.inj hexact
    unfold DateTime.sub at hdate
    split_ifs at hdate with hrange
    · exact ⟨hle, hrange.1, hrange.2⟩
    · cases hdate
  · intro hfits
    have httl := effectiveTtl_of_le hfits.duration
    have hbonus : min (session.successCount.toNat / 10 * 60) (m.ttlSecs.toNat * 2) ≤
        m.ttlSecs.toNat * 2 := min_le_right _ _
    refine ⟨noWrap_of_le hfits.duration, ⟨_, httl, ?_, ?_⟩, ?_, ?_, ?_⟩
    · simp only [fromSecs, exactTtl]
      omega
    · simp only [fromSecs, exactTtl]
      omega
    · intro fewer hfewer
      have hmono := exactTtl_mono m.ttlSecs hfewer
      refine ⟨_, _, effectiveTtl_of_le (hmono.trans hfits.duration), httl, ?_⟩
      simp only [fromSecs]
      omega
    · rw [isSome_get hs httl, DateTime.sub, if_pos ⟨hfits.first, hfits.last⟩]
      rfl
    · rw [keeps, httl]
      rfl

/-- A client that has just been served for the tenth time, under this configuration. -/
def tenthSuccess (ttlSecs : UInt64) : StickySession × StickySessionManager :=
  let session : StickySession :=
    { clientIp := ⟨.v4 167772162, 40000⟩
      proxyKey := "1.2.3.4:8080"
      backupProxyKey := none
      createdAt := 1700000000000000000
      lastAccess := 1700000000000000000
      successCount := 10 }
  (session, ⟨FinMap.empty.insert session.clientIp session, ttlSecs⟩)

theorem ttlSound_default :
    (tenthSuccess 300).2.TtlSound ⟨0, 1700000060000000000⟩ ⟨.v4 167772162, 40000⟩
      (tenthSuccess 300).1 :=
  (ttlSound_iff rfl ⟨0, 1700000060000000000⟩).mpr ⟨by decide, by decide, by decide⟩

/-- With ten quadrillion seconds `Duration::seconds` panics, with nine trillion the subtraction
from the current date, and the largest value makes a time to live of minus three seconds. -/
theorem ttl_unsound :
    let now : Clock := ⟨0, 1700000060000000000⟩
    (∀ ttlSecs ∈ [10000000000000000, 9000000000000, 18446744073709551615],
      ¬(tenthSuccess ttlSecs).2.TtlSound now ⟨.v4 167772162, 40000⟩ (tenthSuccess ttlSecs).1) ∧
    effectiveTtl 10000000000000000 10 = none ∧
    (tenthSuccess 9000000000000).2.get now ⟨.v4 167772162, 40000⟩ = none ∧
    effectiveTtl 18446744073709551615 10 = some (-3000000000) := by
  intro now
  have hpanics : effectiveTtl 10000000000000000 10 = none := by decide
  have hdate : (tenthSuccess 9000000000000).2.get now ⟨.v4 167772162, 40000⟩ = none := by decide
  have hminus : effectiveTtl 18446744073709551615 10 = some (-3000000000) := by decide
  refine ⟨?_, hpanics, hdate, hminus⟩
  simp only [List.forall_mem_cons]
  refine ⟨fun hsound => ?_, fun hsound => ?_, fun hsound => ?_, by simp⟩
  · obtain ⟨ttl, httl, -, -⟩ := hsound.bounded
    have hsome : effectiveTtl 10000000000000000 10 = some ttl := httl
    rw [hpanics] at hsome
    cases hsome
  · have hlookup := hsound.lookup
    rw [hdate] at hlookup
    cases hlookup
  · have hbase : asI64 18446744073709551615 = 18446744073709551615 := hsound.exact.base
    revert hbase
    decide

end StickySessionManager

end VpnGateway
