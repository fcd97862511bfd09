import Mathlib

/-! The record of one upstream proxy: scoring, circuit breaker and what survives a restart.
Latencies and scores are exact rationals; an operation reads the clocks once. -/
namespace VpnGateway

/-- Nanoseconds of the monotonic clock. -/
abbrev Instant := ℕ

/-- Nanoseconds of the UTC clock since the epoch. -/
abbrev DateTime := ℤ

/-- One reading of `Instant::now()` and `Utc::now()`. -/
structure Clock where
  instant : Instant
  utc : DateTime
  deriving DecidableEq

/-- `Duration::from_secs`. -/
def fromSecs (n : ℕ) : ℕ := n * 1000000000

/-- `Duration::as_secs` of the time since `start`; `elapsed` saturates at zero. -/
def Instant.elapsedSecs (start : Instant) (now : Clock) : ℕ := (now.instant - start) / 1000000000

/-- `TimeDelta::num_seconds`, which truncates towards zero. -/
def numSeconds (d : ℤ) : ℤ := d.tdiv 1000000000

/-- `TimeDelta::num_hours`. -/
def numHours (d : ℤ) : ℤ := (numSeconds d).tdiv 3600

inductive Protocol where
  | http | socks5 | https
  deriving DecidableEq, Repr

inductive ProxyStatus where
  | verified | presumedAlive | unchecked | failed
  deriving DecidableEq, Repr

/-- The values an `f64` argument can take, the finite ones as exact rationals. -/
inductive F64 where
  | finite (q : ℚ)
  | infinite (negative : Bool)
  | nan
  deriving DecidableEq

structure Proxy where
  host : String
  port : UInt16
  protocol : Protocol
  latencyEwma : ℚ
  successCount : ℕ
  failCount : ℕ
  consecutiveFails : UInt32
  lastCheck : Option DateTime
  lastSuccess : Option DateTime
  lastFail : Option DateTime
  country : Option String
  manual : Bool
  priorityBoost : ℚ
  tlsClean : Option Bool
  uptimeMaxSecs : ℕ
  status : Option ProxyStatus
  circuitOpenUntil : Option Instant
  uptimeStreakStart : Option Instant
  deriving DecidableEq

namespace Proxy

def new (host : String) (port : UInt16) (protocol : Protocol) : Proxy where
  host := host
  port := port
  protocol := protocol
  latencyEwma := 5000
  successCount := 0
  failCount := 0
  consecutiveFails := 0
  lastCheck := none
  lastSuccess := none
  lastFail := none
  country := none
  manual := false
  priorityBoost := 0
  tlsClean := none
  uptimeMaxSecs := 0
  status := some .unchecked
  circuitOpenUntil := none
  uptimeStreakStart := none

def key (p : Proxy) : String := s!"{p.host}:{p.port}"

def addr (p : Proxy) : String := s!"{p.host}:{p.port}"

/-- Non-finite samples count as 5000 ms, the others are clamped to a minute. -/
def sanitizeLatency : F64 → ℚ
  | .finite q => max 0 (min q 60000)
  | _ => 5000

def recordSuccess (p : Proxy) (now : Clock) (latencyMs : F64) : Proxy :=
  let recovered := 0 < p.consecutiveFails ∨ p.uptimeStreakStart = none
  { p with
    latencyEwma := p.latencyEwma * (8 / 10) + sanitizeLatency latencyMs * (2 / 10)
    successCount := p.successCount + 1
    uptimeStreakStart := if recovered then some now.instant else p.uptimeStreakStart
    uptimeMaxSecs :=
      if recovered then p.uptimeMaxSecs
      else match p.uptimeStreakStart with
        | some start => max p.uptimeMaxSecs (start.elapsedSecs now)
        | none => p.uptimeMaxSecs
    consecutiveFails := 0
    lastSuccess := some now.utc
    lastCheck := some now.utc
    status := some .verified
    circuitOpenUntil := none }

/-- Seconds for which the breaker opens at this many consecutive failures; `none` stands for
the last tier, which returns before the deadline is written. -/
def disableSecs (consecutiveFails : ℕ) : Option ℕ :=
  if consecutiveFails ≤ 4 then some 0
  else if consecutiveFails ≤ 9 then some 60
  else if consecutiveFails ≤ 19 then some 300
  else if consecutiveFails ≤ 49 then some 3600
  else none

/-- The counters and timestamps that every failure moves. -/
def countFail (p : Proxy) (now : Clock) : Proxy :=
  { p with
    failCount := p.failCount + 1
    consecutiveFails := p.consecutiveFails + 1
    lastFail := some now.utc
    lastCheck := some now.utc
    uptimeStreakStart := none }

def recordFail (p : Proxy) (now : Clock) : Proxy :=
  match disableSecs (p.countFail now).consecutiveFails.toNat with
  | none => { p.countFail now with status := some .failed }
  | some disable =>
    if 0 < disable then
      { p.countFail now with
        circuitOpenUntil := some (now.instant + fromSecs disable)
        status := some .failed }
    else p.countFail now

def isAvailable (p : Proxy) (now : Clock) : Bool :=
  match p.circuitOpenUntil with
  | some deadline => deadline ≤ now.instant
  | none => true

/-- Lower is better. -/
def score (p : Proxy) (now : Clock) : ℚ :=
  let s := p.latencyEwma
  let s := s + p.consecutiveFails.toNat * 50
  let s := s - p.priorityBoost
  let s := match p.lastSuccess with
    | some last => if max (numSeconds (now.utc - last)) 0 < 300 then s - 100 else s
    | none => s
  let currentUptime := match p.uptimeStreakStart with
    | some start => start.elapsedSecs now
    | none => 0
  let uptime := max currentUptime p.uptimeMaxSecs
  if 300 < uptime then s - min (((uptime : ℚ) - 300) / 3300 * 450 + 50) 500 else s

def markPresumedAlive (p : Proxy) : Proxy :=
  { p with status := some .presumedAlive, circuitOpenUntil := none, consecutiveFails := 0 }

/-- The record as it comes back from `state.json`: the `serde(skip)` fields are defaulted. -/
def reloaded (p : Proxy) : Proxy :=
  { p with status := none, circuitOpenUntil := none, uptimeStreakStart := none }

def setTlsClean (p : Proxy) (clean : Bool) : Proxy := { p with tlsClean := some clean }

def setCountry (p : Proxy) (country : String) : Proxy := { p with country := some country }

theorem isAvailable_iff {p : Proxy} {now : Clock} :
    p.isAvailable now ↔
      ∀ deadline, p.circuitOpenUntil = some deadline → deadline ≤ now.instant := by
  unfold isAvailable
  cases p.circuitOpenUntil <;> simp

theorem isAvailable_of_closed {p : Proxy} (h : p.circuitOpenUntil = none) (now : Clock) :
    p.isAvailable now := by simp [isAvailable, h]

/-- An available proxy stays available while time passes. -/
theorem isAvailable_mono {p : Proxy} {now later : Clock} (h : p.isAvailable now)
    (hle : now.instant ≤ later.instant) : p.isAvailable later :=
  isAvailable_iff.mpr fun d hd => (isAvailable_iff.mp h d hd).trans hle

theorem disableSecs_cases (n : ℕ) :
    (n ≤ 4 ∧ disableSecs n = some 0) ∨ (∃ d, 0 < d ∧ disableSecs n = some d ∧ 5 ≤ n ∧ n ≤ 49) ∨
      (50 ≤ n ∧ disableSecs n = none) := by
  unfold disableSecs
  split_ifs with h4 h9 h19 h49
  · exact Or.inl ⟨h4, rfl⟩
  · exact Or.inr (Or.inl ⟨60, by omega, rfl, by omega, by omega⟩)
  · exact Or.inr (Or.inl ⟨300, by omega, rfl, by omega, by omega⟩)
  · exact Or.inr (Or.inl ⟨3600, by omega, rfl, by omega, by omega⟩)
  · exact Or.inr (Or.inr ⟨by omega, rfl⟩)

/-- The three outcomes of a failure: below the first tier only the counters move, in a timed
tier the deadline is set from now, and in the last tier the old deadline stays. -/
theorem recordFail_cases (p : Proxy) (now : Clock) {n : ℕ}
    (hn : (p.consecutiveFails + 1).toNat = n) :
    (n ≤ 4 ∧ p.recordFail now = p.countFail now) ∨
    (∃ d, 0 < d ∧ disableSecs n = some d ∧ 5 ≤ n ∧ n ≤ 49 ∧ p.recordFail now =
      { p.countFail now with
        circuitOpenUntil := some (now.instant + fromSecs d)
        status := some .failed }) ∨
    (50 ≤ n ∧ p.recordFail now = { p.countFail now with status := some .failed }) := by
  have hcount : (p.countFail now).consecutiveFails.toNat = n := hn
  rcases disableSecs_cases n with ⟨h4, hd⟩ | ⟨d, hpos, hd, h5, h49⟩ | ⟨h50, hd⟩
  · exact Or.inl ⟨h4, by simp only [recordFail, hcount, hd, lt_irrefl, ↓reduceIte]⟩
  · exact Or.inr (Or.inl ⟨d, hpos, hd, h5, h49, by
      simp only [recordFail, hcount, hd, hpos, ↓reduceIte]⟩)
  · exact Or.inr (Or.inr ⟨h50, by simp only [recordFail, hcount, hd]⟩)

/-- Besides what it counts, a failure moves the deadline and the status, and nothing else. -/
theorem exists_recordFail (p : Proxy) (now : Clock) : ∃ deadline status, p.recordFail now =
    { p.countFail now with circuitOpenUntil := deadline, status := status } := by
  rcases p.recordFail_cases now rfl with ⟨-, h⟩ | ⟨d, -, -, -, -, h⟩ | ⟨-, h⟩
  · exact ⟨_, _, h⟩
  · exact ⟨_, _, h⟩
  · exact ⟨_, _, h⟩

@[simp] theorem consecutiveFails_recordFail (p : Proxy) (now : Clock) :
    (p.recordFail now).consecutiveFails = p.consecutiveFails + 1 := by
  obtain ⟨deadline, status, h⟩ := p.exists_recordFail now
  rw [h]
  rfl

theorem key_recordFail (p : Proxy) (now : Clock) : (p.recordFail now).key = p.key := by
  obtain ⟨deadline, status, h⟩ := p.exists_recordFail now
  rw [h]
  rfl

end Proxy

/-- The changes a stored record goes through, a restart included. -/
inductive Update where
  | recordSuccess (latencyMs : F64)
  | recordFail
  | markPresumedAlive
  | setTlsClean (clean : Bool)
  | setCountry (country : String)
  | reload

def Update.apply (u : Update) (p : Proxy) (now : Clock) : Proxy :=
  match u with
  | .recordSuccess latencyMs => p.recordSuccess now latencyMs
  | .recordFail => p.recordFail now
  | .markPresumedAlive => p.markPresumedAlive
  | .setTlsClean clean => p.setTlsClean clean
  | .setCountry country => p.setCountry country
  | .reload => p.reloaded

/-- A record keeps the endpoint it is keyed by. -/
@[simp] theorem Update.key_apply (u : Update) (p : Proxy) (now : Clock) :
    (u.apply p now).key = p.key := by
  cases u with
  | recordFail => exact p.key_recordFail now
  | _ => rfl

end VpnGateway
