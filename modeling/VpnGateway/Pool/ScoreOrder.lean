import VpnGateway.Pool.Weights

/-! How failures and slow successes move a proxy in the order of scores. -/
namespace VpnGateway

namespace Proxy

variable {p : Proxy} {now at' : Clock} {l₁ l₂ : F64}

/-- What the score reads of a record after a failure: the failure is counted, the running
streak is gone and nothing else has moved. -/
theorem score_recordFail (p : Proxy) (now at' : Clock) :
    (p.recordFail now).score at' = p.latencyEwma + (p.consecutiveFails + 1).toNat * 50 -
      p.priorityBoost - (if p.workedRecently at' then 100 else 0) -
      stabilityBonus p.uptimeMaxSecs := by
  obtain ⟨deadline, status, h⟩ := p.exists_recordFail now
  have huptime : (p.recordFail now).uptime at' = p.uptimeMaxSecs := by
    rw [h]
    exact Nat.zero_max _
  rw [score_eq, huptime, h]
  rfl

theorem uptimeMaxSecs_le_uptime (p : Proxy) (at' : Clock) : p.uptimeMaxSecs ≤ p.uptime at' :=
  le_max_right _ _

/-- A failure costs its penalty and, where a streak was running, part of the bonus. -/
theorem score_add_le_recordFail (now at' : Clock) (h : p.consecutiveFails.toNat < 2 ^ 32 - 1) :
    p.score at' + 50 ≤ (p.recordFail now).score at' := by
  have hcount : (p.consecutiveFails + 1).toNat = p.consecutiveFails.toNat + 1 := by
    rw [UInt32.toNat_add, UInt32.toNat_one, Nat.mod_eq_of_lt (by omega)]
  have hbonus := stabilityBonus_mono (p.uptimeMaxSecs_le_uptime at')
  rw [score_recordFail, score_eq, hcount]
  push_cast
  linarith

/-- Two successes at one instant differ in the latency they blend in. -/
theorem score_recordSuccess_sub (p : Proxy) (now at' : Clock) (l₁ l₂ : F64) :
    (p.recordSuccess now l₂).score at' - (p.recordSuccess now l₁).score at' =
      (sanitizeLatency l₂ - sanitizeLatency l₁) * (2 / 10) := by
  have hrecent : (p.recordSuccess now l₂).workedRecently at' =
      (p.recordSuccess now l₁).workedRecently at' := rfl
  have huptime : (p.recordSuccess now l₂).uptime at' = (p.recordSuccess now l₁).uptime at' := rfl
  rw [score_eq, score_eq, hrecent, huptime]
  simp only [recordSuccess]
  ring

theorem score_recordSuccess_le (p : Proxy) (now at' : Clock)
    (h : sanitizeLatency l₁ ≤ sanitizeLatency l₂) :
    (p.recordSuccess now l₁).score at' ≤ (p.recordSuccess now l₂).score at' := by
  have hsub := p.score_recordSuccess_sub now at' l₁ l₂
  linarith

/-- A failure moves the score up by its whole penalty at every instant, and of two successes
the slower one never has the lower score. -/
theorem score_monotone (p : Proxy) (now at' : Clock) :
    (p.consecutiveFails.toNat < 2 ^ 32 - 1 → p.score at' + 50 ≤ (p.recordFail now).score at') ∧
    ∀ l₁ l₂, sanitizeLatency l₁ ≤ sanitizeLatency l₂ →
      (p.recordSuccess now l₁).score at' ≤ (p.recordSuccess now l₂).score at' :=
  ⟨score_add_le_recordFail now at', fun _ _ h => p.score_recordSuccess_le now at' h⟩

theorem score_monotone_new :
    (new "10.0.0.1" 1080 .socks5).score ⟨0, 0⟩ + 50 ≤
      ((new "10.0.0.1" 1080 .socks5).recordFail ⟨0, 0⟩).score ⟨0, 0⟩ ∧
    ((new "10.0.0.1" 1080 .socks5).recordSuccess ⟨0, 0⟩ (.finite 90000)).score ⟨0, 0⟩ ≤
      ((new "10.0.0.1" 1080 .socks5).recordSuccess ⟨0, 0⟩ (.finite 60000)).score ⟨0, 0⟩ :=
  have h := score_monotone (new "10.0.0.1" 1080 .socks5) ⟨0, 0⟩ ⟨0, 0⟩
  ⟨h.1 (by decide), h.2 (.finite 90000) (.finite 60000) (by norm_num [sanitizeLatency])⟩

end Proxy

end VpnGateway
