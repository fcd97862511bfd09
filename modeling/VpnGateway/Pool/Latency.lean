import VpnGateway.Core.MovingAverage
import VpnGateway.Pool.Proxy

/-! The average latency of a record over every run of its updates. -/
namespace VpnGateway

open MovingAverage

/-- What an update adds to the average. -/
def Update.sample : Update → Option ℚ
  | recordSuccess latencyMs => some (Proxy.sanitizeLatency latencyMs)
  | recordFail | markPresumedAlive | setTlsClean _ | setCountry _ | reload => none

namespace Proxy

/-- The updates in this order, each with the clock that it reads. -/
def updateAll (p : Proxy) (calls : List (Update × Clock)) : Proxy :=
  calls.foldl (fun p call => call.1.apply p call.2) p

/-- The sanitised samples of the successes. -/
def samples (calls : List (Update × Clock)) : List ℚ := calls.filterMap fun call => call.1.sample

variable {p : Proxy} {calls : List (Update × Clock)}

theorem sanitizeLatency_mem (latencyMs : F64) : sanitizeLatency latencyMs ∈ Set.Icc 0 60000 := by
  cases latencyMs with
  | finite q => exact ⟨le_max_left _ _, max_le (by norm_num) (min_le_right _ _)⟩
  | infinite | nan => exact ⟨by norm_num [sanitizeLatency], by norm_num [sanitizeLatency]⟩

theorem latencyEwma_recordFail (p : Proxy) (now : Clock) :
    (p.recordFail now).latencyEwma = p.latencyEwma := by
  obtain ⟨deadline, status, h⟩ := p.exists_recordFail now
  rw [h]
  rfl

/-- Only a success moves the average, and a fifth of the way. -/
theorem latencyEwma_apply (u : Update) (p : Proxy) (now : Clock) :
    (u.apply p now).latencyEwma = average (2 / 10 : ℚ) p.latencyEwma u.sample.toList := by
  cases u with
  | recordSuccess latencyMs =>
    change p.latencyEwma * (8 / 10) + sanitizeLatency latencyMs * (2 / 10) =
      (1 - 2 / 10) * p.latencyEwma + 2 / 10 * sanitizeLatency latencyMs
    ring
  | recordFail => exact p.latencyEwma_recordFail now
  | markPresumedAlive | setTlsClean | setCountry | reload => rfl

theorem latencyEwma_updateAll (p : Proxy) (calls : List (Update × Clock)) :
    (p.updateAll calls).latencyEwma = average (2 / 10 : ℚ) p.latencyEwma (samples calls) := by
  induction calls generalizing p with
  | nil => rfl
  | cons call calls ih =>
    have hsamples : samples (call :: calls) = call.1.sample.toList ++ samples calls := by
      rw [samples, List.filterMap_cons]
      cases call.1.sample <;> rfl
    rw [hsamples, average_append, ← latencyEwma_apply call.1 p call.2]
    exact ih _

theorem sample_mem : ∀ x ∈ samples calls, x ∈ Set.Icc 0 60000 := by
  intro x hx
  obtain ⟨call, -, hsample⟩ := List.mem_filterMap.mp hx
  cases hcall : call.1 with
  | recordSuccess latencyMs =>
    rw [hcall] at hsample
    exact Option.some.inj hsample ▸ sanitizeLatency_mem latencyMs
  | recordFail | markPresumedAlive | setTlsClean | setCountry | reload =>
    rw [hcall] at hsample
    cases hsample

theorem samples_successes (latencyMs : F64) (clocks : List Clock) :
    samples (clocks.map fun now => (.recordSuccess latencyMs, now)) =
      List.replicate clocks.length (sanitizeLatency latencyMs) := by
  rw [samples, List.filterMap_map, ← List.map_const', ← List.filterMap_eq_map]
  rfl

/-- The average of a new record stays within a minute and between the least and the greatest of
its beginning and the samples, and as many successes at one latency as there are clocks take it
towards that latency by the power of four fifths. -/
theorem latencyEwma_of_new (host : String) (port : UInt16) (protocol : Protocol)
    (calls : List (Update × Clock)) :
    ((new host port protocol).updateAll calls).latencyEwma ∈ Set.Icc 0 60000 ∧
    ((new host port protocol).updateAll calls).latencyEwma ∈
      Set.Icc ((5000 :: samples calls).min (List.cons_ne_nil _ _))
        ((5000 :: samples calls).max (List.cons_ne_nil _ _)) ∧
    ∀ (latencyMs : F64) (clocks : List Clock),
      |(((new host port protocol).updateAll calls).updateAll
        (clocks.map fun now => (.recordSuccess latencyMs, now))).latencyEwma -
          sanitizeLatency latencyMs| =
        (8 / 10) ^ clocks.length *
          |((new host port protocol).updateAll calls).latencyEwma - sanitizeLatency latencyMs| := by
  have hweight : (2 / 10 : ℚ) ∈ Set.Icc 0 1 := by norm_num
  have hrun := (new host port protocol).latencyEwma_updateAll calls
  refine ⟨?_, ?_, fun latencyMs clocks => ?_⟩
  · rw [hrun]
    exact average_mem (convex_Icc _ _) hweight (by norm_num [new]) sample_mem
  · rw [hrun]
    exact average_mem_Icc hweight 5000 (samples calls)
  · rw [latencyEwma_updateAll, samples_successes, abs_average_replicate_sub hweight.2]
    norm_num

/-- Ten successes at 200 ms. -/
example : ((new "1.2.3.4" 8080 .http).updateAll
    (List.replicate 10 (.recordSuccess (.finite 200), ⟨0, 0⟩))).latencyEwma < 1000 := by
  decide +kernel

end Proxy

end VpnGateway
