import VpnGateway.Pool.Operations
import VpnGateway.Pool.Selection

/-! What `GET /health` reports against what a connection is given: the one counts the proxies
whose breaker lets them through, the other asks for a status as well. -/
namespace VpnGateway

structure HealthResponse where
  status : String
  totalProxies : ℕ
  verifiedProxies : ℕ
  availableProxies : ℕ

namespace SharedState

variable {s : SharedState} {now : Clock}

def health (s : SharedState) (now : Clock) : HealthResponse where
  status := if 0 < s.availableCount now then "ok" else "no_proxies"
  totalProxies := s.proxies.len
  verifiedProxies := s.verifiedCount
  availableProxies := s.availableCount now

def isEmpty (s : SharedState) (now : Clock) : Bool := s.availableCount now = 0

/-- Whether the report and the emptiness test say what the selection does. -/
def ReportsSelection (s : SharedState) (c : s.Choice) : Prop :=
  ((s.health c.now).status = "ok" ↔ ∃ p, s.selectBest c = some p) ∧
    (s.isEmpty c.now = true ↔ s.selectBest c = none)

/-- The breaker of some proxy that is not marked failed lets it through, if that of any does. -/
def HasUnfailed (s : SharedState) (now : Clock) : Prop :=
  (∃ k p, s.proxies.get k = some p ∧ p.isAvailable now) →
    ∃ k p, s.proxies.get k = some p ∧ p.isAvailable now ∧ p.status ≠ some .failed

theorem availableCount_pos :
    0 < s.availableCount now ↔ ∃ k p, s.proxies.get k = some p ∧ p.isAvailable now := by
  rw [Nat.pos_iff_ne_zero, availableCount, ne_eq, FinMap.countP_eq_zero]
  push Not
  rfl

theorem health_status_ok : (s.health now).status = "ok" ↔ 0 < s.availableCount now := by
  unfold health
  split_ifs with h
  · simp [h]
  · simp [h]

theorem isEmpty_iff : s.isEmpty now = true ↔ ¬0 < s.availableCount now := by
  simp [isEmpty]

/-- Where no country is excluded, selection answers exactly when an available proxy is not marked
failed. -/
theorem selectBest_of_noExclusion (hexclude : s.excludeCountries = []) (c : s.Choice) :
    (∃ p, s.selectBest c = some p) ↔
      ∃ k p, s.proxies.get k = some p ∧ p.isAvailable c.now ∧ p.status ≠ some .failed := by
  have hnone : ∀ p, s.isExcluded p = false := fun p => by simp [isExcluded, hexclude]
  rw [← Option.ne_none_iff_exists', ne_eq, selectBest_eq_none]
  push Not
  simp only [isCandidate_iff, isUsable_iff, hnone, and_true]

/-- With no country excluded, the report agrees with the selection exactly when not all of the
available proxies are failed ones whose breaker has expired. -/
theorem reportsSelection_iff (s : SharedState) (hexclude : s.excludeCountries = [])
    (c : s.Choice) : s.ReportsSelection c ↔ s.HasUnfailed c.now := by
  have hselect := selectBest_of_noExclusion hexclude c
  have hnone : s.selectBest c = none ↔ ¬∃ p, s.selectBest c = some p := by
    rw [← Option.ne_none_iff_exists', not_not]
  rw [ReportsSelection, health_status_ok, isEmpty_iff, hnone, not_iff_not, and_self,
    availableCount_pos, hselect, HasUnfailed]
  constructor
  · exact fun h => h.mp
  · intro h
    refine ⟨h, ?_⟩
    rintro ⟨k, p, hp, havail, -⟩
    exact ⟨k, p, hp, havail⟩

/-! One proxy that fails five times, and the minute for which its breaker is open. -/

def failedRun : List Op :=
  [.addProxy ⟨"1.1.1.1", 80, none⟩, .recordFail "1.1.1.1:80", .recordFail "1.1.1.1:80",
    .recordFail "1.1.1.1:80", .recordFail "1.1.1.1:80", .recordFail "1.1.1.1:80"]

def afterFailures : SharedState :=
  (List.range 5).foldl (fun s _ => s.recordFail ⟨0, 0⟩ "1.1.1.1:80")
    ((withConfig 300 5000 []).addProxy ⟨"1.1.1.1", 80, none⟩).2

/-- While the breaker is open, both sides agree that there is nothing to use. -/
theorem reportsSelection_while_open : afterFailures.excludeCountries = [] ∧
    ∀ c : afterFailures.Choice, c.now = ⟨0, 0⟩ → afterFailures.ReportsSelection c := by
  refine ⟨rfl, ?_⟩
  intro c hc
  refine (reportsSelection_iff afterFailures rfl c).mpr ?_
  rw [hc]
  rintro ⟨k, p, hp, havail⟩
  have hclosed : ∀ k ∈ afterFailures.proxies.keys,
      (afterFailures.proxies.get k).all fun p => !p.isAvailable ⟨0, 0⟩ := by decide
  have hp' := hclosed k (FinMap.mem_of_get hp)
  simp [hp, havail] at hp'

/-- Once it has expired, the report is "ok", and no connection is given a proxy until the next
health check succeeds. -/
theorem ok_without_selection : ∃ es, es.map Event.op = failedRun ∧
    Runs.Run Step (withConfig 300 5000 []) es afterFailures ∧ ∀ c : afterFailures.Choice,
      c.now = ⟨fromSecs 60, fromSecs 60⟩ →
      (afterFailures.health c.now).status = "ok" ∧ afterFailures.selectBest c = none := by
  have hrun : ∃ es, es.map Event.op = failedRun ∧
      Runs.Run Step (withConfig 300 5000 []) es afterFailures := run_of_applyAll rfl
  obtain ⟨es, hes, hrun⟩ := hrun
  refine ⟨es, hes, hrun, fun c hc => ?_⟩
  rw [hc, selectBest_eq_none, hc]
  refine ⟨by decide, fun k p hp hcand => ?_⟩
  have hfailed : ∀ k ∈ afterFailures.proxies.keys,
      (afterFailures.proxies.get k).all fun p => p.status = some .failed := by decide
  have hp' := hfailed k (FinMap.mem_of_get hp)
  simp [hp] at hp'
  exact (isCandidate_iff.mp hcand).2 hp'

end SharedState

end VpnGateway
