import Mathlib
import VpnGateway.Core.Runs

/-! Work that is filed under keys, in finite amounts. Steps bring work in and do it; a round of
steps serves a batch of keys that have work. Every full batch lowers the total, so that whoever
waits behind full batches does not wait for long. -/
namespace Backlog

open Runs

variable {σ ι κ : Type*}

/-- What each step brings in at most, and whom it serves: a key with work has less of it then. -/
structure Accounts (Step : σ → ι → σ → Prop) (work : σ → κ →₀ ℕ) (gain : ι → κ →₀ ℕ)
    (Serves : ι → κ → Prop) : Prop where
  step : ∀ s a t, Step s a t → work t ≤ work s + gain a
  serves : ∀ s a t k, Step s a t → Serves a k → 0 < work s k → work t k < work s k

/-- A round: some steps, and a batch of keys that are all served by them. -/
structure Round (ι κ : Type*) where
  batch : Finset κ
  steps : List ι

/-- Every key of the batch has work when the round begins. -/
structure Round.Leads (Step : σ → ι → σ → Prop) (work : σ → κ →₀ ℕ) (Serves : ι → κ → Prop)
    (s : σ) (r : Round ι κ) (t : σ) : Prop where
  run : Run Step s r.steps t
  busy : ∀ k ∈ r.batch, 0 < work s k
  served : ∀ k ∈ r.batch, ∃ a ∈ r.steps, Serves a k

variable {Step : σ → ι → σ → Prop} {work : σ → κ →₀ ℕ} {gain : ι → κ →₀ ℕ}
  {Serves : ι → κ → Prop} {s t : σ} {as : List ι} {k : κ} {rounds : List (Round ι κ)}

namespace Accounts

theorem run (h : Accounts Step work gain Serves) (hrun : Run Step s as t) :
    work t ≤ work s + (as.map gain).sum := by
  induction hrun with
  | nil => exact le_self_add
  | @cons s u t a as head _ ih =>
    calc work t ≤ work u + (as.map gain).sum := ih
      _ ≤ work s + gain a + (as.map gain).sum := add_le_add_left (h.step s a u head) _
      _ = work s + ((a :: as).map gain).sum := by rw [List.map_cons, List.sum_cons, add_assoc]

/-- A key that has work and is served at some time ends with less, but for what came in. -/
theorem run_lt (h : Accounts Step work gain Serves) (hrun : Run Step s as t)
    (hserved : ∃ a ∈ as, Serves a k) (hbusy : 0 < work s k) :
    work t k < work s k + (as.map gain).sum k := by
  induction hrun with
  | nil =>
    obtain ⟨a, ha, -⟩ := hserved
    cases ha
  | @cons s u t a as head tail ih =>
    have hrest := h.run tail k
    have hstep := h.step s a u head k
    simp only [Finsupp.add_apply, List.map_cons, List.sum_cons] at hrest hstep ⊢
    by_cases hdone : work u k < work s k
    · omega
    · -- this step has not served it, so a later one does
      have hlater : ∃ b ∈ as, Serves b k := by
        obtain ⟨b, hb, hk⟩ := hserved
        rcases List.mem_cons.mp hb with rfl | hb
        · exact absurd (h.serves s b u k head hk hbusy) hdone
        · exact ⟨b, hb, hk⟩
      have hless := ih hlater (by omega)
      omega

/-- A round lowers the total by the size of its batch, but for what came in. -/
theorem round (h : Accounts Step work gain Serves) {r : Round ι κ}
    (hr : r.Leads Step work Serves s t) :
    (work t).degree + r.batch.card ≤ (work s).degree + ((r.steps.map gain).sum).degree := by
  classical
  have hall : work t + Finsupp.indicator r.batch (fun _ _ => 1) ≤
      work s + (r.steps.map gain).sum := by
    intro k
    rw [Finsupp.add_apply, Finsupp.indicator_apply]
    split_ifs with hk
    · exact h.run_lt hr.run (hr.served k hk) (hr.busy k hk)
    · exact h.run hr.run k
  have hcard : (Finsupp.indicator r.batch (fun _ _ => 1) : κ →₀ ℕ).degree = r.batch.card := by
    rw [Finsupp.degree_apply, Finset.sum_subset (Finsupp.support_indicator_subset r.batch _)]
    · rw [Finset.card_eq_sum_ones]
      exact Finset.sum_congr rfl fun k hk => by rw [Finsupp.indicator_of_mem hk]
    · exact fun k _ hk => Finsupp.notMem_support_iff.mp hk
  calc (work t).degree + r.batch.card
      = (work t + Finsupp.indicator r.batch fun _ _ => 1).degree := by rw [map_add, hcard]
    _ ≤ (work s + (r.steps.map gain).sum).degree := Finsupp.degree_mono hall
    _ = (work s).degree + ((r.steps.map gain).sum).degree := map_add _ _ _

/-- The batches of consecutive rounds are no more than the work at the start and what came in. -/
theorem rounds_le (h : Accounts Step work gain Serves)
    (hrun : Run (fun s r t => Round.Leads Step work Serves s r t) s rounds t) :
    (rounds.map fun r => r.batch.card).sum ≤
      (work s).degree + (((rounds.flatMap Round.steps).map gain).sum).degree := by
  induction hrun with
  | nil => exact Nat.zero_le _
  | @cons s u t r rounds head _ ih =>
    have hround := h.round head
    rw [List.map_cons, List.sum_cons, List.flatMap_cons, List.map_append, List.sum_append, map_add]
    omega

end Accounts

end Backlog
