import VpnGateway.Pool.Selection

/-! What selection for HTTPS can answer with, and when it passes over a clean proxy. -/
namespace VpnGateway

namespace SharedState

/-- The filter of the two tiers for HTTPS. -/
def hasCleanStatus (s : SharedState) (now : Clock) (status : ProxyStatus) (p : Proxy) : Bool :=
  s.hasStatus now status p && p.tlsClean = some true

variable {s : SharedState} {now : Clock}

@[simp] theorem hasCleanStatus_iff {status : ProxyStatus} {p : Proxy} :
    s.hasCleanStatus now status p ↔
      s.isUsable now p ∧ p.status = some status ∧ p.tlsClean = some true := by
  simp [hasCleanStatus, and_assoc]

theorem selectBestForTls_eq (s : SharedState) (c : s.Choice) :
    s.selectBestForTls c = (s.selectTop c (s.hasCleanStatus c.now .verified)).or
      ((s.selectTop c (s.hasCleanStatus c.now .presumedAlive)).or (s.selectBest c)) := rfl

/-- No stored proxy passes the filter. -/
def NonePasses (s : SharedState) (filter : Proxy → Bool) : Prop :=
  ∀ k p, s.proxies.get k = some p → ¬ filter p

/-- A tier's possible answers: stored, passing, and beaten by fewer than ten that pass. -/
structure InTop (s : SharedState) (now : Clock) (filter : Proxy → Bool) (p : Proxy) : Prop where
  stored : ∃ k, s.proxies.get k = some p
  passes : filter p
  top : s.better now filter p < 10

theorem inTop_iff {filter : Proxy → Bool} {p : Proxy} :
    s.InTop now filter p ↔ ∃ c : s.Choice, c.now = now ∧ s.selectTop c filter = some p := by
  constructor
  · rintro ⟨⟨k, hk⟩, hpass, htop⟩
    exact exists_selectTop_eq filter hk hpass htop
  · rintro ⟨c, rfl, hc⟩
    obtain ⟨hstored, hpass, htop⟩ := selectTop_spec hc
    exact ⟨hstored, hpass, htop⟩

/-- What selection for HTTPS can answer with: the clean tiers in their order, then whatever
plain selection can answer with. -/
inductive RankedForTls (s : SharedState) (now : Clock) (p : Proxy) : Prop
  | verified (top : s.InTop now (s.hasCleanStatus now .verified) p)
  | presumedAlive (verified : s.NonePasses (s.hasCleanStatus now .verified))
      (top : s.InTop now (s.hasCleanStatus now .presumedAlive) p)
  | fallback (verified : s.NonePasses (s.hasCleanStatus now .verified))
      (presumedAlive : s.NonePasses (s.hasCleanStatus now .presumedAlive))
      (ranked : s.Ranked now p)

theorem selectBestForTls_ranked {c : s.Choice} {p : Proxy} (h : s.selectBestForTls c = some p) :
    s.RankedForTls c.now p := by
  rw [selectBestForTls_eq] at h
  rcases Option.or_eq_some_iff.mp h with h₁ | ⟨h₁, h⟩
  · exact .verified (inTop_iff.mpr ⟨c, rfl, h₁⟩)
  rcases Option.or_eq_some_iff.mp h with h₂ | ⟨h₂, h⟩
  · exact .presumedAlive (selectTop_eq_none.mp h₁) (inTop_iff.mpr ⟨c, rfl, h₂⟩)
  · exact .fallback (selectTop_eq_none.mp h₁) (selectTop_eq_none.mp h₂) (selectBest_ranked h)

theorem RankedForTls.exists_selectBestForTls_eq {p : Proxy} (h : s.RankedForTls now p) :
    ∃ c : s.Choice, c.now = now ∧ s.selectBestForTls c = some p := by
  cases h with
  | verified top =>
    obtain ⟨c, rfl, hc⟩ := inTop_iff.mp top
    exact ⟨c, rfl, by rw [selectBestForTls_eq, hc, Option.some_or]⟩
  | presumedAlive verified top =>
    obtain ⟨c, rfl, hc⟩ := inTop_iff.mp top
    have hv := selectTop_eq_none (c := c).mpr verified
    exact ⟨c, rfl, by rw [selectBestForTls_eq, hv, Option.none_or, hc, Option.some_or]⟩
  | fallback verified presumedAlive ranked =>
    obtain ⟨c, rfl, hc⟩ := ranked.exists_selectBest_eq
    have hv := selectTop_eq_none (c := c).mpr verified
    have hpa := selectTop_eq_none (c := c).mpr presumedAlive
    exact ⟨c, rfl, by rw [selectBestForTls_eq, hv, Option.none_or, hpa, Option.none_or, hc]⟩

theorem nonePasses_iff_not_isCleanUsable :
    (s.NonePasses (s.hasCleanStatus now .verified) ∧
      s.NonePasses (s.hasCleanStatus now .presumedAlive)) ↔
    ∀ k q, s.proxies.get k = some q → ¬ s.isCleanUsable now q := by
  simp only [NonePasses, hasCleanStatus_iff, isCleanUsable_iff]
  constructor
  · rintro ⟨hv, hpa⟩ k q hq ⟨hu, hstatus, hclean⟩
    rcases hstatus with hst | hst
    · exact hv k q hq ⟨hu, hst, hclean⟩
    · exact hpa k q hq ⟨hu, hst, hclean⟩
  · intro h
    exact ⟨fun k q hq ⟨hu, hst, hclean⟩ => h k q hq ⟨hu, Or.inl hst, hclean⟩,
      fun k q hq ⟨hu, hst, hclean⟩ => h k q hq ⟨hu, Or.inr hst, hclean⟩⟩

/-- Selection for HTTPS leaves no clean candidate behind: an answer that is not clean means
that there is none, and there is an answer whenever plain selection has one. -/
def PrefersClean (s : SharedState) (now : Clock) : Prop :=
  (∀ c : s.Choice, c.now = now → ∀ p, s.selectBestForTls c = some p → p.tlsClean ≠ some true →
    ∀ k q, s.proxies.get k = some q → q.tlsClean = some true → ¬ s.isCandidate now q) ∧
  ∀ c c' : s.Choice, c.now = now → c'.now = now → (∃ p, s.selectBest c = some p) →
    ∃ p, s.selectBestForTls c' = some p

/-- Both selections are empty for the same pools. -/
theorem exists_selectBestForTls {c c' : s.Choice} (hnow : c.now = c'.now) {p : Proxy}
    (h : s.selectBest c = some p) : ∃ q, s.selectBestForTls c' = some q := by
  refine Option.ne_none_iff_exists'.mp fun hnone => ?_
  have hempty := selectBest_eq_none.mp (selectBestForTls_eq_none.mp hnone)
  rw [← hnow, ← selectBest_eq_none, h] at hempty
  cases hempty

theorem tier_le_two {p : Proxy} (h : s.isCandidate now p) : tier p.status ≤ 2 := by
  rcases (isCandidate_iff_status.mp h).2.2 with e | e | e | e <;> rw [e] <;> decide

/-- Where the clean tiers are empty, some choice answers with a candidate that is not clean. -/
theorem exists_dirty_answer (hnone : ∀ k q, s.proxies.get k = some q → ¬ s.isCleanUsable now q)
    {k : String} {p : Proxy} (hp : s.proxies.get k = some p) (hc : s.isCandidate now p)
    (hdirty : p.tlsClean ≠ some true) :
    ∃ c : s.Choice, c.now = now ∧ ∃ q, s.selectBestForTls c = some q ∧ q.tlsClean ≠ some true := by
  obtain ⟨hv, hpa⟩ := nonePasses_iff_not_isCleanUsable.mpr hnone
  by_cases htier : ∃ k q, s.proxies.get k = some q ∧ s.isCandidate now q ∧ tier q.status < 2
  · -- a proxy with a latency comes before the unchecked ones, and none of these is clean
    obtain ⟨k₁, q₁, hq₁, hc₁, ht₁⟩ := htier
    obtain ⟨c, rfl⟩ := s.exists_choice now
    have hsome : s.selectBest c ≠ none := fun h => selectBest_eq_none.mp h k₁ q₁ hq₁ hc₁
    obtain ⟨q, hq⟩ := Option.ne_none_iff_exists'.mp hsome
    have hr := selectBest_ranked hq
    obtain ⟨k₂, hk₂⟩ := hr.stored
    refine ⟨c, rfl, q, ?_, fun hclean => ?_⟩
    · rw [selectBestForTls_eq, selectTop_eq_none.mpr hv, selectTop_eq_none.mpr hpa,
        Option.none_or, Option.none_or, hq]
    · have hlt : tier q.status < 2 := (hr.best k₁ q₁ hq₁ hc₁).trans_lt ht₁
      refine hnone k₂ q hk₂ (isCleanUsable_iff.mpr ⟨isUsable_iff.mpr ⟨hr.available,
        hr.notExcluded⟩, ?_, hclean⟩)
      rcases hr.selectable with e | e | e | e
      · exact Or.inl e
      · exact Or.inr e
      · rw [e] at hlt
        exact absurd hlt (by decide)
      · rw [e] at hlt
        exact absurd hlt (by decide)
  · -- the scan may meet the dirty proxy first
    push Not at htier
    obtain ⟨havail, hexcl, hsel⟩ := isCandidate_iff_status.mp hc
    have hrank : s.Ranked now p := by
      refine ⟨⟨k, hp⟩, havail, hexcl, hsel, fun k' q hq hcq => ?_, fun hlt => ?_⟩
      · exact (tier_le_two hc).trans (htier k' q hq hcq)
      · exact absurd hlt (not_lt_of_ge (htier k p hp hc))
    obtain ⟨c, hnow, hsel⟩ :=
      RankedForTls.exists_selectBestForTls_eq (.fallback hv hpa hrank)
    exact ⟨c, hnow, p, hsel, hdirty⟩

/-- HTTPS traffic is kept off clean candidates exactly when the clean ones are all unchecked
and some other candidate is not clean. -/
theorem prefersClean_iff (s : SharedState) (now : Clock) : s.PrefersClean now ↔
    (∃ k q, s.proxies.get k = some q ∧ s.isCleanUsable now q) ∨
    (∀ k q, s.proxies.get k = some q → s.isCandidate now q → q.tlsClean ≠ some true) ∨
    ∀ k q, s.proxies.get k = some q → s.isCandidate now q → q.tlsClean = some true := by
  constructor
  · rintro ⟨hclean, -⟩
    by_contra hcond
    push Not at hcond
    obtain ⟨hnone, ⟨k₁, q₁, hq₁, hc₁, htls₁⟩, k₂, q₂, hq₂, hc₂, htls₂⟩ := hcond
    obtain ⟨c, hnow, p, hp, hdirty⟩ :=
      exists_dirty_answer (fun k q hq => by simpa using hnone k q hq) hq₂ hc₂ htls₂
    exact hclean c hnow p hp hdirty k₁ q₁ hq₁ htls₁ hc₁
  · intro hcond
    refine ⟨?_, fun c c' hc hc' ⟨p, hp⟩ => exists_selectBestForTls (hc.trans hc'.symm) hp⟩
    rintro c rfl p hp hdirty k q hq htls hcand
    rcases hcond with ⟨k₁, q₁, hq₁, hclean⟩ | hno | hall
    · exact hdirty (selectBestForTls_clean hp hq₁ hclean)
    · exact hno k q hq hcand htls
    · obtain ⟨⟨k₁, hk₁⟩, hc₁⟩ := selectBestForTls_spec hp
      exact hdirty (hall k₁ p hk₁ hc₁)

/-! A pool after a restart: the clean proxy last worked hours ago, the other one minutes ago. -/

def cleanIdle : Proxy :=
  { Proxy.new "1.1.1.1" 80 .http with tlsClean := some true, status := none }

def dirtyRecent : Proxy :=
  { Proxy.new "2.2.2.2" 80 .http with tlsClean := some false, status := some .presumedAlive }

def restarted : SharedState :=
  (((withConfig 300 5000 []).insertIfAbsent cleanIdle).2.insertIfAbsent dirtyRecent).2

theorem get_restarted {k : String} {q : Proxy} (h : restarted.proxies.get k = some q) :
    q = cleanIdle ∨ q = dirtyRecent := by
  rcases get_insertIfAbsent h with h | ⟨rfl, -⟩
  · rcases get_insertIfAbsent h with h | ⟨rfl, -⟩
    · cases h
    · exact Or.inl rfl
  · exact Or.inr rfl

/-- The clean proxy is there and usable, and HTTPS traffic goes through the other one. -/
theorem prefersClean_fails_after_restart : ¬ restarted.PrefersClean ⟨0, 0⟩ := by
  rintro ⟨hclean, -⟩
  have hnone : ∀ k q, restarted.proxies.get k = some q → ¬ restarted.isCleanUsable ⟨0, 0⟩ q := by
    intro k q hq
    rcases get_restarted hq with rfl | rfl <;> decide
  have hstored : restarted.proxies.get "1.1.1.1:80" = some cleanIdle := by decide
  have hdirty : restarted.proxies.get "2.2.2.2:80" = some dirtyRecent := by decide
  obtain ⟨c, hnow, p, hp, htls⟩ :=
    exists_dirty_answer hnone hdirty (by decide) (by decide)
  exact hclean c hnow p hp htls "1.1.1.1:80" cleanIdle hstored rfl (by decide)

end SharedState

end VpnGateway
