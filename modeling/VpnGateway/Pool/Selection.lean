import VpnGateway.Core.TopN
import VpnGateway.Pool.State

/-! Proxy selection: the tiers, the bounded scan and the weighted draw, over every order
in which the pool is met and every draw. -/
namespace VpnGateway

/-- Scores as the scan compares them, between `f64::MIN` and `f64::MAX`. -/
abbrev Score (σ : Type*) := WithBotTop σ

/-- `WeightedIndex::new` followed by one `sample`: an index, or nothing where it is an error. -/
abbrev WeightedIndex := (weights : List ℚ) → Option (Fin weights.length)

namespace SharedState

/-- What one selection reads: the order of the pool, the draw and the clocks. -/
structure Choice (s : SharedState) where
  it : s.proxies.Iteration
  draw : WeightedIndex
  now : Clock

theorem exists_choice (s : SharedState) (now : Clock) : ∃ c : s.Choice, c.now = now :=
  (FinMap.Iteration.nonempty s.proxies).elim fun it => ⟨⟨it, fun _ => none, now⟩, rfl⟩

/-- Whether the proxy's country is on the exclude list. -/
def isExcluded (s : SharedState) (p : Proxy) : Bool :=
  s.excludeCountries.any fun c => p.country = some c

def isUsable (s : SharedState) (now : Clock) (p : Proxy) : Bool :=
  p.isAvailable now && !s.isExcluded p

def hasStatus (s : SharedState) (now : Clock) (status : ProxyStatus) (p : Proxy) : Bool :=
  s.isUsable now p && p.status = some status

section Collect

variable {σ : Type*} [LinearOrder σ]

/-- The passing entries in the order of the scan, each with the score it is compared by. -/
def passing (s : SharedState) (it : s.proxies.Iteration) (filter : Proxy → Bool) :
    List (String × Proxy) :=
  it.entries.filter fun e => filter e.2

/-- `score` is what the one call of `score()` for an entry returns. -/
def collectTopN (s : SharedState) (it : s.proxies.Iteration) (score : String × Proxy → σ)
    (filter : Proxy → Bool) : List Proxy :=
  (TopN.select 10 (fun e => (score e : Score σ)) (s.passing it filter)).map Prod.snd

/-- As `collectTopN` for any size, and sorted at the end. -/
def collectTopNSized (s : SharedState) (it : s.proxies.Iteration) (score : String × Proxy → σ)
    (n : ℕ) (filter : Proxy → Bool) : List Proxy :=
  (TopN.selectSorted n (fun e => (score e : Score σ)) (s.passing it filter)).map Prod.snd

end Collect

/-- The weights of the draw; each call of `score` reads the clocks again. -/
def weights (clock : ℕ → Clock) (candidates : List Proxy) : List ℚ :=
  let maxScore := ((candidates.mapIdx fun i p => p.score (clock i)).max?).getD 0
  candidates.mapIdx fun i p => maxScore - p.score (clock (candidates.length + i)) + 1

def weightedRandomSelect (draw : WeightedIndex) (clock : ℕ → Clock) (first : Proxy)
    (rest : List Proxy) : Proxy :=
  if rest = [] then first
  else match draw (weights clock (first :: rest)) with
    | some i => (first :: rest).get (i.cast (by simp [weights]))
    | none => first

/-- One tier: a weighted draw among the best of the proxies that pass the filter. -/
def selectTop (s : SharedState) (c : s.Choice) (filter : Proxy → Bool) : Option Proxy :=
  match s.collectTopN c.it (fun e => e.2.score c.now) filter with
  | [] => none
  | first :: rest => some (weightedRandomSelect c.draw (fun _ => c.now) first rest)

/-- The first proxy met whose latency is not known yet. -/
def findUnchecked (s : SharedState) (c : s.Choice) : Option Proxy :=
  (c.it.values.filter (s.isUsable c.now)).find? fun p =>
    p.status = some .unchecked ∨ p.status = none

def selectBest (s : SharedState) (c : s.Choice) : Option Proxy :=
  (s.selectTop c (s.hasStatus c.now .verified)).or
    ((s.selectTop c (s.hasStatus c.now .presumedAlive)).or (s.findUnchecked c))

def selectBestForTls (s : SharedState) (c : s.Choice) : Option Proxy :=
  (s.selectTop c fun p => s.hasStatus c.now .verified p && p.tlsClean = some true).or
    ((s.selectTop c fun p => s.hasStatus c.now .presumedAlive p && p.tlsClean = some true).or
      (s.selectBest c))

def selectBestByCountry (s : SharedState) (draw : WeightedIndex) (now : Clock) (country : String) :
    Option Proxy :=
  let keys := (s.geoIndex.get country).getD []
  let candidates := (keys.filterMap s.proxies.get).filter fun p =>
    p.isAvailable now && p.status = some .verified
  match (candidates.mergeSort fun a b => a.score now ≤ b.score now).take 10 with
  | [] => none
  | first :: rest => some (weightedRandomSelect draw (fun _ => now) first rest)

/-- The warm pool's refresh list: key and address of the best verified proxies. -/
def topStableProxies (s : SharedState) (it : s.proxies.Iteration) (now : Clock) (n : ℕ) :
    List (String × String) :=
  let top := s.collectTopNSized it (fun e => e.2.score now) n (s.hasStatus now .verified)
  top.map fun p => (p.key, p.addr)

variable {s : SharedState}

@[simp] theorem isUsable_iff {now : Clock} {p : Proxy} :
    s.isUsable now p ↔ p.isAvailable now ∧ s.isExcluded p = false := by
  simp [isUsable]

@[simp] theorem hasStatus_iff {now : Clock} {status : ProxyStatus} {p : Proxy} :
    s.hasStatus now status p ↔ s.isUsable now p ∧ p.status = some status := by
  simp [hasStatus]

theorem weightedRandomSelect_mem (draw : WeightedIndex) (clock : ℕ → Clock) (first : Proxy)
    (rest : List Proxy) : weightedRandomSelect draw clock first rest ∈ first :: rest := by
  unfold weightedRandomSelect
  split_ifs
  · exact List.mem_cons_self
  · split
    · exact List.get_mem _ _
    · exact List.mem_cons_self

/-- Every candidate is the outcome of some draw. -/
theorem exists_draw_eq {p first : Proxy} {rest : List Proxy} (h : p ∈ first :: rest) :
    ∃ draw : WeightedIndex, ∀ clock, weightedRandomSelect draw clock first rest = p := by
  obtain ⟨i, hi, rfl⟩ := List.mem_iff_getElem.mp h
  refine ⟨fun ws => if hw : i < ws.length then some ⟨i, hw⟩ else none, fun clock => ?_⟩
  unfold weightedRandomSelect
  split_ifs with hrest
  · subst hrest
    have hi0 : i = 0 := by simpa using hi
    subst hi0
    rfl
  · have hw : i < (weights clock (first :: rest)).length := by simpa [weights] using hi
    simp only [hw, ↓reduceDIte]
    rfl

section Collect

variable {σ : Type*} [LinearOrder σ] {it : s.proxies.Iteration} {score : String × Proxy → σ}
  {n : ℕ} {filter : Proxy → Bool}

theorem mem_passing {e : String × Proxy} :
    e ∈ s.passing it filter ↔ s.proxies.get e.1 = some e.2 ∧ filter e.2 := by
  rw [passing, List.mem_filter, FinMap.Iteration.mem_entries]

theorem passing_perm (it it' : s.proxies.Iteration) :
    (s.passing it filter).Perm (s.passing it' filter) :=
  (it.entries_perm it').filter _

theorem countP_passing (P : Proxy → Bool) :
    (s.passing it filter).countP (fun e => P e.2) = s.proxies.countP fun p => filter p && P p := by
  rw [passing, List.countP_filter, ← it.countP_values, ← it.map_snd_entries, List.countP_map]
  congr 1
  funext e
  exact Bool.and_comm _ _

theorem length_passing : (s.passing it filter).length = s.proxies.countP filter := by
  have h : (s.passing it filter).countP (fun _ => true) = _ := countP_passing fun _ => true
  simpa using h

theorem nodup_keys_passing : ((s.passing it filter).map Prod.fst).Nodup :=
  (it.map_fst_entries ▸ it.nodup).sublist (List.filter_sublist.map Prod.fst)

/-- What a collection of the best `n` is: distinct passing entries of the pool, as many as
there are up to `n`, and no passing entry outside has a strictly lower score. -/
structure IsTop (s : SharedState) (score : String × Proxy → σ) (n : ℕ) (filter : Proxy → Bool)
    (kept : List (String × Proxy)) : Prop where
  stored : ∀ e ∈ kept, s.proxies.get e.1 = some e.2
  passes : ∀ e ∈ kept, filter e.2
  distinct : (kept.map Prod.fst).Nodup
  length : kept.length = min n (s.proxies.countP filter)
  best : ∀ k p, s.proxies.get k = some p → filter p → (k, p) ∉ kept →
    ∀ e ∈ kept, ¬ score (k, p) < score e

theorem isTop_of_perm {kept : List (String × Proxy)}
    (h : kept.Perm (TopN.select n (fun e => (score e : Score σ)) (s.passing it filter))) :
    s.IsTop score n filter kept := by
  obtain ⟨dropped, hperm, hbest, -⟩ :=
    TopN.select_spec n (fun e => (score e : Score σ)) (s.passing it filter)
  have hall : (kept ++ dropped).Perm (s.passing it filter) := (h.append_right dropped).trans hperm
  have hmem : ∀ e ∈ kept, e ∈ s.passing it filter := fun e he =>
    hall.mem_iff.mp (List.mem_append_left _ he)
  refine ⟨fun e he => (mem_passing.mp (hmem e he)).1, fun e he => (mem_passing.mp (hmem e he)).2,
    ?_, ?_, fun k p hp hf hout e he hlt => ?_⟩
  · have hnodup := (hall.map Prod.fst).nodup_iff.mpr nodup_keys_passing
    rw [List.map_append] at hnodup
    exact hnodup.of_append_left
  · rw [h.length_eq, TopN.length_select, length_passing]
  · have hin : (k, p) ∈ kept ++ dropped := hall.mem_iff.mpr (mem_passing.mpr ⟨hp, hf⟩)
    have hdrop := (List.mem_append.mp hin).resolve_left hout
    have hle := hbest e (h.mem_iff.mp he) (k, p) hdrop
    exact absurd hlt (not_lt_of_ge (WithBotTop.coe_le_coe.mp hle))

theorem pairwise_selectSorted_score (l : List (String × Proxy)) :
    (TopN.selectSorted n (fun e => (score e : Score σ)) l).Pairwise
      fun a b => score a ≤ score b :=
  (TopN.pairwise_selectSorted n (fun e => (score e : Score σ)) l).imp WithBotTop.coe_le_coe.mp

/-- The sized collection returns the best `n` passing entries in order of their scores, over
any scan; the fixed one returns ten entries with the same scores. -/
theorem collectTop_spec (s : SharedState) (score : String × Proxy → σ) (filter : Proxy → Bool) :
    (∀ (it : s.proxies.Iteration) (n : ℕ), ∃ kept : List (String × Proxy),
      s.collectTopNSized it score n filter = kept.map Prod.snd ∧ s.IsTop score n filter kept ∧
        kept.Pairwise fun a b => score a ≤ score b) ∧
    ∀ it it' : s.proxies.Iteration, ∃ kept kept' : List (String × Proxy),
      s.collectTopN it score filter = kept.map Prod.snd ∧ s.IsTop score 10 filter kept ∧
        s.collectTopNSized it' score 10 filter = kept'.map Prod.snd ∧
        s.IsTop score 10 filter kept' ∧ (kept.map score).Perm (kept'.map score) := by
  constructor
  · intro it n
    exact ⟨_, rfl, isTop_of_perm (TopN.selectSorted_perm _ _ _), pairwise_selectSorted_score _⟩
  · intro it it'
    refine ⟨_, _, rfl, isTop_of_perm (List.Perm.refl _), rfl,
      isTop_of_perm (TopN.selectSorted_perm _ _ _), ?_⟩
    -- the scan compares scores through their embedding, which is injective
    refine (List.map_perm_map_iff WithBotTop.coe_injective).mp ?_
    simp only [List.map_map]
    exact (TopN.perm_scores_select (passing_perm it it')).trans
      ((TopN.selectSorted_perm _ _ _).map _).symm

end Collect

theorem mem_of_mem_collectTopN {it : s.proxies.Iteration} {now : Clock} {filter : Proxy → Bool}
    {p : Proxy} (h : p ∈ s.collectTopN it (fun e => e.2.score now) filter) :
    ∃ k, s.proxies.get k = some p ∧ filter p ∧
      (k, p) ∈ TopN.select 10 (fun e => (e.2.score now : Score ℚ)) (s.passing it filter) := by
  obtain ⟨⟨k, q⟩, he, rfl⟩ := List.mem_map.mp h
  obtain ⟨hk, hf⟩ := mem_passing.mp (TopN.mem_of_mem_select he)
  exact ⟨k, hk, hf, he⟩

theorem selectTop_eq_none {c : s.Choice} {filter : Proxy → Bool} :
    s.selectTop c filter = none ↔ ∀ k p, s.proxies.get k = some p → ¬ filter p := by
  have hnil : s.selectTop c filter = none ↔
      s.collectTopN c.it (fun e => e.2.score c.now) filter = [] := by
    unfold selectTop
    split
    next h => simp [h]
    next h => simp [h]
  rw [hnil, collectTopN, List.map_eq_nil_iff, TopN.select_eq_nil (by norm_num),
    List.eq_nil_iff_forall_not_mem]
  constructor
  · intro h k p hp hf
    exact h (k, p) (mem_passing.mpr ⟨hp, hf⟩)
  · intro h e he
    obtain ⟨hp, hf⟩ := mem_passing.mp he
    exact h e.1 e.2 hp hf

/-- How many pool entries pass the filter with a lower score than `p`. -/
def better (s : SharedState) (now : Clock) (filter : Proxy → Bool) (p : Proxy) : ℕ :=
  s.proxies.countP fun q => filter q && q.score now < p.score now

theorem countP_better {it : s.proxies.Iteration} {now : Clock} {filter : Proxy → Bool}
    {p : Proxy} :
    (s.passing it filter).countP
        (fun e => decide ((e.2.score now : Score ℚ) < (p.score now : Score ℚ))) =
      s.better now filter p := by
  simp only [WithBotTop.coe_lt_coe]
  exact countP_passing fun q => decide (q.score now < p.score now)

/-- A tier answers with an entry that passes, and fewer than ten passing entries beat it. -/
theorem selectTop_spec {c : s.Choice} {filter : Proxy → Bool} {p : Proxy}
    (h : s.selectTop c filter = some p) :
    (∃ k, s.proxies.get k = some p) ∧ filter p ∧ s.better c.now filter p < 10 := by
  unfold selectTop at h
  split at h
  · cases h
  next first rest htop =>
    have hmem : p ∈ s.collectTopN c.it (fun e => e.2.score c.now) filter := by
      rw [htop, ← Option.some.inj h]
      exact weightedRandomSelect_mem _ _ _ _
    obtain ⟨k, hk, hfilter, hsel⟩ := mem_of_mem_collectTopN hmem
    exact ⟨⟨k, hk⟩, hfilter, countP_better.symm.trans_lt (TopN.countP_lt_of_mem_select hsel)⟩

/-- Every such entry is an answer of the tier, for some order of the pool and some draw. -/
theorem exists_selectTop_eq {now : Clock} (filter : Proxy → Bool) {k : String} {p : Proxy}
    (hp : s.proxies.get k = some p) (hfilter : filter p) (hn : s.better now filter p < 10) :
    ∃ c : s.Choice, c.now = now ∧ s.selectTop c filter = some p := by
  obtain ⟨it₀⟩ := FinMap.Iteration.nonempty s.proxies
  have hmem : (k, p) ∈ s.passing it₀ filter := mem_passing.mpr ⟨hp, hfilter⟩
  obtain ⟨l, hperm, hsel⟩ : ∃ l : List (String × Proxy), l.Perm (s.passing it₀ filter) ∧
      (k, p) ∈ TopN.select 10 (fun e => (e.2.score now : Score ℚ)) l :=
    TopN.exists_perm_mem_select hmem (by rwa [countP_better])
  -- a scan that meets the passing entries in the order `l` and the others after them
  have hentries : (l ++ it₀.entries.filter fun e => !filter e.2).Perm it₀.entries :=
    (hperm.append_right _).trans (List.filter_append_perm _ _)
  obtain ⟨it, hit⟩ := it₀.exists_entries_of_perm hentries
  have hfil : s.passing it filter = l := by
    have hl : ∀ e ∈ l, filter e.2 := fun e he => (mem_passing.mp (hperm.mem_iff.mp he)).2
    rw [passing, hit, List.filter_append, List.filter_eq_self.mpr hl, List.filter_filter]
    simp
  have htop : p ∈ s.collectTopN it (fun e => e.2.score now) filter := by
    rw [collectTopN, hfil]
    exact List.mem_map_of_mem hsel
  obtain ⟨first, rest, hcons⟩ := List.exists_cons_of_ne_nil (List.ne_nil_of_mem htop)
  obtain ⟨draw, hdraw⟩ := exists_draw_eq (hcons ▸ htop)
  refine ⟨⟨it, draw, now⟩, rfl, ?_⟩
  simp only [selectTop, hcons, hdraw]

theorem findUnchecked_spec {c : s.Choice} {p : Proxy} (h : s.findUnchecked c = some p) :
    (∃ k, s.proxies.get k = some p) ∧ s.isUsable c.now p ∧
      (p.status = some .unchecked ∨ p.status = none) := by
  have hmem := List.mem_filter.mp (List.mem_of_find?_eq_some h)
  exact ⟨FinMap.Iteration.mem_values.mp hmem.1, hmem.2, by simpa using List.find?_some h⟩

theorem findUnchecked_eq_none {c : s.Choice} :
    s.findUnchecked c = none ↔ ∀ k p, s.proxies.get k = some p → s.isUsable c.now p →
      ¬ (p.status = some .unchecked ∨ p.status = none) := by
  simp only [findUnchecked, List.find?_eq_none, List.mem_filter, decide_eq_true_eq]
  constructor
  · intro h k p hp hu
    exact h p ⟨FinMap.Iteration.mem_values.mpr ⟨k, hp⟩, hu⟩
  · rintro h p ⟨hp, hu⟩
    obtain ⟨k, hk⟩ := FinMap.Iteration.mem_values.mp hp
    exact h k p hk hu

/-- The indexed selection answers with an available verified entry that the index lists. -/
theorem selectBestByCountry_spec {draw : WeightedIndex} {now : Clock} {country : String}
    {p : Proxy} (h : s.selectBestByCountry draw now country = some p) :
    ∃ k ∈ (s.geoIndex.get country).getD [], s.proxies.get k = some p ∧ p.isAvailable now ∧
      p.status = some .verified := by
  simp only [selectBestByCountry] at h
  split at h
  · cases h
  next first rest htake =>
    have hmem : p ∈ first :: rest := by
      rw [← Option.some.inj h]
      exact weightedRandomSelect_mem _ _ _ _
    rw [← htake] at hmem
    have hcand := List.mem_of_mem_take hmem
    rw [List.mem_mergeSort, List.mem_filter, List.mem_filterMap] at hcand
    obtain ⟨⟨k, hk, hget⟩, hfilter⟩ := hcand
    exact ⟨k, hk, hget, by simpa using hfilter⟩

/-- It answers whenever the index lists such an entry. -/
theorem selectBestByCountry_isSome {draw : WeightedIndex} {now : Clock} {country k : String}
    {p : Proxy} (hk : k ∈ (s.geoIndex.get country).getD []) (hp : s.proxies.get k = some p)
    (havail : p.isAvailable now) (hst : p.status = some .verified) :
    ∃ q, s.selectBestByCountry draw now country = some q := by
  have hmem : p ∈ (((s.geoIndex.get country).getD []).filterMap s.proxies.get).filter fun p =>
      p.isAvailable now && p.status = some .verified := by
    rw [List.mem_filter, List.mem_filterMap]
    exact ⟨⟨k, hk, hp⟩, by simp [havail, hst]⟩
  simp only [selectBestByCountry]
  split
  next htake =>
    rw [List.take_eq_nil_iff, or_iff_right (by norm_num)] at htake
    rw [← List.mem_mergeSort, htake] at hmem
    cases hmem
  next first rest _ => exact ⟨_, rfl⟩

theorem selectBestByCountry_stored {draw : WeightedIndex} {now : Clock} {country : String}
    {p : Proxy} (h : s.selectBestByCountry draw now country = some p) :
    ∃ k, s.proxies.get k = some p := by
  obtain ⟨k, -, hk, -⟩ := selectBestByCountry_spec h
  exact ⟨k, hk⟩

theorem topStableProxies_stored {it : s.proxies.Iteration} {now : Clock} {n : ℕ}
    {e : String × String} (h : e ∈ s.topStableProxies it now n) :
    ∃ k p, s.proxies.get k = some p ∧ e = (p.key, p.addr) := by
  obtain ⟨p, hp, rfl⟩ := List.mem_map.mp h
  obtain ⟨⟨k, q⟩, he, rfl⟩ := List.mem_map.mp hp
  have hsel := (TopN.selectSorted_perm _ _ _).mem_iff.mp he
  exact ⟨k, q, (mem_passing.mp (TopN.mem_of_mem_select hsel)).1, rfl⟩

/-- The tier of a status; failed proxies belong to none of the three. -/
def tier : Option ProxyStatus → ℕ
  | some .verified => 0
  | some .presumedAlive => 1
  | some .unchecked => 2
  | none => 2
  | some .failed => 3

/-- Whether some tier of the selection admits the proxy. -/
def isCandidate (s : SharedState) (now : Clock) (p : Proxy) : Bool :=
  s.isUsable now p && p.status ≠ some .failed

@[simp] theorem isCandidate_iff {now : Clock} {p : Proxy} :
    s.isCandidate now p ↔ s.isUsable now p ∧ p.status ≠ some .failed := by
  simp [isCandidate]

/-- What selection promises of its answer: a pool entry that a tier admits, in the best tier
that has one, and beaten by fewer than ten entries of its tier where scores count. -/
structure Ranked (s : SharedState) (now : Clock) (p : Proxy) : Prop where
  stored : ∃ k, s.proxies.get k = some p
  available : p.isAvailable now
  notExcluded : s.isExcluded p = false
  selectable : p.status = some .verified ∨ p.status = some .presumedAlive ∨
    p.status = some .unchecked ∨ p.status = none
  best : ∀ k q, s.proxies.get k = some q → s.isCandidate now q → tier p.status ≤ tier q.status
  top : tier p.status < 2 →
    s.proxies.countP (fun q => (s.isUsable now q && tier q.status = tier p.status) &&
      q.score now < p.score now) < 10

theorem tier_eq_iff {status : ProxyStatus} {o : Option ProxyStatus}
    (h : tier (some status) < 2) : tier o = tier (some status) ↔ o = some status := by
  cases status <;> cases o <;> try cases ‹ProxyStatus›
  all_goals simp_all [tier]

private theorem hasStatus_eq_tier {now : Clock} {status : ProxyStatus}
    (h : tier (some status) < 2) :
    s.hasStatus now status = fun q => s.isUsable now q && tier q.status = tier (some status) := by
  funext q
  simp only [hasStatus, tier_eq_iff h]

/-- A tier's answer is ranked, if the better tiers are empty. -/
theorem ranked_of_selectTop {c : s.Choice} {status : ProxyStatus} {p : Proxy}
    (hs : tier (some status) < 2) (h : s.selectTop c (s.hasStatus c.now status) = some p)
    (hbetter : ∀ k q, s.proxies.get k = some q → s.isCandidate c.now q →
      tier (some status) ≤ tier q.status) : s.Ranked c.now p := by
  obtain ⟨hstored, hfilter, hcount⟩ := selectTop_spec h
  obtain ⟨husable, hstatus⟩ := hasStatus_iff.mp hfilter
  obtain ⟨havail, hexcl⟩ := isUsable_iff.mp husable
  refine ⟨hstored, havail, hexcl, ?_, by rwa [hstatus], fun _ => ?_⟩
  · rw [hstatus]
    cases status <;> simp_all [tier]
  · rw [hstatus]
    rwa [better, hasStatus_eq_tier hs] at hcount

theorem status_ne_of_selectTop_eq_none {c : s.Choice} {status : ProxyStatus} {k : String}
    {q : Proxy} (h : s.selectTop c (s.hasStatus c.now status) = none)
    (hq : s.proxies.get k = some q) (hc : s.isCandidate c.now q) : q.status ≠ some status := by
  intro hstatus
  exact selectTop_eq_none.mp h k q hq (hasStatus_iff.mpr ⟨(isCandidate_iff.mp hc).1, hstatus⟩)

theorem one_le_tier {o : Option ProxyStatus} (hv : o ≠ some .verified) : 1 ≤ tier o := by
  revert hv
  cases o with
  | none => simp [tier]
  | some status => cases status <;> simp [tier]

theorem two_le_tier {o : Option ProxyStatus} (hv : o ≠ some .verified)
    (hpa : o ≠ some .presumedAlive) : 2 ≤ tier o := by
  revert hv hpa
  cases o with
  | none => simp [tier]
  | some status => cases status <;> simp [tier]

/-- The answer of the last tier is ranked, if the other two are empty. -/
theorem ranked_of_findUnchecked {c : s.Choice} {p : Proxy} (h : s.findUnchecked c = some p)
    (hbetter : ∀ k q, s.proxies.get k = some q → s.isCandidate c.now q → 2 ≤ tier q.status) :
    s.Ranked c.now p := by
  obtain ⟨hstored, husable, hstatus⟩ := findUnchecked_spec h
  obtain ⟨havail, hexcl⟩ := isUsable_iff.mp husable
  have htier : tier p.status = 2 := by
    rcases hstatus with hst | hst <;> rw [hst] <;> rfl
  exact ⟨hstored, havail, hexcl, Or.inr (Or.inr hstatus), by rwa [htier], by omega⟩

theorem selectBest_ranked {c : s.Choice} {p : Proxy} (h : s.selectBest c = some p) :
    s.Ranked c.now p := by
  unfold selectBest at h
  cases h₁ : s.selectTop c (s.hasStatus c.now .verified) with
  | some a =>
    rw [h₁, Option.some_or, Option.some.injEq] at h
    subst h
    exact ranked_of_selectTop (by decide) h₁ fun _ _ _ _ => Nat.zero_le _
  | none =>
    rw [h₁, Option.none_or] at h
    have hv : ∀ k q, s.proxies.get k = some q → s.isCandidate c.now q →
        q.status ≠ some .verified := fun _ _ => status_ne_of_selectTop_eq_none h₁
    cases h₂ : s.selectTop c (s.hasStatus c.now .presumedAlive) with
    | some a =>
      rw [h₂, Option.some_or, Option.some.injEq] at h
      subst h
      exact ranked_of_selectTop (by decide) h₂ fun k q hq hc => one_le_tier (hv k q hq hc)
    | none =>
      rw [h₂, Option.none_or] at h
      have hpa : ∀ k q, s.proxies.get k = some q → s.isCandidate c.now q →
          q.status ≠ some .presumedAlive := fun _ _ => status_ne_of_selectTop_eq_none h₂
      exact ranked_of_findUnchecked h fun k q hq hc => two_le_tier (hv k q hq hc) (hpa k q hq hc)

/-- Selection comes out empty only when no tier admits any proxy of the pool. -/
theorem selectBest_eq_none {c : s.Choice} :
    s.selectBest c = none ↔ ∀ k p, s.proxies.get k = some p → ¬ s.isCandidate c.now p := by
  simp only [selectBest, Option.or_eq_none_iff, selectTop_eq_none, findUnchecked_eq_none]
  constructor
  · rintro ⟨h₁, h₂, h₃⟩ k p hp hc
    obtain ⟨husable, hstatus⟩ := isCandidate_iff.mp hc
    have hv := h₁ k p hp
    have hpa := h₂ k p hp
    have hu := h₃ k p hp husable
    simp only [hasStatus_iff, husable, true_and] at hv hpa
    cases hst : p.status with
    | none => exact hu (Or.inr hst)
    | some st => cases st <;> simp_all
  · intro h
    refine ⟨fun k p hp hf => ?_, fun k p hp hf => ?_, fun k p hp hu hst => ?_⟩
    · obtain ⟨hu, hst⟩ := hasStatus_iff.mp hf
      exact h k p hp (isCandidate_iff.mpr ⟨hu, by simp [hst]⟩)
    · obtain ⟨hu, hst⟩ := hasStatus_iff.mp hf
      exact h k p hp (isCandidate_iff.mpr ⟨hu, by simp [hst]⟩)
    · exact h k p hp (isCandidate_iff.mpr ⟨hu, by rcases hst with hst | hst <;> simp [hst]⟩)

/-- The status a selection tier asks for. -/
theorem isCandidate_iff_status {now : Clock} {p : Proxy} :
    s.isCandidate now p ↔ p.isAvailable now ∧ s.isExcluded p = false ∧
      (p.status = some .verified ∨ p.status = some .presumedAlive ∨
        p.status = some .unchecked ∨ p.status = none) := by
  rw [isCandidate_iff, isUsable_iff, and_assoc]
  refine and_congr_right fun _ => and_congr_right fun _ => ?_
  cases p.status with
  | none => simp
  | some st => cases st <;> simp

/-- Selection answers exactly when some tier admits a proxy, and its answer is ranked. -/
theorem selectBest_spec (s : SharedState) (c : s.Choice) :
    ((∃ p, s.selectBest c = some p) ↔ ∃ k p, s.proxies.get k = some p ∧ p.isAvailable c.now ∧
      s.isExcluded p = false ∧ (p.status = some .verified ∨ p.status = some .presumedAlive ∨
        p.status = some .unchecked ∨ p.status = none)) ∧
    ∀ p, s.selectBest c = some p → s.Ranked c.now p := by
  refine ⟨?_, fun p => selectBest_ranked⟩
  rw [← Option.ne_none_iff_exists', ne_eq, selectBest_eq_none]
  push Not
  simp only [isCandidate_iff_status]

/-- A better tier than the one of a ranked proxy is empty. -/
theorem Ranked.selectTop_eq_none {p : Proxy} {c : s.Choice} (h : s.Ranked c.now p)
    {status : ProxyStatus} (hlt : tier (some status) < tier p.status) :
    s.selectTop c (s.hasStatus c.now status) = none := by
  have hnotFailed : some status ≠ some .failed := by
    rintro hfail
    obtain rfl := Option.some.inj hfail
    rcases h.selectable with e | e | e | e <;> rw [e] at hlt <;> simp [tier] at hlt
  refine SharedState.selectTop_eq_none.mpr fun k q hq hf => ?_
  obtain ⟨hu, hst⟩ := hasStatus_iff.mp hf
  have hle := h.best k q hq (isCandidate_iff.mpr ⟨hu, hst ▸ hnotFailed⟩)
  rw [hst] at hle
  omega

theorem Ranked.exists_selectTop_eq {now : Clock} {p : Proxy} (h : s.Ranked now p)
    {status : ProxyStatus} (hstatus : p.status = some status) (hlt : tier (some status) < 2) :
    ∃ c : s.Choice, c.now = now ∧ s.selectTop c (s.hasStatus c.now status) = some p := by
  obtain ⟨k, hk⟩ := h.stored
  have husable : s.isUsable now p := isUsable_iff.mpr ⟨h.available, h.notExcluded⟩
  have hcount := h.top (by rwa [hstatus])
  rw [hstatus] at hcount
  obtain ⟨c, rfl, hc⟩ := SharedState.exists_selectTop_eq (s.hasStatus now status) hk
    (hasStatus_iff.mpr ⟨husable, hstatus⟩) (by rwa [better, hasStatus_eq_tier hlt])
  exact ⟨c, rfl, hc⟩

/-- A usable proxy of the last tier is found first by a scan that meets it first. -/
theorem exists_findUnchecked_eq {now : Clock} {k : String} {p : Proxy}
    (hp : s.proxies.get k = some p) (hu : s.isUsable now p)
    (hst : p.status = some .unchecked ∨ p.status = none) :
    ∃ c : s.Choice, c.now = now ∧ s.findUnchecked c = some p := by
  obtain ⟨it₀⟩ := FinMap.Iteration.nonempty s.proxies
  have hmem : p ∈ it₀.values := FinMap.Iteration.mem_values.mpr ⟨k, hp⟩
  obtain ⟨it, hit⟩ := it₀.exists_values_of_perm (List.perm_cons_erase hmem).symm
  refine ⟨⟨it, fun _ => none, now⟩, rfl, ?_⟩
  rw [findUnchecked, hit, List.filter_cons_of_pos hu, List.find?_cons_of_pos (by simpa using hst)]

/-- Every ranked proxy is the answer for some order of the pool and some draw. -/
theorem Ranked.exists_selectBest_eq {now : Clock} {p : Proxy} (h : s.Ranked now p) :
    ∃ c : s.Choice, c.now = now ∧ s.selectBest c = some p := by
  by_cases hv : p.status = some .verified
  · obtain ⟨c, hc, hsel⟩ := h.exists_selectTop_eq hv (by decide)
    exact ⟨c, hc, by rw [selectBest, hsel, Option.some_or]⟩
  by_cases hpa : p.status = some .presumedAlive
  · obtain ⟨c, rfl, hsel⟩ := h.exists_selectTop_eq hpa (by decide)
    have hnone : s.selectTop c (s.hasStatus c.now .verified) = none :=
      h.selectTop_eq_none (by rw [hpa]; decide)
    exact ⟨c, rfl, by rw [selectBest, hnone, Option.none_or, hsel, Option.some_or]⟩
  have hun : p.status = some .unchecked ∨ p.status = none := by
    rcases h.selectable with e | e | e | e
    · exact absurd e hv
    · exact absurd e hpa
    · exact Or.inl e
    · exact Or.inr e
  have htier : tier p.status = 2 := by rcases hun with e | e <;> rw [e] <;> rfl
  obtain ⟨k, hk⟩ := h.stored
  obtain ⟨c, rfl, hsel⟩ :=
    exists_findUnchecked_eq hk (isUsable_iff.mpr ⟨h.available, h.notExcluded⟩) hun
  have hv' : s.selectTop c (s.hasStatus c.now .verified) = none :=
    h.selectTop_eq_none (by rw [htier]; decide)
  have hpa' : s.selectTop c (s.hasStatus c.now .presumedAlive) = none :=
    h.selectTop_eq_none (by rw [htier]; decide)
  exact ⟨c, rfl, by rw [selectBest, hv', Option.none_or, hpa', Option.none_or, hsel]⟩

/-- A proxy that HTTPS traffic should go through: usable, alive and validated. -/
def isCleanUsable (s : SharedState) (now : Clock) (p : Proxy) : Bool :=
  s.isUsable now p && (p.status = some .verified || p.status = some .presumedAlive) &&
    p.tlsClean = some true

theorem isCleanUsable_iff {now : Clock} {p : Proxy} :
    s.isCleanUsable now p ↔ s.isUsable now p ∧
      (p.status = some .verified ∨ p.status = some .presumedAlive) ∧ p.tlsClean = some true := by
  simp [isCleanUsable, and_assoc]

/-- Selection for HTTPS answers with a clean proxy while one is usable. -/
theorem selectBestForTls_clean {c : s.Choice} {p q : Proxy} {k : String}
    (h : s.selectBestForTls c = some p) (hq : s.proxies.get k = some q)
    (hclean : s.isCleanUsable c.now q) : p.tlsClean = some true := by
  obtain ⟨hu, hstatus, htls⟩ := isCleanUsable_iff.mp hclean
  unfold selectBestForTls at h
  rcases Option.or_eq_some_iff.mp h with h₁ | ⟨h₁, h⟩
  · exact by simpa using (Bool.and_eq_true_iff.mp (selectTop_spec h₁).2.1).2
  rcases Option.or_eq_some_iff.mp h with h₂ | ⟨h₂, -⟩
  · exact by simpa using (Bool.and_eq_true_iff.mp (selectTop_spec h₂).2.1).2
  rcases hstatus with hst | hst
  · exact absurd (by simp [hu, hst, htls]) (selectTop_eq_none.mp h₁ k q hq)
  · exact absurd (by simp [hu, hst, htls]) (selectTop_eq_none.mp h₂ k q hq)

/-- The answer for HTTPS is a pool entry that selection admits. -/
theorem selectBestForTls_spec {c : s.Choice} {p : Proxy} (h : s.selectBestForTls c = some p) :
    (∃ k, s.proxies.get k = some p) ∧ s.isCandidate c.now p := by
  unfold selectBestForTls at h
  rcases Option.or_eq_some_iff.mp h with h₁ | ⟨-, h⟩
  · obtain ⟨hstored, hf, -⟩ := selectTop_spec h₁
    obtain ⟨hu, hst⟩ := hasStatus_iff.mp (Bool.and_eq_true_iff.mp hf).1
    exact ⟨hstored, isCandidate_iff.mpr ⟨hu, by simp [hst]⟩⟩
  rcases Option.or_eq_some_iff.mp h with h₂ | ⟨-, h⟩
  · obtain ⟨hstored, hf, -⟩ := selectTop_spec h₂
    obtain ⟨hu, hst⟩ := hasStatus_iff.mp (Bool.and_eq_true_iff.mp hf).1
    exact ⟨hstored, isCandidate_iff.mpr ⟨hu, by simp [hst]⟩⟩
  · have hr := selectBest_ranked h
    exact ⟨hr.stored, isCandidate_iff_status.mpr ⟨hr.available, hr.notExcluded, hr.selectable⟩⟩

theorem selectBestForTls_eq_none {c : s.Choice} :
    s.selectBestForTls c = none ↔ s.selectBest c = none := by
  constructor
  · intro h
    exact (Option.or_eq_none_iff.mp (Option.or_eq_none_iff.mp h).2).2
  · intro h
    cases hp : s.selectBestForTls c with
    | none => rfl
    | some p =>
      obtain ⟨⟨k, hk⟩, hc⟩ := selectBestForTls_spec hp
      exact absurd hc (selectBest_eq_none.mp h k p hk)

end SharedState

end VpnGateway
