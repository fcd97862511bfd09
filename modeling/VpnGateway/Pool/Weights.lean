import VpnGateway.Pool.Selection

/-! The weights of the random draw while the clocks advance between the calls of `score`. -/
namespace VpnGateway

namespace Proxy

/-- Whether the bonus for a success in the last 300 seconds is granted. -/
def workedRecently (p : Proxy) (now : Clock) : Bool :=
  match p.lastSuccess with
  | some last => max (numSeconds (now.utc - last)) 0 < 300
  | none => false

/-- The longest streak known, the running one included. -/
def uptime (p : Proxy) (now : Clock) : ℕ :=
  max (match p.uptimeStreakStart with
    | some start => start.elapsedSecs now
    | none => 0) p.uptimeMaxSecs

/-- The bonus for a streak: 50 from five minutes on, 500 from an hour on. -/
def stabilityBonus (uptime : ℕ) : ℚ :=
  if 300 < uptime then min (((uptime : ℚ) - 300) / 3300 * 450 + 50) 500 else 0

theorem score_eq (p : Proxy) (now : Clock) :
    p.score now = p.latencyEwma + p.consecutiveFails.toNat * 50 - p.priorityBoost -
      (if p.workedRecently now then 100 else 0) - stabilityBonus (p.uptime now) := by
  unfold score workedRecently stabilityBonus uptime
  cases p.lastSuccess <;> cases p.uptimeStreakStart <;>
    simp only [decide_eq_true_eq, Bool.false_eq_true, ↓reduceIte] <;> split_ifs <;> ring

variable {p : Proxy} {now later : Clock}

/-- A success that is no longer recent does not become so. -/
theorem workedRecently_anti (hle : now.utc ≤ later.utc) (h : p.workedRecently later) :
    p.workedRecently now := by
  unfold workedRecently at h ⊢
  cases hlast : p.lastSuccess with
  | none => simp [hlast] at h
  | some last =>
    simp only [hlast, decide_eq_true_eq, max_lt_iff] at h ⊢
    refine ⟨lt_of_le_of_lt ?_ h.1, h.2⟩
    exact Int.tdiv_le_tdiv (by norm_num) (Int.sub_le_sub_right hle last)

theorem elapsedSecs_mono {start : Instant} (hle : now.instant ≤ later.instant) :
    start.elapsedSecs now ≤ start.elapsedSecs later :=
  Nat.div_le_div_right (Nat.sub_le_sub_right hle start)

theorem uptime_mono (hle : now.instant ≤ later.instant) : p.uptime now ≤ p.uptime later := by
  refine max_le_max_right _ ?_
  cases p.uptimeStreakStart with
  | none => exact le_rfl
  | some start => exact elapsedSecs_mono hle

theorem stabilityBonus_mono : Monotone stabilityBonus := by
  intro u v huv
  have hcast : (u : ℚ) ≤ v := by exact_mod_cast huv
  unfold stabilityBonus
  split_ifs with hu hv hv
  · refine min_le_min_right _ ?_
    linarith
  · omega
  · have hv' : (300 : ℚ) < v := by exact_mod_cast hv
    refine le_min ?_ (by norm_num)
    linarith
  · exact le_rfl

/-- The 300 seconds after the last success end between the two readings. -/
def Lapses (p : Proxy) (now later : Clock) : Prop := p.workedRecently now ∧ ¬ p.workedRecently later

instance : Decidable (p.Lapses now later) := inferInstanceAs (Decidable (_ ∧ _))

/-- Only a bonus that lapses raises a score while time passes. -/
theorem score_anti (hinst : now.instant ≤ later.instant) (hutc : now.utc ≤ later.utc)
    (h : ¬ p.Lapses now later) : p.score later ≤ p.score now := by
  have hbonus := stabilityBonus_mono (uptime_mono (p := p) hinst)
  have hrecent : p.workedRecently later = p.workedRecently now := by
    rw [Bool.eq_iff_iff]
    exact ⟨workedRecently_anti hutc, fun hn => by_contra fun hl => h ⟨hn, hl⟩⟩
  rw [score_eq, score_eq, hrecent]
  linarith

end Proxy

/-- The clock readings of one draw, in the order of the calls of `score`. -/
structure Readings where
  read : ℕ → Clock
  instant_mono : Monotone fun i => (read i).instant
  utc_mono : Monotone fun i => (read i).utc

namespace SharedState

/-- Whether `WeightedIndex::new` accepts the weights: some are given, none is negative and
not all are zero. -/
def newAccepts (weights : List ℚ) : Bool := weights.all (0 ≤ ·) && 0 < weights.sum

/-- What the draw relies on. A single candidate is returned without one. -/
def WeightsSound (clock : ℕ → Clock) (first : Proxy) (rest : List Proxy) : Prop :=
  rest ≠ [] → (∀ w ∈ weights clock (first :: rest), 1 ≤ w) ∧
    newAccepts (weights clock (first :: rest))

theorem newAccepts_of_ge_one {ws : List ℚ} (hne : ws ≠ []) (h : ∀ w ∈ ws, 1 ≤ w) :
    newAccepts ws := by
  have hnonneg : ∀ w ∈ ws, 0 ≤ w := fun w hw => zero_le_one.trans (h w hw)
  obtain ⟨w, rest, rfl⟩ := List.exists_cons_of_ne_nil hne
  have hsum : 0 < (w :: rest).sum := by
    rw [List.sum_cons]
    have hw := h w (by simp)
    have hrest := List.sum_nonneg fun x hx => hnonneg x (List.mem_cons_of_mem w hx)
    linarith
  simp only [newAccepts, Bool.and_eq_true, List.all_eq_true, decide_eq_true_eq]
  exact ⟨hnonneg, hsum⟩

/-- The maximum of the first pass is the score of some candidate and bounds them all. -/
theorem le_maxScore_iff {clock : ℕ → Clock} {candidates : List Proxy} (hne : candidates ≠ [])
    (x : ℚ) : x ≤ ((candidates.mapIdx fun i p => p.score (clock i)).max?).getD 0 ↔
      ∃ (j : ℕ) (q : Proxy), candidates[j]? = some q ∧ x ≤ q.score (clock j) := by
  have hne' : (candidates.mapIdx fun i p => p.score (clock i)) ≠ [] := by simpa using hne
  obtain ⟨m, hm⟩ := Option.isSome_iff_exists.mp (List.isSome_max?_of_ne_nil hne')
  rw [hm, Option.getD_some]
  constructor
  · intro hx
    obtain ⟨j, hj⟩ := List.mem_iff_getElem?.mp (List.max?_mem hm)
    rw [List.getElem?_mapIdx, Option.map_eq_some_iff] at hj
    obtain ⟨q, hq, rfl⟩ := hj
    exact ⟨j, q, hq, hx⟩
  · rintro ⟨j, q, hq, hx⟩
    refine hx.trans ((List.max?_le_iff hm).mp le_rfl _ ?_)
    exact List.mem_iff_getElem?.mpr ⟨j, by rw [List.getElem?_mapIdx, hq, Option.map_some]⟩

/-- All weights are at least one, if no candidate scores worse in the second pass than every
candidate did in the first. -/
theorem weights_ge_one_iff {clock : ℕ → Clock} {candidates : List Proxy} (hne : candidates ≠ []) :
    (∀ w ∈ weights clock candidates, 1 ≤ w) ↔ ∀ (i : ℕ) (p : Proxy), candidates[i]? = some p →
      ∃ (j : ℕ) (q : Proxy), candidates[j]? = some q ∧
        p.score (clock (candidates.length + i)) ≤ q.score (clock j) := by
  simp only [← le_maxScore_iff hne]
  unfold weights
  constructor
  · intro h i p hp
    have hw := h _ (List.mem_iff_getElem?.mpr
      ⟨i, by rw [List.getElem?_mapIdx, hp, Option.map_some]⟩)
    linarith
  · intro h w hw
    obtain ⟨i, hi⟩ := List.mem_iff_getElem?.mp hw
    rw [List.getElem?_mapIdx, Option.map_eq_some_iff] at hi
    obtain ⟨p, hp, rfl⟩ := hi
    have := h i p hp
    linarith

/-- Where the weights are not accepted, every draw comes out as the first candidate. -/
theorem weightedRandomSelect_eq_first {draw : WeightedIndex}
    (hdraw : ∀ ws, ¬ newAccepts ws → draw ws = none) {clock : ℕ → Clock} {first : Proxy}
    {rest : List Proxy} (h : ¬ newAccepts (weights clock (first :: rest))) :
    weightedRandomSelect draw clock first rest = first := by
  unfold weightedRandomSelect
  rw [hdraw _ h]
  exact ite_self first

/-! Two proxies that last worked at the same time; their 300 seconds end between the passes. -/

def lapsing (host : String) : Proxy :=
  { Proxy.new host 80 .http with lastSuccess := some (-299999999999) }

def tick : Readings where
  read i := if i < 2 then ⟨0, 0⟩ else ⟨1, 1⟩
  instant_mono i j h := by
    dsimp only
    split_ifs
    · exact le_rfl
    · exact Nat.zero_le _
    · omega
    · exact le_rfl
  utc_mono i j h := by
    dsimp only
    split_ifs
    · exact le_rfl
    · exact Int.one_nonneg
    · omega
    · exact le_rfl

theorem weights_lapsing :
    weights tick.read [lapsing "1.1.1.1", lapsing "2.2.2.2"] = [-99, -99] := by decide +kernel

end SharedState

end VpnGateway
