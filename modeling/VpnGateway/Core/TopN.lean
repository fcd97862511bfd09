import Mathlib

/-! A one-pass scan that keeps the `n` entries of least score. Every entry is scored
once; a full buffer gives up its last entry of greatest score. -/
namespace TopN

variable {σ α : Type*} [LinearOrder σ] [BoundedOrder σ]

structure Buffer (σ α : Type*) where
  top : List (σ × α)
  worst : σ

def maxScore (top : List (σ × α)) : σ := top.foldl (fun w e => max w e.1) ⊥

/-- The greatest score and the last position that holds it. -/
def lastMax : List (σ × α) → Option (σ × ℕ)
  | [] => none
  | e :: rest =>
    match lastMax rest with
    | none => some (e.1, 0)
    | some (s, i) => if s < e.1 then some (e.1, 0) else some (s, i + 1)

def step (n : ℕ) (score : α → σ) (b : Buffer σ α) (a : α) : Buffer σ α :=
  let s := score a
  if b.top.length < n then
    let top := b.top ++ [(s, a)]
    ⟨top, if top.length = n then maxScore top else b.worst⟩
  else if s < b.worst then
    match lastMax b.top with
    | some (_, i) =>
      let top := b.top.set i (s, a)
      ⟨top, maxScore top⟩
    | none => b
  else b

def scan (n : ℕ) (score : α → σ) (l : List α) : Buffer σ α := l.foldl (step n score) ⟨[], ⊤⟩

def select (n : ℕ) (score : α → σ) (l : List α) : List α := (scan n score l).top.map Prod.snd

/-- The kept entries, sorted by the scores that the scan stored. -/
def selectSorted (n : ℕ) (score : α → σ) (l : List α) : List α :=
  ((scan n score l).top.mergeSort fun a b => a.1 ≤ b.1).map Prod.snd

omit [BoundedOrder σ] in
private theorem foldl_max_spec (top : List (σ × α)) (w : σ) :
    w ≤ top.foldl (fun w e => max w e.1) w ∧
      (∀ e ∈ top, e.1 ≤ top.foldl (fun w e => max w e.1) w) ∧
      (top.foldl (fun w e => max w e.1) w = w ∨
        ∃ e ∈ top, e.1 = top.foldl (fun w e => max w e.1) w) := by
  induction top generalizing w with
  | nil => simp
  | cons e top ih =>
    obtain ⟨hw, hall, hex⟩ := ih (max w e.1)
    simp only [List.foldl_cons, List.forall_mem_cons, List.exists_mem_cons_iff]
    refine ⟨(le_max_left _ _).trans hw, ⟨(le_max_right _ _).trans hw, hall⟩, ?_⟩
    rcases hex with hex | hex
    · rw [hex]
      rcases max_choice w e.1 with h | h
      · exact Or.inl h
      · exact Or.inr (Or.inl h.symm)
    · exact Or.inr (Or.inr hex)

theorem le_maxScore {top : List (σ × α)} {e : σ × α} (h : e ∈ top) : e.1 ≤ maxScore top :=
  (foldl_max_spec top ⊥).2.1 e h

theorem exists_maxScore {top : List (σ × α)} (h : top ≠ []) : ∃ e ∈ top, e.1 = maxScore top := by
  rcases (foldl_max_spec top ⊥).2.2 with hb | hex
  · obtain ⟨e, he⟩ := List.exists_mem_of_ne_nil top h
    exact ⟨e, he, le_antisymm (le_maxScore he) (hb.le.trans bot_le)⟩
  · exact hex

omit [BoundedOrder σ] in
theorem lastMax_eq_none {top : List (σ × α)} : lastMax top = none ↔ top = [] := by
  cases top with
  | nil => simp [lastMax]
  | cons e rest =>
    simp only [lastMax, reduceCtorEq, iff_false]
    split
    · simp
    · split <;> simp

omit [BoundedOrder σ] in
theorem lastMax_spec {top : List (σ × α)} {m : σ} {i : ℕ} (h : lastMax top = some (m, i)) :
    (∃ a, top[i]? = some (m, a)) ∧ ∀ e ∈ top, e.1 ≤ m := by
  induction top generalizing m i with
  | nil => simp [lastMax] at h
  | cons e rest ih =>
    simp only [lastMax] at h
    cases hr : lastMax rest with
    | none =>
      simp only [hr, Option.some.injEq, Prod.mk.injEq] at h
      obtain ⟨rfl, rfl⟩ := h
      rw [lastMax_eq_none.mp hr]
      exact ⟨⟨e.2, rfl⟩, by simp⟩
    | some r =>
      obtain ⟨s, j⟩ := r
      obtain ⟨hget, hall⟩ := ih hr
      simp only [hr] at h
      split at h
      next hlt =>
        simp only [Option.some.injEq, Prod.mk.injEq] at h
        obtain ⟨rfl, rfl⟩ := h
        refine ⟨⟨e.2, rfl⟩, List.forall_mem_cons.mpr ⟨le_rfl, fun d hd => ?_⟩⟩
        exact (hall d hd).trans hlt.le
      next hlt =>
        simp only [Option.some.injEq, Prod.mk.injEq] at h
        obtain ⟨rfl, rfl⟩ := h
        exact ⟨by simpa using hget, List.forall_mem_cons.mpr ⟨le_of_not_gt hlt, hall⟩⟩

/-- What the buffer holds after the entries `seen`: they are split into the kept and the
dropped ones, and no dropped entry beats a kept one. -/
structure Inv (n : ℕ) (score : α → σ) (seen : List α) (b : Buffer σ α) : Prop where
  scored : ∀ e ∈ b.top, e.1 = score e.2
  length_le : b.top.length ≤ n
  worst_eq : b.top ≠ [] → b.top.length = n → b.worst = maxScore b.top
  split : ∃ dropped, (b.top.map Prod.snd ++ dropped).Perm seen ∧
    (∀ e ∈ b.top, ∀ d ∈ dropped, e.1 ≤ score d) ∧ (b.top.length < n → dropped = [])

variable {n : ℕ} {score : α → σ} {seen : List α} {b : Buffer σ α}

theorem inv_push (h : Inv n score seen b) (a : α) (hlt : b.top.length < n) :
    Inv n score (seen ++ [a]) (step n score b a) := by
  obtain ⟨dropped, hperm, -, hnil⟩ := h.split
  rw [hnil hlt, List.append_nil] at hperm
  simp only [step, hlt, ↓reduceIte]
  refine ⟨?_, ?_, ?_, [], ?_, by simp, fun _ => rfl⟩
  · intro e he
    rcases List.mem_append.mp he with he | he
    · exact h.scored e he
    · rw [List.mem_singleton.mp he]
  · simp only [List.length_append, List.length_singleton]
    omega
  · intro _ hlen
    exact if_pos hlen
  · simpa using hperm.append_right [a]

theorem inv_keep (h : Inv n score seen b) (a : α) (hfull : ¬ b.top.length < n)
    (hle : ∀ e ∈ b.top, e.1 ≤ score a) : Inv n score (seen ++ [a]) b := by
  obtain ⟨dropped, hperm, hbest, -⟩ := h.split
  refine ⟨h.scored, h.length_le, h.worst_eq, dropped ++ [a], ?_, ?_, fun hlt => absurd hlt hfull⟩
  · simpa only [List.append_assoc] using hperm.append_right [a]
  · intro e he d hd
    rcases List.mem_append.mp hd with hd | hd
    · exact hbest e he d hd
    · rw [List.mem_singleton.mp hd]
      exact hle e he

theorem inv_replace (h : Inv n score seen b) (a : α) (hfull : ¬ b.top.length < n) {m : σ} {i : ℕ}
    (hmax : lastMax b.top = some (m, i)) (hlt : score a < m) :
    Inv n score (seen ++ [a]) ⟨b.top.set i (score a, a), maxScore (b.top.set i (score a, a))⟩ := by
  obtain ⟨dropped, hperm, hbest, -⟩ := h.split
  obtain ⟨⟨c, hget⟩, hall⟩ := lastMax_spec hmax
  obtain ⟨hi, hc⟩ := List.getElem?_eq_some_iff.mp hget
  have hmem : (m, c) ∈ b.top := List.mem_of_getElem? hget
  have hscore : m = score c := h.scored (m, c) hmem
  have hcases : ∀ e ∈ b.top.set i (score a, a), e ∈ b.top ∨ e = (score a, a) := fun e he =>
    List.mem_or_eq_of_mem_set he
  refine ⟨?_, by simpa using h.length_le, fun _ _ => rfl, c :: dropped, ?_, ?_, ?_⟩
  · intro e he
    rcases hcases e he with he | rfl
    · exact h.scored e he
    · rfl
  · have htop : b.top = b.top.take i ++ (m, c) :: b.top.drop (i + 1) := by
      rw [← hc, List.cons_getElem_drop_succ, List.take_append_drop]
    have hset : b.top.set i (score a, a) =
        b.top.take i ++ (score a, a) :: b.top.drop (i + 1) :=
      List.set_eq_take_append_cons_drop.trans (if_pos hi)
    rw [htop] at hperm
    rw [hset]
    simp only [List.map_append, List.map_cons] at hperm ⊢
    classical
    rw [List.perm_iff_count] at hperm ⊢
    intro x
    have hx := hperm x
    simp only [List.count_append, List.count_cons, List.count_nil] at hx ⊢
    omega
  · intro e he d hd
    have hem : e.1 ≤ m := by
      rcases hcases e he with he | rfl
      · exact hall e he
      · exact hlt.le
    rcases List.mem_cons.mp hd with rfl | hd
    · exact hem.trans hscore.le
    · exact hem.trans (hbest (m, c) hmem d hd)
  · intro hlt'
    exact absurd (by simpa using hlt') hfull

theorem inv_step (h : Inv n score seen b) (a : α) :
    Inv n score (seen ++ [a]) (step n score b a) := by
  by_cases hlt : b.top.length < n
  · exact inv_push h a hlt
  have hlen : b.top.length = n := le_antisymm h.length_le (le_of_not_gt hlt)
  by_cases hs : score a < b.worst
  · cases hm : lastMax b.top with
    | none =>
      have hnil := lastMax_eq_none.mp hm
      simp only [step, hlt, hs, hm, ↓reduceIte]
      exact inv_keep h a hlt (by simp [hnil])
    | some r =>
      obtain ⟨m, i⟩ := r
      have hne : b.top ≠ [] := fun hnil => by simp [hnil, lastMax] at hm
      obtain ⟨e, he, heq⟩ := exists_maxScore hne
      have hm' : score a < m := by
        rw [h.worst_eq hne hlen, ← heq] at hs
        exact hs.trans_le ((lastMax_spec hm).2 e he)
      simp only [step, hlt, hs, hm, ↓reduceIte]
      exact inv_replace h a hlt hm hm'
  · simp only [step, hlt, hs, ↓reduceIte]
    refine inv_keep h a hlt fun e he => ?_
    rw [h.worst_eq (List.ne_nil_of_mem he) hlen] at hs
    exact (le_maxScore he).trans (le_of_not_gt hs)

theorem inv_foldl (h : Inv n score seen b) (l : List α) :
    Inv n score (seen ++ l) (l.foldl (step n score) b) := by
  induction l generalizing seen b with
  | nil => simpa using h
  | cons a l ih => simpa using ih (inv_step h a)

theorem inv_scan (n : ℕ) (score : α → σ) (l : List α) : Inv n score l (scan n score l) := by
  have h0 : Inv n score [] (⟨[], ⊤⟩ : Buffer σ α) :=
    ⟨by simp, by simp, by simp, [], by simp, by simp, fun _ => rfl⟩
  simpa only [List.nil_append, scan] using inv_foldl h0 l

/-- The scan splits its input; no dropped entry has a lower score than a kept one, and
entries are dropped only once `n` are kept. -/
theorem select_spec (n : ℕ) (score : α → σ) (l : List α) :
    ∃ dropped, (select n score l ++ dropped).Perm l ∧
      (∀ x ∈ select n score l, ∀ d ∈ dropped, score x ≤ score d) ∧
      (select n score l).length ≤ n ∧ ((select n score l).length < n → dropped = []) := by
  have h := inv_scan n score l
  obtain ⟨dropped, hperm, hbest, hnil⟩ := h.split
  refine ⟨dropped, hperm, ?_, by simpa [select] using h.length_le, by simpa [select] using hnil⟩
  intro x hx d hd
  obtain ⟨e, he, rfl⟩ := List.mem_map.mp hx
  rw [← h.scored e he]
  exact hbest e he d hd

theorem mem_of_mem_select {l : List α} {x : α} (h : x ∈ select n score l) : x ∈ l := by
  obtain ⟨dropped, hperm, -⟩ := select_spec n score l
  exact hperm.mem_iff.mp (List.mem_append_left _ h)

theorem select_eq_nil {l : List α} (hn : 0 < n) : select n score l = [] ↔ l = [] := by
  obtain ⟨dropped, hperm, -, -, hnil⟩ := select_spec n score l
  constructor
  · intro h
    rw [h, hnil (by simpa [h] using hn)] at hperm
    exact List.nil_perm.mp hperm
  · rintro rfl
    rfl

theorem length_select (n : ℕ) (score : α → σ) (l : List α) :
    (select n score l).length = min n l.length := by
  obtain ⟨dropped, hperm, -, hle, hnil⟩ := select_spec n score l
  have hlen : (select n score l).length + dropped.length = l.length := by
    rw [← List.length_append, hperm.length_eq]
  rcases hle.lt_or_eq with hlt | heq
  · rw [hnil hlt, List.length_nil] at hlen
    omega
  · omega

theorem selectSorted_perm (n : ℕ) (score : α → σ) (l : List α) :
    (selectSorted n score l).Perm (select n score l) :=
  (List.mergeSort_perm _ _).map Prod.snd

theorem pairwise_selectSorted (n : ℕ) (score : α → σ) (l : List α) :
    (selectSorted n score l).Pairwise fun a b => score a ≤ score b := by
  have hscored := (inv_scan n score l).scored
  rw [selectSorted, List.pairwise_map]
  have hsorted : ((scan n score l).top.mergeSort fun a b => decide (a.1 ≤ b.1)).Pairwise
      fun a b => decide (a.1 ≤ b.1) = true :=
    List.pairwise_mergeSort
      (fun a b c hab hbc => decide_eq_true ((of_decide_eq_true hab).trans (of_decide_eq_true hbc)))
      (fun a b => by simpa using le_total a.1 b.1) _
  refine hsorted.imp_of_mem fun {a b} ha hb hab => ?_
  rw [← hscored a (List.mem_mergeSort.mp ha), ← hscored b (List.mem_mergeSort.mp hb)]
  exact of_decide_eq_true hab

/-- The kept scores are the least `n` of all scores. -/
theorem sort_scores_select (n : ℕ) (score : α → σ) (l : List α) :
    ((select n score l).map score).mergeSort (· ≤ ·) =
      ((l.map score).mergeSort (· ≤ ·)).take n := by
  obtain ⟨dropped, hperm, hbest, hle, hnil⟩ := select_spec n score l
  let kept := ((select n score l).map score).mergeSort (· ≤ ·)
  let rest := (dropped.map score).mergeSort (· ≤ ·)
  have hkept : kept.Perm ((select n score l).map score) := List.mergeSort_perm _ _
  have hrest : rest.Perm (dropped.map score) := List.mergeSort_perm _ _
  have happend : (kept ++ rest).Pairwise (· ≤ ·) := by
    refine List.pairwise_append.mpr ⟨List.pairwise_mergeSort' _ _, List.pairwise_mergeSort' _ _, ?_⟩
    intro x hx d hd
    obtain ⟨a, ha, rfl⟩ := List.mem_map.mp (hkept.mem_iff.mp hx)
    obtain ⟨b, hb, rfl⟩ := List.mem_map.mp (hrest.mem_iff.mp hd)
    exact hbest a ha b hb
  have hall : kept ++ rest = (l.map score).mergeSort (· ≤ ·) := by
    refine List.Perm.eq_of_pairwise' happend (List.pairwise_mergeSort' _ _) ?_
    refine (hkept.append hrest).trans ?_
    rw [← List.map_append]
    exact (hperm.map score).trans (List.mergeSort_perm _ _).symm
  have hlen : kept.length = (select n score l).length := by
    rw [hkept.length_eq, List.length_map]
  change kept = _
  rw [← hall]
  rcases hle.lt_or_eq with hlt | heq
  · have hrest0 : rest = [] := by simp [rest, hnil hlt]
    rw [hrest0, List.append_nil, List.take_of_length_le (by omega)]
  · rw [List.take_append_of_le_length (by omega), List.take_of_length_le (by omega)]

/-- Which scores are kept does not depend on the order of the scan. -/
theorem perm_scores_select {l l' : List α} (h : l.Perm l') :
    ((select n score l).map score).Perm ((select n score l').map score) := by
  have hsort : (l.map score).mergeSort (· ≤ ·) = (l'.map score).mergeSort (· ≤ ·) :=
    List.Perm.eq_of_pairwise' (List.pairwise_mergeSort' _ _) (List.pairwise_mergeSort' _ _)
      (((List.mergeSort_perm _ _).trans (h.map score)).trans (List.mergeSort_perm _ _).symm)
  have hkept : ((select n score l).map score).mergeSort (· ≤ ·) =
      ((select n score l').map score).mergeSort (· ≤ ·) := by
    rw [sort_scores_select, sort_scores_select, hsort]
  refine (List.mergeSort_perm _ (· ≤ ·)).symm.trans ?_
  rw [hkept]
  exact List.mergeSort_perm _ _

/-- Fewer than `n` entries beat a kept one. -/
theorem countP_lt_of_mem_select {l : List α} {x : α} (h : x ∈ select n score l) :
    l.countP (fun y => score y < score x) < n := by
  obtain ⟨dropped, hperm, hbest, hlen, -⟩ := select_spec n score l
  have hdrop : dropped.countP (fun y => score y < score x) = 0 := by
    rw [List.countP_eq_zero]
    intro d hd
    simpa using hbest x h d hd
  rw [← hperm.countP_eq, List.countP_append, hdrop, Nat.add_zero]
  refine lt_of_lt_of_le (lt_of_le_of_ne List.countP_le_length fun hall => ?_) hlen
  simpa using List.countP_eq_length.mp hall x h

private theorem foldl_push (l : List α) (b : Buffer σ α) (h : b.top.length + l.length ≤ n) :
    (l.foldl (step n score) b).top = b.top ++ l.map fun a => (score a, a) := by
  induction l generalizing b with
  | nil => simp
  | cons a l ih =>
    simp only [List.length_cons] at h
    have hstep : (step n score b a).top = b.top ++ [(score a, a)] := by
      simp only [step, show b.top.length < n by omega, ↓reduceIte]
    have hlen : (step n score b a).top.length + l.length ≤ n := by
      rw [hstep, List.length_append, List.length_singleton]
      omega
    rw [List.foldl_cons, ih _ hlen, hstep]
    simp

/-- A kept entry is not displaced by one that does not beat it. -/
private theorem mem_step (h : Inv n score seen b) {x a : α} (hx : (score x, x) ∈ b.top)
    (hle : score x ≤ score a) : (score x, x) ∈ (step n score b a).top := by
  by_cases hlt : b.top.length < n
  · simp only [step, hlt, ↓reduceIte]
    exact List.mem_append_left _ hx
  have hlen : b.top.length = n := le_antisymm h.length_le (le_of_not_gt hlt)
  by_cases hs : score a < b.worst
  · cases hm : lastMax b.top with
    | none => simpa only [step, hlt, hs, hm, ↓reduceIte] using hx
    | some r =>
      obtain ⟨m, i⟩ := r
      obtain ⟨⟨c, hget⟩, hall⟩ := lastMax_spec hm
      have hne := List.ne_nil_of_mem hx
      obtain ⟨e, he, heq⟩ := exists_maxScore hne
      have ham : score a < m := by
        rw [h.worst_eq hne hlen, ← heq] at hs
        exact hs.trans_le (hall e he)
      simp only [step, hlt, hs, hm, ↓reduceIte]
      obtain ⟨j, hj, hjx⟩ := List.mem_iff_getElem.mp hx
      have hij : i ≠ j := by
        rintro rfl
        rw [List.getElem?_eq_getElem hj, hjx, Option.some.injEq, Prod.mk.injEq] at hget
        exact absurd (hget.1 ▸ ham) (not_lt_of_ge hle)
      refine List.mem_iff_getElem.mpr ⟨j, by simpa using hj, ?_⟩
      rw [List.getElem_set_ne hij, hjx]
  · simpa only [step, hlt, hs, ↓reduceIte] using hx

private theorem mem_foldl (h : Inv n score seen b) {x : α} (hx : (score x, x) ∈ b.top)
    {l : List α} (hle : ∀ a ∈ l, score x ≤ score a) :
    (score x, x) ∈ (l.foldl (step n score) b).top := by
  induction l generalizing seen b with
  | nil => exact hx
  | cons a l ih =>
    exact ih (inv_step h a) (mem_step h hx (hle a (by simp))) fun c hc => hle c (by simp [hc])

/-- An entry that fewer than `n` entries beat is kept in some order of the input: first
itself, then those that beat it, then the rest. -/
theorem exists_perm_mem_select {l : List α} {x : α} (hx : x ∈ l)
    (hn : l.countP (fun y => score y < score x) < n) :
    ∃ l', l'.Perm l ∧ x ∈ select n score l' := by
  obtain ⟨l₁, l₂, rfl⟩ := List.mem_iff_append.mp hx
  let rest := l₁ ++ l₂
  let better := rest.filter fun y => score y < score x
  let others := rest.filter fun y => !decide (score y < score x)
  have hsplit : (better ++ others).Perm rest := List.filter_append_perm _ rest
  have hcount : better.length < n := by
    have hc : rest.countP (fun y => score y < score x) < n := by
      simpa [rest, List.countP_append, List.countP_cons] using hn
    rwa [List.countP_eq_length_filter] at hc
  refine ⟨x :: better ++ others, ?_, ?_⟩
  · exact (hsplit.cons x).trans List.perm_middle.symm
  · have hpush : ((x :: better).foldl (step n score) ⟨[], ⊤⟩).top =
        [] ++ (x :: better).map fun a => (score a, a) := foldl_push _ _ (by simpa using hcount)
    have hin : (score x, x) ∈ (scan n score (x :: better)).top := by
      rw [scan, hpush]
      simp
    have hmem := mem_foldl (inv_scan n score (x :: better)) hin (l := others) (by
      intro a ha
      simpa [others] using (List.mem_filter.mp ha).2)
    rw [scan, ← List.foldl_append] at hmem
    exact List.mem_map.mpr ⟨_, hmem, rfl⟩

end TopN
