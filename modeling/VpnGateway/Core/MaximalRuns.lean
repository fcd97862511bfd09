import Mathlib

/-! The maximal runs of consecutive elements of a list that satisfy a predicate, and the
greatest measure among them while the list grows at its end. -/
namespace MaximalRuns

variable {α : Type*} {p : α → Bool} {l run : List α} {x : α}

/-- A block of elements that satisfy `p` and that the element on neither side extends. -/
def IsMaximalRun (p : α → Bool) (l run : List α) : Prop :=
  ∃ before after, l = before ++ run ++ after ∧ run ≠ [] ∧ (∀ y ∈ run, p y) ∧
    (∀ y ∈ before.getLast?, ¬ p y) ∧ ∀ y ∈ after.head?, ¬ p y

/-- A block at the end of the list that cannot be extended is what `rtakeWhile` finds. -/
theorem rtakeWhile_append {before : List α} (hrun : ∀ y ∈ run, p y)
    (hbefore : ∀ y ∈ before.getLast?, ¬ p y) : (before ++ run).rtakeWhile p = run := by
  induction run using List.reverseRecOn with
  | nil =>
    rw [List.append_nil, List.rtakeWhile_eq_nil_iff]
    intro hne
    exact hbefore _ (List.getLast?_eq_some_getLast hne)
  | append_singleton run y ih =>
    rw [← List.append_assoc, List.rtakeWhile_concat_pos _ _ _ (hrun y (by simp)),
      ih fun z hz => hrun z (by simp [hz])]

theorem isMaximalRun_rtakeWhile (h : l.rtakeWhile p ≠ []) :
    IsMaximalRun p l (l.rtakeWhile p) := by
  refine ⟨l.rdropWhile p, [], ?_, h, fun y hy => List.mem_rtakeWhile_imp hy, ?_, by simp⟩
  · rw [List.append_nil, List.rdropWhile_append_rtakeWhile]
  · intro y hy
    have hne : l.rdropWhile p ≠ [] := by
      rintro hnil
      simp [hnil] at hy
    rw [List.getLast?_eq_some_getLast hne, Option.mem_some_iff] at hy
    exact hy ▸ List.rdropWhile_last_not p l hne

/-- A run is the one at the end, or what is appended does not touch it. -/
theorem IsMaximalRun.concat (h : IsMaximalRun p l run) :
    run = l.rtakeWhile p ∨ ∀ x, IsMaximalRun p (l ++ [x]) run := by
  obtain ⟨before, after, rfl, hne, hrun, hbefore, hafter⟩ := h
  cases after with
  | nil =>
    left
    rw [List.append_nil, rtakeWhile_append hrun hbefore]
  | cons y after =>
    right
    intro x
    exact ⟨before, y :: after ++ [x], by simp, hne, hrun, hbefore, hafter⟩

/-- The runs of a list with one more element: the last one grows or begins, the others stay. -/
theorem IsMaximalRun.of_concat (h : IsMaximalRun p (l ++ [x]) run) :
    (p x ∧ run = l.rtakeWhile p ++ [x]) ∨ IsMaximalRun p l run := by
  obtain ⟨before, after, heq, hne, hrun, hbefore, hafter⟩ := h
  rcases after.eq_nil_or_concat with rfl | ⟨after, y, rfl⟩
  · left
    obtain ⟨run, y, rfl⟩ := run.eq_nil_or_concat.resolve_left hne
    rw [List.append_nil, List.concat_eq_append, ← List.append_assoc] at heq
    obtain ⟨rfl, hxy⟩ := List.append_inj' heq rfl
    obtain rfl : x = y := by simpa using hxy
    refine ⟨hrun x (by simp), ?_⟩
    rw [rtakeWhile_append (fun z hz => hrun z (by simp [hz])) hbefore, List.concat_eq_append]
  · right
    rw [List.concat_eq_append, ← List.append_assoc] at heq
    refine ⟨before, after, (List.append_inj' heq rfl).1, hne, hrun, hbefore, fun z hz => ?_⟩
    refine hafter z ?_
    rw [List.concat_eq_append, List.head?_append, Option.mem_def.mp hz]
    rfl

/-- An element that fails the predicate leaves the runs as they are. -/
theorem isMaximalRun_concat_neg (hx : ¬ p x) :
    IsMaximalRun p (l ++ [x]) run ↔ IsMaximalRun p l run := by
  constructor
  · intro h
    exact h.of_concat.resolve_left fun h' => hx h'.1
  · rintro ⟨before, after, rfl, hne, hrun, hbefore, hafter⟩
    refine ⟨before, after ++ [x], by simp, hne, hrun, hbefore, fun y hy => ?_⟩
    cases after with
    | nil =>
      obtain rfl : x = y := by simpa using hy
      exact hx
    | cons z after => exact hafter y (by simpa using hy)

/-- The measures of the maximal runs, and zero. -/
def measures (p : α → Bool) (measure : List α → ℕ) (l : List α) : Set ℕ :=
  insert 0 (measure '' {run | IsMaximalRun p l run})

variable {measure : List α → ℕ} {n : ℕ}

theorem measures_nil : measures p measure [] = {0} := by
  have hno : {run | IsMaximalRun p [] run} = ∅ := by
    refine Set.eq_empty_of_forall_notMem ?_
    rintro run ⟨before, after, heq, hne, -⟩
    simp only [List.append_assoc, List.nil_eq, List.append_eq_nil_iff] at heq
    exact hne heq.2.1
  rw [measures, hno, Set.image_empty, insert_empty_eq]

theorem measures_concat_neg (hx : ¬ p x) :
    measures p measure (l ++ [x]) = measures p measure l := by
  simp only [measures, isMaximalRun_concat_neg hx]

/-- With one more element of the predicate, the greatest measure is that of the run at the end
where it beats the others. Only a measure that does not fall while a run grows is asked for. -/
theorem isGreatest_concat_pos (hx : p x) (h : IsGreatest (measures p measure l) n)
    (hgrow : measure (l.rtakeWhile p) ≤ measure (l.rtakeWhile p ++ [x])) :
    IsGreatest (measures p measure (l ++ [x])) (max n (measure (l.rtakeWhile p ++ [x]))) := by
  have hlast : IsMaximalRun p (l ++ [x]) (l.rtakeWhile p ++ [x]) := by
    rw [← List.rtakeWhile_concat_pos p l x hx]
    refine isMaximalRun_rtakeWhile ?_
    simp [List.rtakeWhile_concat_pos p l x hx]
  constructor
  · rcases max_choice n (measure (l.rtakeWhile p ++ [x])) with hmax | hmax
    · rw [hmax]
      rcases h.1 with hzero | ⟨run, hrun, hn⟩
      · exact Or.inl hzero
      · rcases hrun.concat with hlast' | hkept
        · refine Or.inr ⟨_, hlast, le_antisymm ?_ ?_⟩
          · exact max_eq_left_iff.mp hmax
          · exact hn ▸ hlast' ▸ hgrow
        · exact Or.inr ⟨run, hkept x, hn⟩
    · rw [hmax]
      exact Or.inr ⟨_, hlast, rfl⟩
  · rintro m (rfl | ⟨run, hrun, rfl⟩)
    · exact Nat.zero_le _
    · rcases IsMaximalRun.of_concat hrun with ⟨-, rfl⟩ | hold
      · exact le_max_right _ _
      · exact (h.2 (Or.inr ⟨run, hold, rfl⟩)).trans (le_max_left _ _)

end MaximalRuns
