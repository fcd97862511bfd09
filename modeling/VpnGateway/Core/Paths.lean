import Mathlib

/-! Absolute paths as lists of names and as texts. Whether one path lies below another can be read
off their texts. -/
namespace Paths

abbrev Path := List (List Char)

def IsName (s : List Char) : Prop := s ≠ [] ∧ '/' ∉ s

instance (s : List Char) : Decidable (IsName s) := inferInstanceAs (Decidable (_ ∧ _))

def Normal (p : Path) : Prop := ∀ s ∈ p, IsName s

/-- The names, with a slash before each one. -/
def names (p : Path) : List Char := p.flatMap ('/' :: ·)

/-- The root is a single slash. -/
def render (p : Path) : List Char := if p = [] then ['/'] else names p

variable {a p : Path} {s t x y : List Char}

theorem names_cons (s : List Char) (p : Path) : names (s :: p) = '/' :: (s ++ names p) :=
  List.flatMap_cons

theorem names_append (a p : Path) : names (a ++ p) = names a ++ names p := List.flatMap_append

theorem Normal.tail (h : Normal (s :: p)) : Normal p := fun t ht => h t (List.mem_cons_of_mem s ht)

/-- A slash ends a name. -/
theorem append_slash_prefix (hs : '/' ∉ s) (ht : '/' ∉ t) (hy : y = [] ∨ ∃ z, y = '/' :: z)
    (h : s ++ '/' :: x <+: t ++ y) : s = t ∧ '/' :: x <+: y := by
  induction s generalizing t with
  | nil =>
    cases t with
    | nil => exact ⟨rfl, h⟩
    | cons d t =>
      obtain ⟨rfl, -⟩ := List.cons_prefix_cons.mp h
      exact absurd List.mem_cons_self ht
  | cons c s ih =>
    cases t with
    | nil =>
      rcases hy with rfl | ⟨z, rfl⟩
      · exact absurd (List.prefix_nil.mp h) (List.cons_ne_nil _ _)
      · obtain ⟨rfl, -⟩ := List.cons_prefix_cons.mp h
        exact absurd List.mem_cons_self hs
    | cons d t =>
      obtain ⟨rfl, hrest⟩ := List.cons_prefix_cons.mp h
      obtain ⟨rfl, hx⟩ := ih (fun hc => hs (List.mem_cons_of_mem _ hc))
        (fun hc => ht (List.mem_cons_of_mem _ hc)) hrest
      exact ⟨rfl, hx⟩

theorem names_head (p : Path) : names p = [] ∨ ∃ z, names p = '/' :: z := by
  cases p with
  | nil => exact Or.inl rfl
  | cons s p => exact Or.inr ⟨_, names_cons s p⟩

/-- The text of `a` and a slash stand before that of `p` exactly if `p` lies below `a`. -/
theorem names_prefix_iff (ha : Normal a) (hp : Normal p) :
    names a ++ ['/'] <+: names p ↔ ∃ s rest, p = a ++ s :: rest := by
  constructor
  · intro h
    induction a generalizing p with
    | nil =>
      cases p with
      | nil => exact absurd (List.prefix_nil.mp h) (List.cons_ne_nil _ _)
      | cons s rest => exact ⟨s, rest, rfl⟩
    | cons s a ih =>
      cases p with
      | nil => exact absurd (List.prefix_nil.mp h) (by simp [names_cons])
      | cons t p =>
        rw [names_cons, names_cons, List.cons_append, List.cons_prefix_cons, List.append_assoc] at h
        obtain ⟨x, hx⟩ : ∃ x, names a ++ ['/'] = '/' :: x := by
          rcases names_head a with hnil | ⟨z, hz⟩
          · exact ⟨[], by rw [hnil, List.nil_append]⟩
          · exact ⟨_, by rw [hz, List.cons_append]⟩
        have hbelow := h.2
        rw [hx] at hbelow
        obtain ⟨rfl, hrest⟩ := append_slash_prefix (ha s List.mem_cons_self).2
          (hp t List.mem_cons_self).2 (names_head p) hbelow
        obtain ⟨u, rest, rfl⟩ := ih ha.tail hp.tail (hx ▸ hrest)
        exact ⟨u, rest, rfl⟩
  · rintro ⟨s, rest, rfl⟩
    refine ⟨s ++ names rest, ?_⟩
    rw [names_append, names_cons, List.append_assoc]
    rfl

/-- The check on the texts, with a separator behind the directory. -/
def within (allowed resolved : Path) : Bool :=
  (render allowed ++ ['/']).isPrefixOf (render resolved) || resolved = allowed

/-- It admits the directory and what lies below it; below the root it admits nothing. -/
theorem within_iff (ha : Normal a) (hp : Normal p) : within a p ↔ p = a ∨ a ≠ [] ∧ a <+: p := by
  have hprefix : render a ++ ['/'] <+: render p ↔ a ≠ [] ∧ ∃ s rest, p = a ++ s :: rest := by
    by_cases hroot : a = []
    · subst hroot
      refine ⟨fun h => ?_, fun h => absurd rfl h.1⟩
      cases p with
      | nil => exact absurd (List.IsPrefix.length_le h) (by simp [render])
      | cons s p =>
        rw [render, if_pos rfl, render, if_neg (List.cons_ne_nil s p), names_cons] at h
        obtain ⟨hne, hslash⟩ := hp s List.mem_cons_self
        cases s with
        | nil => exact absurd rfl hne
        | cons c s =>
          obtain ⟨rfl, -⟩ := List.cons_prefix_cons.mp (List.cons_prefix_cons.mp h).2
          exact absurd List.mem_cons_self hslash
    · by_cases hnil : p = []
      · subst hnil
        refine ⟨fun h => ?_, ?_⟩
        · have hlen := List.IsPrefix.length_le h
          obtain ⟨s, rest, rfl⟩ := List.exists_cons_of_ne_nil hroot
          rw [render, if_neg hroot, names_cons] at hlen
          simp [render] at hlen
        · rintro ⟨-, s, rest, h⟩
          simp at h
      · rw [render, if_neg hroot, render, if_neg hnil, names_prefix_iff ha hp, and_iff_right hroot]
  rw [within, Bool.or_eq_true, List.isPrefixOf_iff_prefix, hprefix, decide_eq_true_eq]
  constructor
  · rintro (⟨hroot, s, rest, rfl⟩ | rfl)
    · exact Or.inr ⟨hroot, List.prefix_append _ _⟩
    · exact Or.inl rfl
  · rintro (rfl | ⟨hroot, t, rfl⟩)
    · exact Or.inr rfl
    · cases t with
      | nil => exact Or.inr (List.append_nil a)
      | cons s rest => exact Or.inl ⟨hroot, s, rest, rfl⟩

end Paths
