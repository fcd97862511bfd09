import Mathlib

/-! Finite runs of a labelled step relation and the invariant rule for them. -/
namespace Runs

variable {σ ι : Type*}

/-- `Run Step s as t`: steps labelled `as`, taken in this order, lead from `s` to `t`. -/
inductive Run (Step : σ → ι → σ → Prop) : σ → List ι → σ → Prop where
  | nil (s : σ) : Run Step s [] s
  | cons {s t u : σ} {a : ι} {as : List ι} (head : Step s a t) (tail : Run Step t as u) :
      Run Step s (a :: as) u

/-- The steps that are taken from a state where the guard admits their label. -/
def Guarded (Step : σ → ι → σ → Prop) (Guard : σ → ι → Prop) (s : σ) (a : ι) (t : σ) : Prop :=
  Guard s a ∧ Step s a t

/-- Some run from `init` ends in the state. -/
def Reachable (Step : σ → ι → σ → Prop) (init s : σ) : Prop := ∃ as, Run Step init as s

variable {Step : σ → ι → σ → Prop}

theorem run_append {s u : σ} {as bs : List ι} :
    Run Step s (as ++ bs) u ↔ ∃ t, Run Step s as t ∧ Run Step t bs u := by
  constructor
  · intro h
    induction as generalizing s with
    | nil => exact ⟨s, .nil s, h⟩
    | cons a as ih =>
      cases h with
      | cons head tail =>
        obtain ⟨t, hs, ht⟩ := ih tail
        exact ⟨t, .cons head hs, ht⟩
  · rintro ⟨t, hs, ht⟩
    induction hs with
    | nil => exact ht
    | cons head _ ih => exact .cons head (ih ht)

theorem Run.single {s t : σ} {a : ι} (h : Step s a t) : Run Step s [a] t := .cons h (.nil t)

theorem Run.snoc {s t u : σ} {as : List ι} {a : ι} (hs : Run Step s as t) (h : Step t a u) :
    Run Step s (as ++ [a]) u := run_append.mpr ⟨t, hs, .single h⟩

/-- What every step preserves, a run preserves. -/
theorem Run.invariant {Inv : σ → Prop} (hstep : ∀ s a t, Inv s → Step s a t → Inv t)
    {s t : σ} {as : List ι} (h : Run Step s as t) (hs : Inv s) : Inv t := by
  induction h with
  | nil => exact hs
  | cons head _ ih => exact ih (hstep _ _ _ hs head)

/-- A relation that steps extend on the right holds between the ends of every run. -/
theorem Run.relates {R : σ → σ → Prop} (hrefl : ∀ s, R s s)
    (hstep : ∀ s t a u, R s t → Step t a u → R s u)
    {s t : σ} {as : List ι} (h : Run Step s as t) : R s t := by
  have hinv : ∀ t a u, R s t → Step t a u → R s u := fun t a u hst hu => hstep s t a u hst hu
  exact h.invariant hinv (hrefl s)

/-- Where every step has one result, so has every run. -/
theorem Run.unique (hstep : ∀ s a t u, Step s a t → Step s a u → t = u) {s t u : σ}
    {as : List ι} (h : Run Step s as t) (h' : Run Step s as u) : t = u := by
  induction h with
  | nil s =>
    cases h'
    rfl
  | cons head _ ih =>
    cases h' with
    | cons head' tail' =>
      obtain rfl := hstep _ _ _ _ head head'
      exact ih tail'

/-- Where a good state stays good exactly under the steps that a guard admits, the states of a
run are all good exactly when its steps are all admitted. -/
theorem Run.forall_good_iff {Fixed Good : σ → Prop} {Guard : σ → ι → Prop}
    (hunique : ∀ s a t u, Step s a t → Step s a u → t = u)
    (hfixed : ∀ s a t, Fixed s → Step s a t → Fixed t)
    (hgood : ∀ s a t, Fixed s → Good s → Step s a t → (Good t ↔ Guard s a))
    {s t : σ} {as : List ι} (h : Run Step s as t) (hs : Fixed s) (hs' : Good s) :
    (∀ before after u, as = before ++ after → Run Step s before u → Good u) ↔
      ∀ before a after u, as = before ++ a :: after → Run Step s before u → Guard u a := by
  constructor
  · intro hall before a after u has hu
    obtain ⟨u', hu', hrest⟩ := run_append.mp (has ▸ h)
    obtain rfl := hu'.unique hunique hu
    cases hrest with
    | cons head _ =>
      have hgood' := hall (before ++ [a]) after _ (by rw [has, List.append_assoc]; rfl)
        (hu.snoc head)
      exact (hgood _ _ _ (hu.invariant hfixed hs) (hall before _ _ has hu) head).mp hgood'
  · intro hall before
    induction before using List.reverseRecOn with
    | nil =>
      intro after u _ hu
      cases hu
      exact hs'
    | append_singleton before a ih =>
      intro after u has hu
      obtain ⟨v, hv, hlast⟩ := run_append.mp hu
      rw [List.append_assoc] at has
      have hguard := hall before a after v has hv
      cases hlast with
      | cons head tail =>
        cases tail
        exact (hgood _ _ _ (hv.invariant hfixed hs) (ih _ v has hv) head).mpr hguard

theorem Run.mono {Step' : σ → ι → σ → Prop} (himp : ∀ s a t, Step s a t → Step' s a t)
    {s t : σ} {as : List ι} (h : Run Step s as t) : Run Step' s as t := by
  induction h with
  | nil s => exact .nil s
  | cons head _ ih => exact .cons (himp _ _ _ head) ih

theorem Run.unguarded {Guard : σ → ι → Prop} {s t : σ} {as : List ι}
    (h : Run (Guarded Step Guard) s as t) : Run Step s as t := h.mono fun _ _ _ hs => hs.2

/-- A run whose steps the guard all admits is a guarded run. -/
theorem Run.guarded {Guard : σ → ι → Prop} {s t : σ} {as : List ι} (h : Run Step s as t)
    (hall : ∀ before a after u, as = before ++ a :: after → Run Step s before u → Guard u a) :
    Run (Guarded Step Guard) s as t := by
  induction h with
  | nil s => exact .nil s
  | cons head _ ih =>
    refine .cons ⟨hall [] _ _ _ rfl (.nil _), head⟩ (ih fun before a after u has hu => ?_)
    exact hall (_ :: before) a after u (by rw [has]; rfl) (.cons head hu)

/-- Where every step has one result, the guard admits every step of a guarded run. -/
theorem Run.guard {Guard : σ → ι → Prop} (hunique : ∀ s a t u, Step s a t → Step s a u → t = u)
    {s t : σ} {as : List ι} (h : Run (Guarded Step Guard) s as t) {before after : List ι} {a : ι}
    {u : σ} (has : as = before ++ a :: after) (hu : Run Step s before u) : Guard u a := by
  subst has
  obtain ⟨v, hv, hrest⟩ := run_append.mp h
  obtain rfl := hv.unguarded.unique hunique hu
  cases hrest with
  | cons head _ => exact head.1

/-- Take the steps of a list in order, where each has one result or none. -/
def exec (apply : σ → ι → Option σ) : σ → List ι → Option σ
  | s, [] => some s
  | s, a :: as => (apply s a).bind fun t => exec apply t as

theorem run_of_exec {apply : σ → ι → Option σ} {Ok : ι → Prop}
    (hstep : ∀ s a t, Ok a → apply s a = some t → Step s a t) {s t : σ} {as : List ι}
    (hok : ∀ a ∈ as, Ok a) (h : exec apply s as = some t) : Run Step s as t := by
  induction as generalizing s with
  | nil =>
    obtain rfl := Option.some.inj h
    exact .nil s
  | cons a as ih =>
    obtain ⟨ha, has⟩ := List.forall_mem_cons.mp hok
    obtain ⟨u, hu, hrest⟩ := Option.bind_eq_some_iff.mp h
    exact .cons (hstep s a u ha hu) (ih has hrest)

theorem Reachable.init (s : σ) : Reachable Step s s := ⟨[], .nil s⟩

theorem Reachable.step {init s t : σ} {a : ι} (h : Reachable Step init s) (hs : Step s a t) :
    Reachable Step init t := by
  obtain ⟨as, hr⟩ := h
  exact ⟨as ++ [a], hr.snoc hs⟩

theorem Reachable.invariant {Inv : σ → Prop} (hstep : ∀ s a t, Inv s → Step s a t → Inv t)
    {init s : σ} (h : Reachable Step init s) (hi : Inv init) : Inv s := by
  obtain ⟨as, hr⟩ := h
  exact hr.invariant hstep hi

end Runs
