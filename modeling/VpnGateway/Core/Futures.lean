import Mathlib

/-! Futures that go on from one event to the next: a single one, and a set of them, driven in
any order that forgets none. -/
namespace Futures

variable {σ ε ρ ι : Type*}

/-- An event takes a pending future on; a complete one is left as it is. -/
def advance (poll : σ → ε → σ ⊕ ρ) : σ ⊕ ρ → ε → σ ⊕ ρ
  | .inl s, e => poll s e
  | .inr r, _ => .inr r

/-- The future after the first `n` of its events. -/
def after (poll : σ → ε → σ ⊕ ρ) (x : σ ⊕ ρ) (events : ℕ → ε) : ℕ → σ ⊕ ρ
  | 0 => x
  | n + 1 => advance poll (after poll x events n) (events n)

section One

variable {poll : σ → ε → σ ⊕ ρ} {x : σ ⊕ ρ} {events : ℕ → ε}

theorem after_add (m n : ℕ) :
    after poll x events (m + n) =
      after poll (after poll x events m) (fun i => events (m + i)) n := by
  induction n with
  | zero => rfl
  | succ n ih => rw [← Nat.add_assoc, after, ih, after]

/-- A sequence of events with one more in front. -/
def cons (e : ε) (events : ℕ → ε) : ℕ → ε
  | 0 => e
  | n + 1 => events n

theorem after_cons (e : ε) (n : ℕ) :
    after poll x (cons e events) (1 + n) = after poll (advance poll x e) events n := by
  have htail : (fun i => cons e events (1 + i)) = events := funext fun i => by
    rw [Nat.add_comm, cons]
  rw [after_add, htail]
  rfl

theorem after_complete {r : ρ} (n : ℕ) : after poll (.inr r) events n = .inr r := by
  induction n with
  | zero => rfl
  | succ n ih => rw [after, ih, advance]

/-- A complete future stays complete. -/
theorem isRight_after_mono {m n : ℕ} (hmn : m ≤ n) (h : (after poll x events m).isRight) :
    (after poll x events n).isRight := by
  obtain ⟨k, rfl⟩ := Nat.le.dest hmn
  obtain ⟨r, hr⟩ := Sum.isRight_iff.mp h
  rw [after_add, hr, after_complete]
  rfl

/-- A future stays in one state as long as its events leave it there. -/
theorem after_eq_self {s : σ} {n : ℕ} (h : ∀ i < n, poll s (events i) = .inl s) :
    after poll (.inl s) events n = .inl s := by
  induction n with
  | zero => rfl
  | succ n ih =>
    rw [after, ih fun i hi => h i (Nat.lt_succ_of_lt hi), advance]
    exact h n (Nat.lt_succ_self n)

/-- A future whose every step lowers a rank is complete once it has taken more steps than that. -/
theorem isRight_after_of_rank {rank : σ → ℕ} {Inv : σ → Prop}
    (hstep : ∀ s e s', Inv s → poll s e = .inl s' → Inv s' ∧ rank s' < rank s)
    {s : σ} (hs : Inv s) {n : ℕ} (hn : rank s < n) : (after poll (.inl s) events n).isRight := by
  have hpending : ∀ m t, after poll (.inl s) events m = .inl t → Inv t ∧ rank t + m ≤ rank s := by
    intro m
    induction m with
    | zero =>
      intro t ht
      obtain rfl := Sum.inl.inj ht
      exact ⟨hs, le_rfl⟩
    | succ m ih =>
      intro t ht
      rw [after] at ht
      cases hbefore : after poll (.inl s) events m with
      | inr r =>
        rw [hbefore] at ht
        cases ht
      | inl u =>
        rw [hbefore] at ht
        obtain ⟨hu, hrank⟩ := ih u hbefore
        obtain ⟨ht', hlt⟩ := hstep u _ t hu ht
        exact ⟨ht', by omega⟩
  cases hafter : after poll (.inl s) events n with
  | inr r => rfl
  | inl t =>
    have := (hpending n t hafter).2
    omega

end One

/-- The events of the schedule come to every future again and again. -/
def Fair (sched : ℕ → ι) : Prop := ∀ i n, ∃ m ≥ n, sched m = i

variable [DecidableEq ι]

/-- A set of futures after `n` events, where `sched` says for which of them each event is. -/
def drive (poll : ι → σ → ε → σ ⊕ ρ) (xs : ι → σ ⊕ ρ) (events : ι → ℕ → ε) (sched : ℕ → ι) :
    ℕ → ι → σ ⊕ ρ
  | 0 => xs
  | n + 1 =>
    let ys := drive poll xs events sched n
    let i := sched n
    Function.update ys i (advance (poll i) (ys i) (events i (Nat.count (sched · = i) n)))

variable {poll : ι → σ → ε → σ ⊕ ρ} {xs : ι → σ ⊕ ρ} {events : ι → ℕ → ε} {sched : ℕ → ι}

/-- Every future of a set has taken its own events, as many as the schedule has given it. -/
theorem drive_eq_after (n : ℕ) (i : ι) :
    drive poll xs events sched n i =
      after (poll i) (xs i) (events i) (Nat.count (sched · = i) n) := by
  induction n with
  | zero => rfl
  | succ n ih =>
    rw [drive, Nat.count_succ]
    by_cases hi : sched n = i
    · subst hi
      simp only [Function.update_self, ↓reduceIte, after, ih]
    · simp only [Function.update_of_ne (Ne.symm hi), if_neg hi, Nat.add_zero, ih]

/-- A fair schedule gives a future as many events as it needs. -/
theorem Fair.exists_count_eq (h : Fair sched) (i : ι) (k : ℕ) :
    ∃ n, Nat.count (sched · = i) n = k := by
  have hinf : {n | sched n = i}.Infinite :=
    Nat.frequently_atTop_iff_infinite.mp (Filter.frequently_atTop.mpr (h i))
  exact Nat.surjective_count_of_infinite_setOfPred hinf k

/-- Under a fair schedule all futures of a finite set are complete at some time exactly when
each of them is by its own events. -/
theorem Fair.all_complete_iff [Fintype ι] (h : Fair sched) :
    (∃ n, ∀ i, (drive poll xs events sched n i).isRight) ↔
      ∀ i, ∃ n, (after (poll i) (xs i) (events i) n).isRight := by
  simp only [drive_eq_after]
  constructor
  · rintro ⟨n, hn⟩ i
    exact ⟨_, hn i⟩
  · intro hall
    choose needed hneeded using hall
    choose time htime using fun i => h.exists_count_eq i (needed i)
    refine ⟨Finset.univ.sup time, fun i => isRight_after_mono ?_ (hneeded i)⟩
    rw [← htime i]
    exact Nat.count_monotone _ (Finset.le_sup (Finset.mem_univ i))

end Futures
