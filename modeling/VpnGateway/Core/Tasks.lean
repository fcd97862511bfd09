import VpnGateway.Core.Locks

/-! Tasks that share a number of workers and lock mutexes: what an asynchronous runtime keeps
whatever its tasks do. -/
namespace Tasks

open Locks

/-- What a task does; `held` is the mutex that it has, if it has one. -/
inductive Status (κ : Type*) where
  | ready (held : Option κ)
  | active (held : Option κ)
  | waiting (key : κ)
  | suspended (held : Option κ)
  | finished

namespace Status

variable {κ : Type*}

def held : Status κ → Option κ
  | ready held | active held | suspended held => held
  | waiting _ | finished => none

/-- The task occupies a worker. -/
def isActive : Status κ → Bool
  | active _ => true
  | _ => false

@[simp] theorem held_ready (held : Option κ) : (ready held).held = held := rfl
@[simp] theorem held_active (held : Option κ) : (active held).held = held := rfl
@[simp] theorem held_waiting (key : κ) : (waiting key).held = none := rfl
@[simp] theorem held_suspended (held : Option κ) : (suspended held).held = held := rfl
@[simp] theorem held_finished : (finished : Status κ).held = none := rfl

/-- The task has the mutex or waits for it. -/
def Wants (x : Status κ) (key : κ) : Prop := x = waiting key ∨ x.held = some key

end Status

structure Sched (τ κ : Type*) where
  status : τ → Status κ
  mutex : κ → Mutex τ

namespace Sched

variable {τ κ : Type*}

@[ext] theorem ext {s s' : Sched τ κ} (hstatus : ∀ t, s.status t = s'.status t)
    (hmutex : ∀ key, s.mutex key = s'.mutex key) : s = s' := by
  cases s
  cases s'
  rw [mk.injEq]
  exact ⟨funext hstatus, funext hmutex⟩

section Set

variable [DecidableEq τ]

def set (s : Sched τ κ) (t : τ) (x : Status κ) : Sched τ κ :=
  { s with status := Function.update s.status t x }

@[simp] theorem mutex_set (s : Sched τ κ) (t : τ) (x : Status κ) :
    (s.set t x).mutex = s.mutex := rfl

@[simp] theorem status_set_self (s : Sched τ κ) (t : τ) (x : Status κ) :
    (s.set t x).status t = x := by simp [set]

theorem set_eq_self {s : Sched τ κ} {t : τ} {x : Status κ} (h : s.status t = x) :
    s.set t x = s := by
  subst h
  exact ext (fun u => by simp [set]) fun _ => rfl

theorem status_set_of_ne (s : Sched τ κ) {t u : τ} (x : Status κ) (h : u ≠ t) :
    (s.set t x).status u = s.status u := by simp [set, h]

end Set

section SetMutex

variable [DecidableEq κ]

def setMutex (s : Sched τ κ) (key : κ) (m : Mutex τ) : Sched τ κ :=
  { s with mutex := Function.update s.mutex key m }

@[simp] theorem status_setMutex (s : Sched τ κ) (key : κ) (m : Mutex τ) :
    (s.setMutex key m).status = s.status := rfl

@[simp] theorem mutex_setMutex_self (s : Sched τ κ) (key : κ) (m : Mutex τ) :
    (s.setMutex key m).mutex key = m := by simp [setMutex]

theorem mutex_setMutex_of_ne (s : Sched τ κ) {key key' : κ} (m : Mutex τ) (h : key' ≠ key) :
    (s.setMutex key m).mutex key' = s.mutex key' := by simp [setMutex, h]

end SetMutex

section Busy

variable [Fintype τ]

/-- The number of workers that are occupied. -/
def busy (s : Sched τ κ) : ℕ := (Finset.univ.filter fun t => (s.status t).isActive).card

variable {s : Sched τ κ} {t u : τ} {x : Status κ}

theorem eq_of_busy_le_one (hs : s.busy ≤ 1) (ht : (s.status t).isActive)
    (hu : (s.status u).isActive) : t = u := by
  refine Finset.card_le_one.mp hs t ?_ u ?_
  · simpa using ht
  · simpa using hu

theorem busy_le_one (hs : ∀ u, (s.status u).isActive → u = t) : s.busy ≤ 1 := by
  refine Finset.card_le_one.mpr fun u hu v hv => ?_
  rw [Finset.mem_filter] at hu hv
  rw [hs u hu.2, hs v hv.2]

theorem busy_pos (ht : (s.status t).isActive) : 0 < s.busy :=
  Finset.card_pos.mpr ⟨t, by simpa using ht⟩

theorem busy_eq_zero (hs : ∀ u, ¬ (s.status u).isActive) : s.busy = 0 := by
  rw [busy, Finset.card_eq_zero, Finset.filter_eq_empty_iff]
  exact fun u _ => hs u

variable [DecidableEq τ]

theorem busy_set_le (h : x.isActive → (s.status t).isActive) : (s.set t x).busy ≤ s.busy := by
  refine Finset.card_le_card fun u hu => ?_
  rw [Finset.mem_filter] at hu ⊢
  by_cases ht : u = t
  · subst ht
    rw [status_set_self] at hu
    exact ⟨Finset.mem_univ u, h hu.2⟩
  · rw [status_set_of_ne s x ht] at hu
    exact hu

theorem busy_set_le_succ : (s.set t x).busy ≤ s.busy + 1 := by
  have hsub : (Finset.univ.filter fun u => ((s.set t x).status u).isActive) ⊆
      insert t (Finset.univ.filter fun u => (s.status u).isActive) := by
    intro u hu
    by_cases ht : u = t
    · exact Finset.mem_insert.mpr (.inl ht)
    · rw [Finset.mem_filter, status_set_of_ne s x ht] at hu
      exact Finset.mem_insert_of_mem (Finset.mem_filter.mpr hu)
  exact (Finset.card_le_card hsub).trans (Finset.card_insert_le t _)

end Busy

/-- Every task that has the mutex or waits for it is among its tasks, once, and one that has it
is the first of them. -/
structure Locked (s : Sched τ κ) : Prop where
  mem_tasks : ∀ key t, t ∈ (s.mutex key).tasks ↔ (s.status t).Wants key
  nodup : ∀ key, (s.mutex key).tasks.Nodup
  holder : ∀ key t, (s.status t).held = some key → (s.mutex key).holder = some t

section Locked

variable {s : Sched τ κ} {t u : τ} {key : κ} {x : Status κ}

/-- Who waits for a mutex finds somebody that has it or has been handed it. -/
theorem Locked.exists_holder (hs : s.Locked) (h : s.status t = .waiting key) :
    ∃ u, (s.mutex key).holder = some u ∧ (s.status u).Wants key := by
  have hmem : t ∈ (s.mutex key).tasks := (hs.mem_tasks key t).mpr (.inl h)
  obtain ⟨u, hu⟩ := Option.isSome_iff_exists.mp (List.isSome_head?.mpr (List.ne_nil_of_mem hmem))
  exact ⟨u, hu, (hs.mem_tasks key u).mp (List.mem_of_mem_head? hu)⟩

/-- Before any task has begun, and with every mutex free. -/
theorem Locked.init (hstatus : ∀ t, s.status t = .ready none) (hfree : ∀ key, s.mutex key = .free) :
    s.Locked where
  mem_tasks key t := by simp [hstatus, hfree, Mutex.free, Status.Wants]
  nodup key := by simp [hfree, Mutex.free]
  holder key t h := by simp [hstatus] at h

variable [DecidableEq τ]

/-- A task that goes on without a change to its mutexes. -/
theorem Locked.set (hs : s.Locked) (hheld : x.held = (s.status t).held)
    (hwants : ∀ key, x = .waiting key ↔ s.status t = .waiting key) : (s.set t x).Locked where
  mem_tasks key u := by
    by_cases hu : u = t
    · subst hu
      rw [mutex_set, hs.mem_tasks, status_set_self, Status.Wants, Status.Wants, hwants, hheld]
    · rw [mutex_set, hs.mem_tasks, status_set_of_ne s x hu]
  nodup := hs.nodup
  holder key u h := by
    by_cases hu : u = t
    · subst hu
      rw [status_set_self, hheld] at h
      exact hs.holder key u h
    · rw [status_set_of_ne s x hu] at h
      exact hs.holder key u h

theorem Locked.resume (hs : s.Locked) (h : s.status t = .waiting key)
    (hturn : (s.mutex key).holder = some t) : (s.set t (.active (some key))).Locked where
  mem_tasks key' u := by
    by_cases hu : u = t
    · subst hu
      rw [mutex_set, hs.mem_tasks, status_set_self, h]
      simp [Status.Wants]
    · rw [mutex_set, hs.mem_tasks, status_set_of_ne s _ hu]
  nodup := hs.nodup
  holder key' u h' := by
    by_cases hu : u = t
    · subst hu
      rw [status_set_self] at h'
      obtain rfl := Option.some.inj h'
      exact hturn
    · rw [status_set_of_ne s _ hu] at h'
      exact hs.holder key' u h'

variable [DecidableEq κ]

/-- A task that wants nothing yet joins the tasks of a mutex. -/
theorem Locked.lock (hs : s.Locked) (h : s.status t = .active none)
    (hx : ∀ key', x.Wants key' ↔ key' = key)
    (hheld : x.held = some key → (s.mutex key).tasks = []) :
    ((s.setMutex key ((s.mutex key).lock t)).set t x).Locked := by
  have hout : ∀ key', t ∉ (s.mutex key').tasks := fun key' hmem => by
    have := (hs.mem_tasks key' t).mp hmem
    simp [Status.Wants, h] at this
  constructor
  case mem_tasks =>
    intro key' u
    by_cases hk : key' = key
    · subst hk
      rw [mutex_set, mutex_setMutex_self, Mutex.lock, List.mem_append, hs.mem_tasks,
        List.mem_singleton]
      by_cases hu : u = t
      · subst hu
        rw [status_set_self, hx]
        simp
      · rw [status_set_of_ne _ x hu, status_setMutex]
        simp [hu]
    · rw [mutex_set, mutex_setMutex_of_ne s _ hk, hs.mem_tasks]
      by_cases hu : u = t
      · subst hu
        rw [status_set_self, hx, ← hs.mem_tasks]
        simp [hk, hout key']
      · rw [status_set_of_ne _ x hu, status_setMutex]
  case nodup =>
    intro key'
    by_cases hk : key' = key
    · subst hk
      rw [mutex_set, mutex_setMutex_self, Mutex.lock]
      exact (hs.nodup key').append (List.nodup_singleton t) (by simpa using hout key')
    · rw [mutex_set, mutex_setMutex_of_ne s _ hk]
      exact hs.nodup key'
  case holder =>
    intro key' u hu'
    by_cases hu : u = t
    · subst hu
      rw [status_set_self] at hu'
      obtain rfl := (hx key').mp (.inr hu')
      rw [mutex_set, mutex_setMutex_self, Mutex.lock, hheld hu']
      rfl
    · rw [status_set_of_ne _ x hu, status_setMutex] at hu'
      have hfirst := hs.holder key' u hu'
      by_cases hk : key' = key
      · subst hk
        rw [mutex_set, mutex_setMutex_self, Mutex.holder, Mutex.lock]
        rw [Mutex.holder] at hfirst
        rw [List.head?_append, hfirst]
        rfl
      · rwa [mutex_set, mutex_setMutex_of_ne s _ hk]

/-- Who drops a mutex is the first of its tasks, and no other task had it. -/
theorem Locked.unlock (hs : s.Locked) (h : s.status t = .active (some key)) :
    ((s.setMutex key (s.mutex key).unlock).set t (.active none)).Locked := by
  have hfirst : (s.mutex key).tasks.head? = some t := hs.holder key t (by rw [h]; rfl)
  obtain ⟨rest, hrest⟩ := List.head?_eq_some_iff.mp hfirst
  have hnodup := hs.nodup key
  rw [hrest, List.nodup_cons] at hnodup
  have hmem := fun u => hs.mem_tasks key u
  simp only [hrest, List.mem_cons] at hmem
  constructor
  case mem_tasks =>
    intro key' u
    by_cases hk : key' = key
    · subst hk
      rw [mutex_set, mutex_setMutex_self, Mutex.unlock, hrest, List.tail_cons]
      by_cases hu : u = t
      · subst hu
        rw [status_set_self]
        simp [Status.Wants, hnodup.1]
      · rw [status_set_of_ne _ _ hu, status_setMutex, ← hmem u]
        simp [hu]
    · rw [mutex_set, mutex_setMutex_of_ne s _ hk, hs.mem_tasks]
      by_cases hu : u = t
      · subst hu
        rw [status_set_self, h]
        simp [Status.Wants, Ne.symm hk]
      · rw [status_set_of_ne _ _ hu, status_setMutex]
  case nodup =>
    intro key'
    by_cases hk : key' = key
    · subst hk
      rw [mutex_set, mutex_setMutex_self, Mutex.unlock, hrest]
      exact hnodup.2
    · rw [mutex_set, mutex_setMutex_of_ne s _ hk]
      exact hs.nodup key'
  case holder =>
    intro key' u hu'
    by_cases hu : u = t
    · subst hu
      rw [status_set_self] at hu'
      contradiction
    · rw [status_set_of_ne _ _ hu, status_setMutex] at hu'
      have hfirst' := hs.holder key' u hu'
      by_cases hk : key' = key
      · subst hk
        exact absurd (Option.some.inj (hfirst'.symm.trans hfirst)) hu
      · rwa [mutex_set, mutex_setMutex_of_ne s _ hk]

end Locked

variable [Fintype τ] [DecidableEq τ] [DecidableEq κ]

/-- A step of one task. A task that has been handed its mutex goes on like a ready one, once a
worker is free. -/
inductive Step (workers : ℕ) (s : Sched τ κ) : Sched τ κ → Prop
  | stay : Step workers s s
  | dispatch (t : τ) (held : Option κ) (h : s.status t = .ready held) (hw : s.busy < workers) :
      Step workers s (s.set t (.active held))
  | resume (t : τ) (key : κ) (h : s.status t = .waiting key)
      (hturn : (s.mutex key).holder = some t) (hw : s.busy < workers) :
      Step workers s (s.set t (.active (some key)))
  | lock (t : τ) (key : κ) (h : s.status t = .active none) (hfree : (s.mutex key).tasks = []) :
      Step workers s ((s.setMutex key ((s.mutex key).lock t)).set t (.active (some key)))
  | wait (t : τ) (key : κ) (h : s.status t = .active none) (hbusy : (s.mutex key).tasks ≠ []) :
      Step workers s ((s.setMutex key ((s.mutex key).lock t)).set t (.waiting key))
  | unlock (t : τ) (key : κ) (h : s.status t = .active (some key)) :
      Step workers s ((s.setMutex key (s.mutex key).unlock).set t (.active none))
  | suspend (t : τ) (held : Option κ) (h : s.status t = .active held) :
      Step workers s (s.set t (.suspended held))
  | wake (t : τ) (held : Option κ) (h : s.status t = .suspended held) :
      Step workers s (s.set t (.ready held))
  | finish (t : τ) (h : s.status t = .active none) : Step workers s (s.set t .finished)

variable {workers : ℕ} {s s' : Sched τ κ}

theorem Step.same {t : τ} {x : Status κ} (h : s.status t = x) : s.Step workers (s.set t x) := by
  rw [set_eq_self h]
  exact .stay

theorem Step.locked (h : s.Step workers s') (hs : s.Locked) : s'.Locked := by
  cases h with
  | stay => exact hs
  | dispatch t held h => exact hs.set (by rw [h]; rfl) (by simp [h])
  | resume t key h hturn => exact hs.resume h hturn
  | lock t key h hfree => exact hs.lock h (by simp [Status.Wants, eq_comm]) fun _ => hfree
  | wait t key h => exact hs.lock h (by simp [Status.Wants, eq_comm]) nofun
  | unlock t key h => exact hs.unlock h
  | suspend t held h => exact hs.set (by rw [h]; rfl) (by simp [h])
  | wake t held h => exact hs.set (by rw [h]; rfl) (by simp [h])
  | finish t h => exact hs.set (by rw [h]; rfl) (by simp [h])

theorem busy_setMutex_le {m : Mutex τ} (h : x.isActive → (s.status t).isActive) :
    ((s.setMutex key m).set t x).busy ≤ s.busy :=
  busy_set_le (s := s.setMutex key m) h

theorem Step.busy_le (h : s.Step workers s') (hs : s.busy ≤ workers) : s'.busy ≤ workers := by
  cases h with
  | stay => exact hs
  | dispatch t held h hw => exact busy_set_le_succ.trans hw
  | resume t key h hturn hw => exact busy_set_le_succ.trans hw
  | lock t key h => exact (busy_setMutex_le (by simp [h, Status.isActive])).trans hs
  | wait t key h => exact (busy_setMutex_le (by simp [h, Status.isActive])).trans hs
  | unlock t key h => exact (busy_setMutex_le (by simp [h, Status.isActive])).trans hs
  | suspend t held h => exact (busy_set_le (by simp [Status.isActive])).trans hs
  | wake t held h => exact (busy_set_le (by simp [Status.isActive])).trans hs
  | finish t h => exact (busy_set_le (by simp [Status.isActive])).trans hs

end Sched

end Tasks
