import Mathlib

/-! Locks that suspended tasks wait for in the order of their requests: a reader-writer lock
and a mutex. -/
namespace Locks

inductive Access where
  | read | write
  deriving DecidableEq

/-- Who holds a reader-writer lock, and who waits for it in the order of the requests. -/
structure RwLock (τ : Type*) where
  readers : List τ
  writer : Option τ
  queue : List (τ × Access)
  exclusive : writer ≠ none → readers = []

namespace RwLock

variable {τ : Type*} {l l' : RwLock τ} {t u : τ} {access : Access}

def free : RwLock τ := ⟨[], none, [], fun _ => rfl⟩

/-- While somebody reads, nobody writes. -/
theorem writer_eq_none (h : t ∈ l.readers) : l.writer = none := by
  by_contra hw
  rw [l.exclusive hw] at h
  exact List.not_mem_nil h

def request (l : RwLock τ) (t : τ) (access : Access) : RwLock τ :=
  { l with queue := l.queue ++ [(t, access)] }

/-- The task holds the lock or waits for it. -/
def Engaged (l : RwLock τ) (t : τ) : Prop :=
  t ∈ l.readers ∨ l.writer = some t ∨ t ∈ l.queue.map Prod.fst

variable [DecidableEq τ]

instance (l : RwLock τ) (t : τ) : Decidable (l.Engaged t) :=
  inferInstanceAs (Decidable (_ ∨ _ ∨ _))

/-- The lock once `t` has it; `none` while it is not the turn of `t`, or while a holder excludes
what it asks for. -/
def acquire (l : RwLock τ) (t : τ) : Option (RwLock τ) :=
  match l.queue with
  | [] => none
  | (u, .read) :: rest =>
    if hfree : u = t ∧ l.writer = none then
      some ⟨t :: l.readers, l.writer, rest, fun h => absurd hfree.2 h⟩
    else none
  | (u, .write) :: rest =>
    if u = t ∧ l.writer = none ∧ l.readers = [] then some ⟨[], some t, rest, fun _ => rfl⟩
    else none

/-- The lock once `t` has dropped its guard. -/
def release (l : RwLock τ) (t : τ) : RwLock τ where
  readers := l.readers.erase t
  writer := if l.writer = some t then none else l.writer
  queue := l.queue
  exclusive h := by
    have hw : l.writer ≠ none := fun hnone => h (by simp [hnone])
    rw [l.exclusive hw, List.erase_nil]

/-- A reader keeps the lock while others get it. -/
theorem mem_readers_acquire (h : l.acquire t = some l') (hu : u ∈ l.readers) :
    u ∈ l'.readers := by
  unfold acquire at h
  split at h
  · contradiction
  · split_ifs at h
    obtain rfl := Option.some.inj h
    exact List.mem_cons_of_mem t hu
  · split_ifs at h with hfree
    rw [hfree.2.2] at hu
    contradiction

/-- A reader keeps the lock when others drop theirs. -/
theorem mem_readers_release (hu : u ∈ l.readers) (hne : u ≠ t) : u ∈ (l.release t).readers :=
  (List.mem_erase_of_ne hne).mpr hu

end RwLock

/-- The tasks at a mutex: its holder, and behind it those that wait. A dropped guard passes to
the next one whether or not that task is running. -/
@[ext] structure Mutex (τ : Type*) where
  tasks : List τ

namespace Mutex

variable {τ : Type*}

def free : Mutex τ := ⟨[]⟩

def holder (m : Mutex τ) : Option τ := m.tasks.head?

def lock (m : Mutex τ) (t : τ) : Mutex τ := ⟨m.tasks ++ [t]⟩

def unlock (m : Mutex τ) : Mutex τ := ⟨m.tasks.tail⟩

end Mutex

end Locks
