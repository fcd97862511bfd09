import Mathlib

/-! Items that are made for a key, wait in the queue of that key, and are handed out from its
front, past those that are no longer fit. -/
namespace Supply

variable {ι κ σ α : Type*}

/-- What a call finds in a queue, the name of the item that it hands out, and what it leaves. -/
inductive Takes (name : α → σ) (fit : α → Prop) : List α → Option σ → List α → Prop
  | hit (before : List α) (a : α) (after : List α) (hbefore : ∀ b ∈ before, ¬ fit b)
      (ha : fit a) : Takes name fit (before ++ a :: after) (some (name a)) after
  | miss (queue : List α) (h : ∀ b ∈ queue, ¬ fit b) : Takes name fit queue none []

/-- The size of the queues, the name and the key of an item, and the key that each call asks for. -/
structure Layout (ι κ σ α : Type*) where
  room : ℕ
  name : α → σ
  own : α → κ
  keyOf : ι → κ

/-- `made` are all names so far, each with the key that it was made for; `flight` is an item that
is not in its queue yet; `given` is what the calls have handed out. -/
@[ext] structure Stock (ι κ σ α : Type*) where
  made : List (σ × κ)
  flight : Option (σ × κ)
  queues : κ → List α
  given : ι → Option (Option σ)
  hits : UInt64
  misses : UInt64

inductive Act (ι κ σ α : Type*) where
  | drop
  | make (x : σ) (key : κ)
  | put (a : α)
  | take (i : ι) (fit : α → Prop)

section Step

variable [DecidableEq ι] [DecidableEq κ] (p : Layout ι κ σ α)

/-- Drop items, make one under a new name, put it into its queue, or take one for a call. -/
inductive Step : Stock ι κ σ α → Act ι κ σ α → Stock ι κ σ α → Prop
  | drop {s : Stock ι κ σ α} (queues : κ → List α)
      (h : ∀ key, (queues key).Sublist (s.queues key)) : Step s .drop { s with queues := queues }
  | make {s : Stock ι κ σ α} (x : σ) (key : κ) (hnew : ∀ key, (x, key) ∉ s.made) :
      Step s (.make x key) { s with made := (x, key) :: s.made, flight := some (x, key) }
  | put {s : Stock ι κ σ α} (a : α) (hflight : s.flight = some (p.name a, p.own a))
      (hroom : (s.queues (p.own a)).length < p.room) :
      Step s (.put a) { s with
        flight := none
        queues := Function.update s.queues (p.own a) (s.queues (p.own a) ++ [a]) }
  | take {s : Stock ι κ σ α} (i : ι) (fit : α → Prop) {x : Option σ} {rest : List α}
      (hi : s.given i = none) (h : Takes p.name fit (s.queues (p.keyOf i)) x rest) :
      Step s (.take i fit) { s with
        queues := Function.update s.queues (p.keyOf i) rest
        given := Function.update s.given i (some x)
        hits := if x.isSome then s.hits + 1 else s.hits
        misses := if x.isSome then s.misses else s.misses + 1 }

end Step

namespace Takes

variable {name : α → σ} {fit : α → Prop} {queue rest : List α} {x : Option σ}

theorem nil : Takes name fit [] none [] := .miss [] nofun

theorem sublist (h : Takes name fit queue x rest) : rest.Sublist queue := by
  cases h with
  | hit before a =>
    have hrest : rest.Sublist (a :: rest) := List.sublist_cons_self a rest
    exact hrest.trans (List.sublist_append_right before (a :: rest))
  | miss => exact List.nil_sublist queue

/-- What is handed out was in the queue, and is no longer there. -/
theorem handed {y : σ} (h : Takes name fit queue (some y) rest)
    (hnodup : (queue.map name).Nodup) : y ∈ queue.map name ∧ y ∉ rest.map name := by
  cases h with
  | hit before a _ hbefore ha =>
    rw [List.map_append, List.map_cons] at hnodup ⊢
    refine ⟨by simp, ?_⟩
    exact (List.nodup_cons.mp hnodup.of_append_right).1

/-- An item that is not fit is dropped. -/
theorem skip {a : α} (h : Takes name fit queue x rest) (ha : ¬ fit a) :
    Takes name fit (a :: queue) x rest := by
  cases h with
  | hit before b _ hbefore hb =>
    exact .hit (a :: before) b rest (List.forall_mem_cons.mpr ⟨ha, hbefore⟩) hb
  | miss _ hall => exact .miss (a :: queue) (List.forall_mem_cons.mpr ⟨ha, hall⟩)

end Takes

variable {p : Layout ι κ σ α} {s t : Stock ι κ σ α} {act : Act ι κ σ α}

section Step

variable [DecidableEq ι] [DecidableEq κ]

theorem Step.stay (s : Stock ι κ σ α) : Step p s .drop s := .drop s.queues fun _ => .refl _

theorem Step.take_sublist {i : ι} {fit : α → Prop} (h : Step p s (.take i fit) t) (key : κ) :
    (t.queues key).Sublist (s.queues key) := by
  cases h with
  | take _ _ _ htakes =>
    by_cases hkey : key = p.keyOf i
    · subst hkey
      simpa using htakes.sublist
    · simp [hkey]

/-- A call gets an outcome from the queue of its key, once, and one counter goes up by one. -/
theorem Step.given_cases (h : Step p s act t) (i : ι) :
    t.given i = s.given i ∨ ∃ fit x, act = .take i fit ∧ s.given i = none ∧
      t.given i = some x ∧
      Takes p.name fit (s.queues (p.keyOf i)) x (t.queues (p.keyOf i)) ∧
      (∀ key, key ≠ p.keyOf i → t.queues key = s.queues key) ∧
      t.hits = (if x.isSome then s.hits + 1 else s.hits) ∧
      t.misses = if x.isSome then s.misses else s.misses + 1 := by
  cases h with
  | drop => exact .inl rfl
  | make => exact .inl rfl
  | put => exact .inl rfl
  | @take j fit x rest hj htakes =>
    by_cases hij : i = j
    · subst hij
      exact .inr ⟨fit, x, rfl, hj, Function.update_self .., by simpa using htakes,
        fun key hkey => Function.update_of_ne hkey _ _, rfl, rfl⟩
    · exact .inl (Function.update_of_ne hij _ _)

end Step

variable [Fintype ι]

/-- The number of calls whose outcome has the property. -/
def count (given : ι → Option (Option σ)) (P : Option σ → Bool) : ℕ :=
  (Finset.univ.filter fun i => (given i).any P).card

/-- One more call with an outcome counts once, if its outcome has the property. -/
theorem count_update [DecidableEq ι] {given : ι → Option (Option σ)} {i : ι}
    (hi : given i = none) (x : Option σ) (P : Option σ → Bool) :
    count (Function.update given i (some x)) P =
      if P x then count given P + 1 else count given P := by
  have hold : i ∉ Finset.univ.filter fun j => (given j).any P := by simp [hi]
  have hother : ∀ j, j ≠ i → Function.update given i (some x) j = given j := fun j hj =>
    Function.update_of_ne hj _ _
  split_ifs with hx
  · rw [count, count, ← Finset.card_insert_of_notMem hold]
    congr 1
    ext j
    by_cases hj : j = i
    · subst hj
      simp [hx]
    · simp [hj]
  · rw [count, count]
    congr 1
    ext j
    by_cases hj : j = i
    · subst hj
      simp [hx, hi]
    · simp [hother j hj]

/-- What holds after every run: the queues have at most their size and only items of their own
key, and a name is in one place: in flight, once in one queue, or with one call. -/
structure Kept (p : Layout ι κ σ α) (s : Stock ι κ σ α) : Prop where
  once : ∀ x key key', (x, key) ∈ s.made → (x, key') ∈ s.made → key = key'
  room : ∀ key, (s.queues key).length ≤ p.room
  own : ∀ key, ∀ a ∈ s.queues key, p.own a = key ∧ (p.name a, key) ∈ s.made
  nodup : ∀ key, ((s.queues key).map p.name).Nodup
  flight : ∀ x key, s.flight = some (x, key) → (x, key) ∈ s.made ∧
    x ∉ (s.queues key).map p.name ∧ ∀ i, s.given i ≠ some (some x)
  given : ∀ i x, s.given i = some (some x) → (x, p.keyOf i) ∈ s.made ∧
    x ∉ (s.queues (p.keyOf i)).map p.name
  apart : ∀ i j x, s.given i = some (some x) → s.given j = some (some x) → i = j
  hits : s.hits = UInt64.ofNat (count s.given Option.isSome)
  misses : s.misses = UInt64.ofNat (count s.given Option.isNone)

namespace Kept

theorem empty (p : Layout ι κ σ α) : Kept p ⟨[], none, fun _ => [], fun _ => none, 0, 0⟩ where
  once := nofun
  room _ := Nat.zero_le _
  own := nofun
  nodup _ := .nil
  flight := nofun
  given := nofun
  apart := nofun
  hits := by simp [count]
  misses := by simp [count]

/-- What is in no queue of a state is in no queue with fewer items. -/
theorem drop (h : Kept p s) {queues : κ → List α}
    (hsub : ∀ key, (queues key).Sublist (s.queues key)) :
    Kept p { s with queues := queues } where
  once := h.once
  room key := (hsub key).length_le.trans (h.room key)
  own key a ha := h.own key a ((hsub key).subset ha)
  nodup key := (h.nodup key).sublist ((hsub key).map p.name)
  flight x key hx := by
    obtain ⟨hmade, hqueue, hgiven⟩ := h.flight x key hx
    exact ⟨hmade, fun hmem => hqueue (((hsub key).map p.name).subset hmem), hgiven⟩
  given i x hi := by
    obtain ⟨hmade, hqueue⟩ := h.given i x hi
    exact ⟨hmade, fun hmem => hqueue (((hsub _).map p.name).subset hmem)⟩
  apart := h.apart
  hits := h.hits
  misses := h.misses

theorem mem_made (h : Kept p s) {x : σ} {key : κ} (hx : x ∈ (s.queues key).map p.name) :
    (x, key) ∈ s.made := by
  obtain ⟨a, ha, rfl⟩ := List.mem_map.mp hx
  exact (h.own key a ha).2

theorem make (h : Kept p s) {x : σ} {key : κ} (hnew : ∀ key, (x, key) ∉ s.made) :
    Kept p { s with made := (x, key) :: s.made, flight := some (x, key) } where
  once y key₁ key₂ h₁ h₂ := by
    obtain heq₁ | h₁ := List.mem_cons.mp h₁ <;> obtain heq₂ | h₂ := List.mem_cons.mp h₂
    · cases heq₁
      cases heq₂
      rfl
    · cases heq₁
      exact absurd h₂ (hnew key₂)
    · cases heq₂
      exact absurd h₁ (hnew key₁)
    · exact h.once y key₁ key₂ h₁ h₂
  room := h.room
  own key a ha := ⟨(h.own key a ha).1, List.mem_cons_of_mem _ (h.own key a ha).2⟩
  nodup := h.nodup
  flight y key' hy := by
    obtain ⟨rfl, rfl⟩ := Prod.mk.inj (Option.some.inj hy)
    exact ⟨List.mem_cons_self, fun hmem => hnew key (h.mem_made hmem),
      fun i hi => hnew _ (h.given i x hi).1⟩
  given i y hi := ⟨List.mem_cons_of_mem _ (h.given i y hi).1, (h.given i y hi).2⟩
  apart := h.apart
  hits := h.hits
  misses := h.misses

variable [DecidableEq κ]

theorem put (h : Kept p s) {a : α} (hflight : s.flight = some (p.name a, p.own a))
    (hroom : (s.queues (p.own a)).length < p.room) :
    Kept p { s with
      flight := none
      queues := Function.update s.queues (p.own a) (s.queues (p.own a) ++ [a]) } := by
  obtain ⟨hmade, hqueue, hgiven⟩ := h.flight _ _ hflight
  have hnew : ∀ i x, s.given i = some (some x) → x ≠ p.name a := fun i x hi hx =>
    hgiven i (hx ▸ hi)
  refine ⟨h.once, fun key => ?_, fun key b hb => ?_, fun key => ?_, nofun, fun i x hi => ?_,
    h.apart, h.hits, h.misses⟩
  · by_cases hkey : key = p.own a
    · subst hkey
      simpa using hroom
    · simpa [hkey] using h.room key
  · by_cases hkey : key = p.own a
    · subst hkey
      simp only [Function.update_self, List.mem_append, List.mem_singleton] at hb
      obtain hb | rfl := hb
      · exact h.own _ b hb
      · exact ⟨rfl, hmade⟩
    · exact h.own key b (by simpa [hkey] using hb)
  · by_cases hkey : key = p.own a
    · subst hkey
      simp only [Function.update_self, List.map_append, List.map_singleton]
      exact (h.nodup _).append (List.nodup_singleton _) (by simpa using hqueue)
    · simpa [hkey] using h.nodup key
  · obtain ⟨hmade, hmem⟩ := h.given i x hi
    refine ⟨hmade, ?_⟩
    by_cases hkey : p.keyOf i = p.own a
    · rw [hkey] at hmem
      simp only [hkey, Function.update_self, List.map_append, List.map_singleton,
        List.mem_append, List.mem_singleton, not_or]
      exact ⟨hmem, hnew i x hi⟩
    · simpa [hkey] using hmem

variable [DecidableEq ι]

theorem take (h : Kept p s) {i : ι} {fit : α → Prop} {x : Option σ} {rest : List α}
    (hi : s.given i = none) (htakes : Takes p.name fit (s.queues (p.keyOf i)) x rest) :
    Kept p { s with
      queues := Function.update s.queues (p.keyOf i) rest
      given := Function.update s.given i (some x)
      hits := if x.isSome then s.hits + 1 else s.hits
      misses := if x.isSome then s.misses else s.misses + 1 } := by
  have hdrop := h.drop (Step.take i fit hi htakes).take_sublist
  -- the queue of the call had what the call hands out, so no other call has it
  have hhanded : ∀ y, x = some y → (y, p.keyOf i) ∈ s.made ∧ y ∉ rest.map p.name ∧
      (∀ key, s.flight ≠ some (y, key)) ∧ ∀ j, s.given j ≠ some (some y) := by
    rintro y rfl
    obtain ⟨hmem, hrest⟩ := htakes.handed (h.nodup _)
    have hmade := h.mem_made hmem
    refine ⟨hmade, hrest, fun key hflight => ?_, fun j hj => ?_⟩
    · obtain ⟨hkey, hqueue, -⟩ := h.flight y key hflight
      exact hqueue (h.once y _ _ hmade hkey ▸ hmem)
    · obtain ⟨hkey, hqueue⟩ := h.given j y hj
      exact hqueue (h.once y _ _ hmade hkey ▸ hmem)
  have hgiven : ∀ j y, Function.update s.given i (some x) j = some (some y) →
      (j = i ∧ x = some y) ∨ (j ≠ i ∧ s.given j = some (some y)) := by
    intro j y hj
    by_cases hji : j = i
    · subst hji
      exact .inl ⟨rfl, by simpa using hj⟩
    · exact .inr ⟨hji, by simpa [hji] using hj⟩
  refine ⟨h.once, hdrop.room, hdrop.own, hdrop.nodup, fun y key hy => ?_, fun j y hj => ?_,
    fun j k y hj hk => ?_, ?_, ?_⟩
  · obtain ⟨hmade, hqueue, hnone⟩ := hdrop.flight y key hy
    refine ⟨hmade, hqueue, fun j hj => ?_⟩
    obtain ⟨rfl, hx⟩ | ⟨-, hj⟩ := hgiven j y hj
    · exact (hhanded y hx).2.2.1 key hy
    · exact hnone j hj
  · obtain ⟨rfl, hx⟩ | ⟨-, hj⟩ := hgiven j y hj
    · exact ⟨(hhanded y hx).1, by simpa using (hhanded y hx).2.1⟩
    · exact hdrop.given j y hj
  · obtain ⟨rfl, hx⟩ | ⟨-, hj'⟩ := hgiven j y hj <;> obtain ⟨rfl, hx⟩ | ⟨-, hk'⟩ := hgiven k y hk
    · rfl
    · exact absurd hk' ((hhanded y hx).2.2.2 k)
    · exact absurd hj' ((hhanded y hx).2.2.2 j)
    · exact h.apart j k y hj' hk'
  · rw [count_update hi, h.hits]
    split_ifs <;> simp [UInt64.ofNat_add]
  · rw [count_update hi, h.misses]
    cases x <;> simp [UInt64.ofNat_add]

end Kept

variable [DecidableEq ι] [DecidableEq κ]

theorem Step.kept (h : Step p s act t) (hs : Kept p s) : Kept p t := by
  cases h with
  | drop _ hsub => exact hs.drop hsub
  | make _ _ hnew => exact hs.make hnew
  | put _ hflight hroom => exact hs.put hflight hroom
  | take _ _ hi htakes => exact hs.take hi htakes

end Supply
