import Mathlib

/-! A directory of files as programs share it: names lead to files, an open file is held by its
number whatever happens to its name, and every writer has an offset of its own. -/

abbrev FileId := ℕ

/-- Names of files below a number, no file with two names. -/
structure Directory (Name : Type) where
  entry : Name → Option FileId
  next : FileId
  entry_lt : ∀ name i, entry name = some i → i < next
  entry_inj : ∀ a b i, entry a = some i → entry b = some i → a = b

namespace Directory

variable {Name : Type}

def empty : Directory Name := ⟨fun _ => none, 0, by simp, by simp⟩

variable [DecidableEq Name]

/-- A name that has no file gets a new one. -/
def create (dir : Directory Name) (name : Name) : Directory Name where
  entry := Function.update dir.entry name (some dir.next)
  next := dir.next + 1
  entry_lt a i ha := by
    rw [Function.update_apply] at ha
    split_ifs at ha
    · exact Option.some.inj ha ▸ Nat.lt_succ_self _
    · exact (dir.entry_lt a i ha).trans (Nat.lt_succ_self _)
  entry_inj a b i ha hb := by
    rw [Function.update_apply] at ha hb
    split_ifs at ha hb with hna hnb
    · rw [hna, hnb]
    · exact absurd (Option.some.inj ha) (dir.entry_lt b i hb).ne'
    · exact absurd (Option.some.inj hb) (dir.entry_lt a i ha).ne'
    · exact dir.entry_inj a b i ha hb

/-- The file of one name moves to the other, whose own file is lost. -/
def move (dir : Directory Name) (source target : Name) : Directory Name where
  entry := Function.update (Function.update dir.entry source none) target (dir.entry source)
  next := dir.next
  entry_lt a i ha := by
    rw [Function.update_apply, Function.update_apply] at ha
    split_ifs at ha
    · exact dir.entry_lt source i ha
    · exact dir.entry_lt a i ha
  entry_inj a b i ha hb := by
    rw [Function.update_apply, Function.update_apply] at ha hb
    split_ifs at ha hb with hta htb hsb hsa htb
    · rw [hta, htb]
    · exact absurd (dir.entry_inj b source i hb ha) hsb
    · exact absurd (dir.entry_inj a source i ha hb) hsa
    · exact dir.entry_inj a b i ha hb

end Directory

structure Disk (Name : Type) where
  dir : Directory Name
  data : FileId → List UInt8

namespace Disk

variable {Name : Type}

def empty : Disk Name := ⟨.empty, fun _ => []⟩

def content (d : Disk Name) (name : Name) : Option (List UInt8) := (d.dir.entry name).map d.data

/-- Overwrite from an offset on; a gap is filled with zeros. -/
def splice (content : List UInt8) (offset : ℕ) (bytes : List UInt8) : List UInt8 :=
  content.take offset ++ List.replicate (offset - content.length) 0 ++ bytes ++
    content.drop (offset + bytes.length)

def writeAt (d : Disk Name) (i : FileId) (offset : ℕ) (bytes : List UInt8) : Disk Name :=
  { d with data := Function.update d.data i (splice (d.data i) offset bytes) }

@[simp] theorem data_writeAt (d : Disk Name) (i : FileId) (offset : ℕ) (bytes : List UInt8) :
    (d.writeAt i offset bytes).data i = splice (d.data i) offset bytes := Function.update_self ..

/-- What is written behind a prefix of a text extends the prefix. -/
theorem splice_prefix (text : List UInt8) (offset n : ℕ) (h : offset ≤ text.length) :
    splice (text.take offset) offset ((text.drop offset).take n) = text.take (offset + n) := by
  have hlen : (text.take offset).length = offset := by simp [h]
  have hrest : (text.take offset).drop (offset + ((text.drop offset).take n).length) = [] :=
    List.drop_eq_nil_of_le (by omega)
  rw [splice, hlen, Nat.sub_self, List.replicate_zero, List.append_nil, List.take_take,
    Nat.min_self, hrest, List.append_nil, List.take_add]

theorem content_of_entry {d : Disk Name} {name : Name} {i : FileId}
    (h : d.dir.entry name = some i) : d.content name = some (d.data i) := by
  rw [content, h, Option.map_some]

/-- A file with another name is not touched. -/
theorem content_update_of_ne {d : Disk Name} {name other : Name} {i : FileId} (bytes : List UInt8)
    (h : d.dir.entry name = some i) (hne : other ≠ name) :
    (⟨d.dir, Function.update d.data i bytes⟩ : Disk Name).content other = d.content other := by
  unfold content
  cases ho : d.dir.entry other with
  | none => rfl
  | some j =>
    have hj : j ≠ i := by
      rintro rfl
      exact hne (d.dir.entry_inj other name j ho h)
    exact congrArg some (Function.update_of_ne hj _ _)

section

variable [DecidableEq Name]

/-- Open for writing: an existing file is emptied, a missing one is created. -/
def openTruncate (d : Disk Name) (name : Name) : FileId × Disk Name :=
  match d.dir.entry name with
  | some i => (i, { d with data := Function.update d.data i [] })
  | none => (d.dir.next, ⟨d.dir.create name, Function.update d.data d.dir.next []⟩)

/-- `none` where there is no file to move. -/
def rename (d : Disk Name) (source target : Name) : Option (Disk Name) :=
  if (d.dir.entry source).isSome then some { d with dir := d.dir.move source target } else none

theorem entry_openTruncate (d : Disk Name) (name : Name) :
    (d.openTruncate name).2.dir.entry name = some (d.openTruncate name).1 := by
  unfold openTruncate
  cases h : d.dir.entry name with
  | none => simp [Directory.create]
  | some i => exact h

theorem data_openTruncate (d : Disk Name) (name : Name) :
    (d.openTruncate name).2.data (d.openTruncate name).1 = [] := by
  unfold openTruncate
  cases d.dir.entry name <;> simp

theorem content_openTruncate_of_ne (d : Disk Name) {name other : Name} (hne : other ≠ name) :
    (d.openTruncate name).2.content other = d.content other := by
  unfold openTruncate
  cases h : d.dir.entry name with
  | some i => exact content_update_of_ne [] h hne
  | none =>
    unfold content
    simp only [Directory.create, Function.update_of_ne hne]
    cases ho : d.dir.entry other with
    | none => rfl
    | some j =>
      rw [Option.map_some, Option.map_some,
        Function.update_of_ne (d.dir.entry_lt other j ho).ne]

/-- The new name shows what the old one did. -/
theorem content_rename {d d' : Disk Name} {source target : Name}
    (h : d.rename source target = some d') : d'.content target = d.content source := by
  obtain ⟨-, hd⟩ := Option.ite_none_right_eq_some.mp h
  obtain rfl := Option.some.inj hd
  simp [content, Directory.move]

end

end Disk
