import VpnGateway.Core.Runs

/-! One direction of a copy between two streams: what the source sends is read into a buffer of
bounded size and written from there, until the end of the source is passed on. -/

structure Pipe (α : Type*) where
  /-- Everything that the source has sent. -/
  offered : List α
  unread : List α
  ended : Bool
  buffer : List α
  /-- Everything that has reached the sink. -/
  written : List α
  shut : Bool

namespace Pipe

variable {α : Type*} {p q r : Pipe α} {size : ℕ}

/-- A source that has sent this much and may have ended. -/
def fresh (sent : List α) (ended : Bool) : Pipe α := ⟨sent, sent, ended, [], [], false⟩

/-- What the source does. -/
inductive Source (p : Pipe α) : Pipe α → Prop
  | sends (more : List α) (hopen : p.ended = false) :
      Source p { p with offered := p.offered ++ more, unread := p.unread ++ more }
  | ends (hopen : p.ended = false) : Source p { p with ended := true }

/-- What the copy does with a buffer of this size. -/
inductive Copy (size : ℕ) (p : Pipe α) : Pipe α → Prop
  | reads (n : ℕ) (hpos : 0 < n) (hn : n ≤ p.unread.length) (hroom : p.buffer.length + n ≤ size) :
      Copy size p { p with unread := p.unread.drop n, buffer := p.buffer ++ p.unread.take n }
  | writes (n : ℕ) (hpos : 0 < n) (hn : n ≤ p.buffer.length) :
      Copy size p { p with buffer := p.buffer.drop n, written := p.written ++ p.buffer.take n }
  | shuts (hended : p.ended = true) (hunread : p.unread = []) (hbuffer : p.buffer = [])
      (hopen : p.shut = false) : Copy size p { p with shut := true }

/-- Nothing is lost, doubled or moved past anything else, and the end comes last. -/
structure Exact (size : ℕ) (p : Pipe α) : Prop where
  inOrder : p.written ++ p.buffer ++ p.unread = p.offered
  bounded : p.buffer.length ≤ size
  complete : p.shut = true → p.ended = true ∧ p.unread = [] ∧ p.buffer = []

/-- Nothing has been read. -/
structure Untouched (p : Pipe α) : Prop where
  unread : p.unread = p.offered
  buffer : p.buffer = []
  written : p.written = []
  shut : p.shut = false

theorem untouched_fresh (sent : List α) (ended : Bool) : (fresh sent ended).Untouched :=
  ⟨rfl, rfl, rfl, rfl⟩

theorem Untouched.source (hp : p.Untouched) (h : p.Source q) : q.Untouched := by
  cases h with
  | sends more _ => exact ⟨congrArg (· ++ more) hp.unread, hp.buffer, hp.written, hp.shut⟩
  | ends _ => exact ⟨hp.unread, hp.buffer, hp.written, hp.shut⟩

theorem Untouched.exact (hp : p.Untouched) : p.Exact size where
  inOrder := by rw [hp.written, hp.buffer, hp.unread]; rfl
  bounded := by rw [hp.buffer]; exact Nat.zero_le size
  complete hshut := absurd (hp.shut.symm.trans hshut) Bool.false_ne_true

theorem Exact.source (hp : p.Exact size) (h : p.Source q) : q.Exact size := by
  cases h with
  | sends more hopen =>
    refine ⟨?_, hp.bounded, fun hshut => ?_⟩
    · rw [← hp.inOrder, List.append_assoc _ p.unread]
    · exact absurd (hopen.symm.trans (hp.complete hshut).1) Bool.false_ne_true
  | ends _ => exact ⟨hp.inOrder, hp.bounded, fun hshut => ⟨rfl, (hp.complete hshut).2⟩⟩

theorem Exact.copy (hp : p.Exact size) (h : p.Copy size q) : q.Exact size := by
  cases h with
  | reads n hpos hn hroom =>
    refine ⟨?_, ?_, fun hshut => ?_⟩
    · rw [← hp.inOrder]
      simp only [List.append_assoc, List.take_append_drop]
    · rwa [List.length_append, List.length_take_of_le hn]
    · rw [(hp.complete hshut).2.1, List.length_nil] at hn
      omega
  | writes n hpos hn =>
    refine ⟨?_, ?_, fun hshut => ?_⟩
    · rw [← hp.inOrder, List.append_assoc p.written, List.take_append_drop]
    · rw [List.length_drop]
      exact (Nat.sub_le _ _).trans hp.bounded
    · rw [(hp.complete hshut).2.2, List.length_nil] at hn
      omega
  | shuts hended hunread hbuffer _ =>
    exact ⟨hp.inOrder, hp.bounded, fun _ => ⟨hended, hunread, hbuffer⟩⟩

/-- With the end passed on, everything has arrived. -/
theorem Exact.written_eq (hp : p.Exact size) (hshut : p.shut = true) : p.written = p.offered := by
  obtain ⟨-, hunread, hbuffer⟩ := hp.complete hshut
  rw [← hp.inOrder, hunread, hbuffer, List.append_nil, List.append_nil]

theorem Source.isPrefix_offered (h : p.Source q) : p.offered <+: q.offered := by
  cases h with
  | sends more _ => exact List.prefix_append _ _
  | ends _ => exact List.prefix_rfl

theorem Source.shut_eq (h : p.Source q) : q.shut = p.shut := by cases h <;> rfl

/-- A copy leaves the source alone. -/
theorem Copy.source_eq (h : p.Copy size q) : q.offered = p.offered ∧ q.ended = p.ended := by
  cases h <;> exact ⟨rfl, rfl⟩

/-! How much there is left to copy. -/

def rank (p : Pipe α) : ℕ :=
  2 * p.unread.length + p.buffer.length + if p.shut = true then 0 else 1

theorem Copy.rank_lt (h : p.Copy size q) : q.rank < p.rank := by
  cases h with
  | reads n hpos hn _ =>
    simp only [rank, List.length_drop, List.length_append, List.length_take_of_le hn]
    omega
  | writes n hpos hn =>
    simp only [rank, List.length_drop]
    omega
  | shuts _ _ _ hopen => simp [rank, hopen]

/-- A copy whose source has ended goes on until it has passed on the end. -/
theorem exists_copy (hsize : 0 < size) (hended : p.ended = true) (hopen : p.shut = false) :
    ∃ q, p.Copy size q := by
  by_cases hbuffer : p.buffer = []
  · by_cases hunread : p.unread = []
    · exact ⟨_, .shuts hended hunread hbuffer hopen⟩
    · have hroom : p.buffer.length + 1 ≤ size := by rwa [hbuffer]
      exact ⟨_, .reads 1 Nat.one_pos (List.length_pos_iff.mpr hunread) hroom⟩
  · exact ⟨_, .writes 1 Nat.one_pos (List.length_pos_iff.mpr hbuffer)⟩

end Pipe
