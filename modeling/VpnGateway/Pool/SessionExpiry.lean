import VpnGateway.Core.Runs
import VpnGateway.Pool.StickySessions

/-! The two expiry tests of the session table, the lookup's and the clean-up's, side by side:
one session at a time, and in runs with and without a clean-up. -/
namespace VpnGateway

open Runs

theorem DateTime.eq_of_sub {t oldest : DateTime} {d : ℤ} (h : DateTime.sub t d = some oldest) :
    oldest = t - d := by
  unfold DateTime.sub at h
  split_ifs at h
  exact (Option.some.inj h).symm

namespace StickySession

/-- Older than its time to live, which is what a lookup asks. -/
def Expired (ttlSecs : UInt64) (now : Clock) (session : StickySession) : Prop :=
  ∃ ttl, StickySessionManager.effectiveTtl ttlSecs session.successCount = some ttl ∧
    ttl < now.utc - session.lastAccess

/-- Exactly as old as its time to live. -/
def AtDeadline (ttlSecs : UInt64) (now : Clock) (session : StickySession) : Prop :=
  StickySessionManager.effectiveTtl ttlSecs session.successCount =
    some (now.utc - session.lastAccess)

/-- What lookups and later touches read of a session. -/
def view (session : StickySession) : String × DateTime × UInt32 :=
  (session.proxyKey, session.lastAccess, session.successCount)

variable {ttlSecs : UInt64} {now later : Clock} {session session' : StickySession}

theorem Expired.of_le (h : session.Expired ttlSecs now) (hle : now.utc ≤ later.utc) :
    session.Expired ttlSecs later := by
  obtain ⟨ttl, httl, hage⟩ := h
  exact ⟨ttl, httl, hage.trans_le (Int.sub_le_sub_right hle _)⟩

theorem view_eq : session'.view = session.view ↔ session'.proxyKey = session.proxyKey ∧
    session'.lastAccess = session.lastAccess ∧ session'.successCount = session.successCount := by
  simp [view]

end StickySession

namespace StickySessionManager

open StickySession

variable {m m' u : StickySessionManager} {now later : Clock} {client : SocketAddr}
  {session : StickySession} {answer : Option String}

theorem get_of_none (hs : m.sessions.get client = none) (now : Clock) :
    m.get now client = some (none, m) := by
  simp only [get, hs]

theorem get_of_live {ttl : ℤ} {oldest : DateTime} (hs : m.sessions.get client = some session)
    (httl : effectiveTtl m.ttlSecs session.successCount = some ttl)
    (hdate : DateTime.sub now.utc ttl = some oldest) (hlive : ¬ session.lastAccess < oldest) :
    m.get now client = some (some session.proxyKey, m) := by
  simp only [get, hs, httl, Option.bind_some, hdate, if_neg hlive]

/-- What a lookup that does not panic says of the session it finds. -/
theorem get_some_cases (hs : m.sessions.get client = some session)
    (h : m.get now client = some (answer, u)) :
    (session.Expired m.ttlSecs now ∧ answer = none ∧
      u = { m with sessions := m.sessions.remove client }) ∨
    (¬ session.Expired m.ttlSecs now ∧ answer = some session.proxyKey ∧ u = m) := by
  simp only [get, hs] at h
  obtain ⟨ttl, httl, h⟩ := Option.bind_eq_some_iff.mp h
  obtain ⟨oldest, hdate, h⟩ := Option.bind_eq_some_iff.mp h
  obtain rfl := DateTime.eq_of_sub hdate
  have hexpired : session.Expired m.ttlSecs now ↔ session.lastAccess < now.utc - ttl := by
    constructor
    · rintro ⟨ttl', httl', hage⟩
      obtain rfl := Option.some.inj (httl.symm.trans httl')
      linarith
    · intro hlt
      exact ⟨ttl, httl, by linarith⟩
  rw [hexpired]
  split_ifs at h with hlt
  · obtain ⟨rfl, rfl⟩ := Prod.mk.inj (Option.some.inj h)
    exact Or.inl ⟨hlt, rfl, rfl⟩
  · obtain ⟨rfl, rfl⟩ := Prod.mk.inj (Option.some.inj h)
    exact Or.inr ⟨hlt, rfl, rfl⟩

/-- The clean-up keeps a session that a lookup would answer from, but for one at its deadline. -/
theorem keeps_iff {kept : Bool} (h : m.keeps now session = some kept) :
    kept = true ↔ ¬ session.Expired m.ttlSecs now ∧ ¬ session.AtDeadline m.ttlSecs now := by
  obtain ⟨ttl, httl, hkept⟩ := Option.map_eq_some_iff.mp h
  have hexpired : session.Expired m.ttlSecs now ↔ ttl < now.utc - session.lastAccess := by
    simp only [Expired, httl, Option.some.injEq, exists_eq_left']
  have hdeadline : session.AtDeadline m.ttlSecs now ↔ ttl = now.utc - session.lastAccess := by
    rw [AtDeadline, httl, Option.some.injEq]
  rw [hexpired, hdeadline, ← hkept, decide_eq_true_eq, not_lt, lt_iff_le_and_ne, ne_comm]

theorem cleanup_eq (h : m.cleanup now = some m') :
    m' = { m with sessions := m.sessions.retain fun s => m.keeps now s == some true } ∧
      ∀ client session, m.sessions.get client = some session → (m.keeps now session).isSome := by
  unfold cleanup at h
  split_ifs at h with hall
  obtain rfl := Option.some.inj h
  refine ⟨rfl, fun client session hs => ?_⟩
  have hmem : client ∈ m.sessions.keys := FinMap.mem_of_get hs
  have hsome := hall client hmem
  rwa [hs, Option.all_some] at hsome

/-- What the clean-up leaves under an address. -/
theorem get_cleanup (h : m.cleanup now = some m') (hs : m.sessions.get client = some session) :
    (session.Expired m.ttlSecs now ∨ session.AtDeadline m.ttlSecs now) ∧
      m'.sessions.get client = none ∨
    (¬ session.Expired m.ttlSecs now ∧ ¬ session.AtDeadline m.ttlSecs now) ∧
      m'.sessions.get client = some session := by
  obtain ⟨rfl, hall⟩ := cleanup_eq h
  obtain ⟨kept, hkept⟩ := Option.isSome_iff_exists.mp (hall client session hs)
  cases hk : kept with
  | true =>
    refine Or.inr ⟨(keeps_iff hkept).mp hk, FinMap.get_retain_some.mpr ⟨hs, ?_⟩⟩
    simp [hkept, hk]
  | false =>
    have hno := (keeps_iff hkept).not.mp (by simp [hk])
    refine Or.inl ⟨by_contra fun h' => hno (not_or.mp h'), ?_⟩
    refine Option.eq_none_iff_forall_not_mem.mpr fun session' hs' => ?_
    obtain ⟨hget, hkeep⟩ := FinMap.get_retain_some.mp hs'
    obtain rfl := Option.some.inj (hs.symm.trans hget)
    rw [hkept, hk] at hkeep
    cases hkeep

theorem get_cleanup_of_none (h : m.cleanup now = some m')
    (hs : m.sessions.get client = none) : m'.sessions.get client = none := by
  cases hs' : m'.sessions.get client with
  | none => rfl
  | some session => rw [get_of_cleanup h hs'] at hs; cases hs

/-- The clean-up removes the sessions that a lookup at this time does not answer from, and
leaves the others as they are. -/
def RemovesUnanswered (m : StickySessionManager) (now : Clock) (m' : StickySessionManager) : Prop :=
  ∀ client, m'.sessions.get client =
    if (m.get now client).map Prod.fst = some none then none else m.sessions.get client

/-- No session is exactly as old as its time to live. -/
def NoneAtDeadline (m : StickySessionManager) (now : Clock) : Prop :=
  ∀ client session, m.sessions.get client = some session → ¬ session.AtDeadline m.ttlSecs now

theorem removesUnanswered_iff (h : m.cleanup now = some m')
    (hget : ∀ client, (m.get now client).isSome) :
    m.RemovesUnanswered now m' ↔ m.NoneAtDeadline now := by
  constructor
  · intro hremoves client session hs hdeadline
    obtain ⟨⟨answer, u⟩, hanswer⟩ := Option.isSome_iff_exists.mp (hget client)
    have hafter := hremoves client
    rcases get_some_cases hs hanswer with ⟨⟨ttl, httl, hage⟩, -, -⟩ | ⟨hlive, rfl, -⟩
    · rw [AtDeadline, httl, Option.some.injEq] at hdeadline
      omega
    · rw [hanswer, Option.map_some, if_neg (by simp), hs] at hafter
      rcases get_cleanup h hs with ⟨-, hnone⟩ | ⟨hyoung, -⟩
      · rw [hnone] at hafter
        cases hafter
      · exact hyoung.2 hdeadline
  · intro hno client
    cases hs : m.sessions.get client with
    | none => rw [get_cleanup_of_none h hs, ite_self]
    | some session =>
      obtain ⟨⟨answer, u⟩, hanswer⟩ := Option.isSome_iff_exists.mp (hget client)
      have hlive := hno client session hs
      rcases get_some_cases hs hanswer with ⟨hexpired, rfl, -⟩ | ⟨hfresh, rfl, -⟩
      · rw [hanswer, Option.map_some, if_pos rfl]
        rcases get_cleanup h hs with ⟨-, hnone⟩ | ⟨hyoung, -⟩
        · exact hnone
        · exact absurd hexpired hyoung.1
      · rw [hanswer, Option.map_some, if_neg (by simp)]
        rcases get_cleanup h hs with ⟨hold, -⟩ | ⟨-, hkept⟩
        · exact absurd hold (not_or.mpr ⟨hfresh, hlive⟩)
        · exact hkept

end StickySessionManager

/-- What the gateway calls on the session table. -/
inductive SessionOp where
  | get (client : SocketAddr)
  | setOrTouch (client : SocketAddr) (proxyKey : String)
  | cleanup
  | setTtl (ttlSecs : UInt64)

/-- One call with the clock it reads and what a lookup answers. -/
structure SessionCall where
  now : Clock
  op : SessionOp
  answer : Option String

namespace StickySessionManager

open StickySession

/-- One call that does not panic. -/
def Step (m : StickySessionManager) (c : SessionCall) (u : StickySessionManager) : Prop :=
  match c.op with
  | .get client => m.get c.now client = some (c.answer, u)
  | .setOrTouch client proxyKey => c.answer = none ∧ u = m.setOrTouch c.now client proxyKey
  | .cleanup => c.answer = none ∧ m.cleanup c.now = some u
  | .setTtl ttlSecs => c.answer = none ∧ u = m.setTtl ttlSecs

/-- The call brings no expired session back: a success through its own proxy would, where it goes
on counting, and so would a longer time to live. -/
def RevivesNone (m : StickySessionManager) (c : SessionCall) : Prop :=
  match c.op with
  | .setOrTouch client proxyKey => ∀ session, m.sessions.get client = some session →
      session.Expired m.ttlSecs c.now → session.proxyKey ≠ proxyKey
  | .setTtl ttlSecs => ∀ client session, m.sessions.get client = some session →
      session.Expired m.ttlSecs c.now → session.Expired ttlSecs c.now
  | _ => True

/-- The times of the calls, none before the last. -/
def InOrder (now : Clock) (calls : List SessionCall) : Prop :=
  (now.utc :: calls.map fun c => c.now.utc).Pairwise (· ≤ ·)

/-- How an entry of the swept table relates to the same entry of the other. -/
inductive EntryMirrors (ttlSecs : UInt64) (now : Clock) :
    Option StickySession → Option StickySession → Prop where
  | none : EntryMirrors ttlSecs now none none
  | same {session session' : StickySession} (hview : session'.view = session.view) :
      EntryMirrors ttlSecs now (some session) (some session')
  | gone {session : StickySession} (hexpired : session.Expired ttlSecs now) :
      EntryMirrors ttlSecs now (some session) none

/-- The swept table answers every lookup as the other does. -/
structure Mirrors (now : Clock) (m m' : StickySessionManager) : Prop where
  ttlSecs : m'.ttlSecs = m.ttlSecs
  entry : ∀ client, EntryMirrors m.ttlSecs now (m.sessions.get client) (m'.sessions.get client)

variable {m m' u : StickySessionManager} {now later : Clock} {client : SocketAddr}
  {session session' : StickySession} {answer : Option String} {c : SessionCall}
  {calls : List SessionCall}

theorem EntryMirrors.of_le {ttlSecs : UInt64} {entry entry' : Option StickySession}
    (h : EntryMirrors ttlSecs now entry entry') (hle : now.utc ≤ later.utc) :
    EntryMirrors ttlSecs later entry entry' := by
  cases h with
  | none => exact .none
  | same hview => exact .same hview
  | gone hexpired => exact .gone (hexpired.of_le hle)

theorem Mirrors.of_le (h : Mirrors now m m') (hle : now.utc ≤ later.utc) : Mirrors later m m' :=
  ⟨h.ttlSecs, fun client => (h.entry client).of_le hle⟩

/-- A clean-up that meets no session at its deadline changes no answer. -/
theorem mirrors_cleanup (h : m.cleanup now = some m') (hno : m.NoneAtDeadline now) :
    Mirrors now m m' := by
  refine ⟨by rw [(cleanup_eq h).1], fun client => ?_⟩
  cases hs : m.sessions.get client with
  | none =>
    rw [get_cleanup_of_none h hs]
    exact .none
  | some session =>
    rcases get_cleanup h hs with ⟨hold, hnone⟩ | ⟨-, hkept⟩
    · rw [hnone]
      exact .gone (hold.resolve_right (hno client session hs))
    · rw [hkept]
      exact .same rfl

theorem expired_congr (hview : session'.view = session.view) (ttlSecs : UInt64) (now : Clock) :
    session'.Expired ttlSecs now ↔ session.Expired ttlSecs now := by
  obtain ⟨-, hlast, hcount⟩ := view_eq.mp hview
  simp only [Expired, hlast, hcount]

theorem keeps_congr (hview : session'.view = session.view) (httl : m'.ttlSecs = m.ttlSecs)
    (now : Clock) : m'.keeps now session' = m.keeps now session := by
  obtain ⟨-, hlast, hcount⟩ := view_eq.mp hview
  simp only [keeps, hlast, hcount, httl]

/-- Sessions with one view give the same answer. -/
theorem get_congr (hview : session'.view = session.view) (httl : m'.ttlSecs = m.ttlSecs)
    (hs : m.sessions.get client = some session) (hs' : m'.sessions.get client = some session')
    (now : Clock) : (m'.get now client).map Prod.fst = (m.get now client).map Prod.fst := by
  obtain ⟨hkey, hlast, hcount⟩ := view_eq.mp hview
  simp only [get, hs, hs', hkey, hlast, hcount, httl]
  cases effectiveTtl m.ttlSecs session.successCount with
  | none => rfl
  | some ttl =>
    cases hdate : DateTime.sub now.utc ttl with
    | none => simp only [Option.bind_some, hdate, Option.bind_none, Option.map_none]
    | some oldest =>
      simp only [Option.bind_some, hdate]
      split_ifs <;> rfl

theorem Mirrors.remove (h : Mirrors now m m') (client : SocketAddr) :
    Mirrors now { m with sessions := m.sessions.remove client }
      { m' with sessions := m'.sessions.remove client } := by
  refine ⟨h.ttlSecs, fun other => ?_⟩
  simp only [FinMap.get_remove]
  split_ifs
  · exact .none
  · exact h.entry other

theorem Mirrors.remove_left (h : Mirrors now m m') (hs' : m'.sessions.get client = none) :
    Mirrors now { m with sessions := m.sessions.remove client } m' := by
  refine ⟨h.ttlSecs, fun other => ?_⟩
  simp only [FinMap.get_remove]
  split_ifs with hother
  · rw [hother, hs']
    exact .none
  · exact h.entry other

theorem Mirrors.get_same (h : Mirrors now m m') (hs : m.sessions.get client = some session)
    (hs' : m'.sessions.get client = some session') (hview : session'.view = session.view)
    (hget : m.get now client = some (answer, u)) :
    ∃ u', m'.get now client = some (answer, u') ∧ Mirrors now u u' := by
  have hsame := get_congr hview h.ttlSecs hs hs' now
  rw [hget, Option.map_some, Option.map_eq_some_iff] at hsame
  obtain ⟨⟨answer', u'⟩, hget', rfl⟩ := hsame
  have hexp : session'.Expired m'.ttlSecs now ↔ session.Expired m.ttlSecs now := by
    rw [h.ttlSecs, expired_congr hview]
  refine ⟨u', hget', ?_⟩
  rcases get_some_cases hs hget with ⟨hold, -, rfl⟩ | ⟨hlive, -, rfl⟩
  · rcases get_some_cases hs' hget' with ⟨-, -, rfl⟩ | ⟨hlive', -, -⟩
    · exact h.remove client
    · exact absurd (hexp.mpr hold) hlive'
  · rcases get_some_cases hs' hget' with ⟨hold', -, -⟩ | ⟨-, -, rfl⟩
    · exact absurd (hexp.mp hold') hlive
    · exact h

theorem Mirrors.get (h : Mirrors now m m') (hget : m.get now client = some (answer, u)) :
    ∃ u', m'.get now client = some (answer, u') ∧ Mirrors now u u' := by
  have hentry := h.entry client
  cases hs : m.sessions.get client with
  | none =>
    cases hs' : m'.sessions.get client with
    | none =>
      rw [get_of_none hs] at hget
      obtain ⟨rfl, rfl⟩ := Prod.mk.inj (Option.some.inj hget)
      exact ⟨m', get_of_none hs' now, h⟩
    | some session' =>
      rw [hs, hs'] at hentry
      cases hentry
  | some session =>
    cases hs' : m'.sessions.get client with
    | none =>
      rw [hs, hs'] at hentry
      cases hentry with
      | gone hexpired =>
        rcases get_some_cases hs hget with ⟨-, rfl, rfl⟩ | ⟨hlive, -, -⟩
        · exact ⟨m', get_of_none hs' now, h.remove_left hs'⟩
        · exact absurd hexpired hlive
    | some session' =>
      rw [hs, hs'] at hentry
      cases hentry with
      | same hview => exact h.get_same hs hs' hview hget

theorem cleanup_of_keeps
    (h : ∀ client session, m.sessions.get client = some session → (m.keeps now session).isSome) :
    m.cleanup now =
      some { m with sessions := m.sessions.retain fun s => m.keeps now s == some true } := by
  unfold StickySessionManager.cleanup
  rw [if_pos]
  intro client hmem
  obtain ⟨session, hs⟩ := FinMap.mem_iff.mp hmem
  rw [hs, Option.all_some]
  exact h client session hs

theorem EntryMirrors.filter {entry entry' : Option StickySession}
    (h : EntryMirrors m.ttlSecs now entry entry') (httl : m'.ttlSecs = m.ttlSecs)
    (hkeeps : ∀ session, entry = some session → (m.keeps now session).isSome) :
    EntryMirrors m.ttlSecs now (entry.filter fun s => m.keeps now s == some true)
      (entry'.filter fun s => m'.keeps now s == some true) := by
  cases h with
  | none => exact .none
  | same hview =>
    rw [Option.filter_some, Option.filter_some, keeps_congr hview httl]
    split_ifs
    · exact .same hview
    · exact .none
  | gone hexpired =>
    obtain ⟨kept, hkept⟩ := Option.isSome_iff_exists.mp (hkeeps _ rfl)
    have hno : kept ≠ true := fun hk => ((keeps_iff hkept).mp hk).1 hexpired
    rw [Option.filter_some, hkept, if_neg (by simpa using hno)]
    exact .none

theorem Mirrors.cleanup (h : Mirrors now m m') (hclean : m.cleanup now = some u) :
    ∃ u', m'.cleanup now = some u' ∧ Mirrors now u u' := by
  obtain ⟨rfl, hall⟩ := cleanup_eq hclean
  refine ⟨_, cleanup_of_keeps fun client session' hs' => ?_, h.ttlSecs, fun client => ?_⟩
  · have hentry := h.entry client
    rw [hs'] at hentry
    cases hs : m.sessions.get client with
    | none =>
      rw [hs] at hentry
      cases hentry
    | some session =>
      rw [hs] at hentry
      cases hentry with
      | same hview =>
        rw [keeps_congr hview h.ttlSecs]
        exact hall client session hs
  · exact (h.entry client).filter h.ttlSecs (hall client)

/-- The success count that `set_or_touch` writes. -/
def touchedCount (entry : Option StickySession) (proxyKey : String) : UInt32 :=
  match entry with
  | some session => if session.proxyKey = proxyKey then session.successCount + 1 else 1
  | none => 1

theorem view_setOrTouch (m : StickySessionManager) (now : Clock) (client : SocketAddr)
    (proxyKey : String) : ∃ session,
      (m.setOrTouch now client proxyKey).sessions.get client = some session ∧
      session.view = (proxyKey, now.utc, touchedCount (m.sessions.get client) proxyKey) := by
  refine ⟨_, FinMap.get_insert_self _ _ _, ?_⟩
  cases m.sessions.get client with
  | none => rfl
  | some session =>
    by_cases hkey : session.proxyKey = proxyKey
    · simp [touchedCount, view, hkey]
    · simp [touchedCount, view, hkey]

theorem EntryMirrors.touchedCount_eq {ttlSecs : UInt64} {entry entry' : Option StickySession}
    (h : EntryMirrors ttlSecs now entry entry') {proxyKey : String}
    (hrevive : ∀ session, entry = some session → session.Expired ttlSecs now →
      session.proxyKey ≠ proxyKey) :
    touchedCount entry' proxyKey = touchedCount entry proxyKey := by
  cases h with
  | none => rfl
  | same hview =>
    obtain ⟨hkey, -, hcount⟩ := view_eq.mp hview
    simp only [touchedCount, hkey, hcount]
  | gone hexpired => simp only [touchedCount, if_neg (hrevive _ rfl hexpired)]

theorem Mirrors.setOrTouch (h : Mirrors now m m') {proxyKey : String}
    (hrevive : ∀ session, m.sessions.get client = some session →
      session.Expired m.ttlSecs now → session.proxyKey ≠ proxyKey) :
    Mirrors now (m.setOrTouch now client proxyKey) (m'.setOrTouch now client proxyKey) := by
  refine ⟨h.ttlSecs, fun other => ?_⟩
  by_cases hother : other = client
  · subst hother
    obtain ⟨session, hs, hview⟩ := m.view_setOrTouch now other proxyKey
    obtain ⟨session', hs', hview'⟩ := m'.view_setOrTouch now other proxyKey
    have hcount := (h.entry other).touchedCount_eq hrevive
    rw [hs, hs']
    exact .same (by rw [hview, hview', hcount])
  · rw [get_setOrTouch_of_ne _ _ _ hother, get_setOrTouch_of_ne _ _ _ hother]
    exact h.entry other

theorem Mirrors.setTtl (h : Mirrors now m m') {ttlSecs : UInt64}
    (hrevive : ∀ client session, m.sessions.get client = some session →
      session.Expired m.ttlSecs now → session.Expired ttlSecs now) :
    Mirrors now (m.setTtl ttlSecs) (m'.setTtl ttlSecs) := by
  refine ⟨rfl, fun client => ?_⟩
  have hrevived := hrevive client
  simp only [StickySessionManager.setTtl]
  generalize m.sessions.get client = entry, m'.sessions.get client = entry', h.entry client = hentry
    at hrevived ⊢
  cases hentry with
  | none => exact .none
  | same hview => exact .same hview
  | gone hexpired => exact .gone (hrevived _ rfl hexpired)

/-- One call keeps the tables alike, where it brings no expired session back. -/
theorem Mirrors.step (h : Mirrors now m m') (hle : now.utc ≤ c.now.utc)
    (hrevive : m.RevivesNone c) (hstep : m.Step c u) :
    ∃ u', m'.Step c u' ∧ Mirrors c.now u u' := by
  have hlater := h.of_le hle
  obtain ⟨time, op, answer⟩ := c
  cases op with
  | get client => exact hlater.get hstep
  | setOrTouch client proxyKey =>
    obtain ⟨hanswer, rfl⟩ := hstep
    exact ⟨_, ⟨hanswer, rfl⟩, hlater.setOrTouch hrevive⟩
  | cleanup =>
    obtain ⟨u', hclean, hmirrors⟩ := hlater.cleanup hstep.2
    exact ⟨u', ⟨hstep.1, hclean⟩, hmirrors⟩
  | setTtl ttlSecs =>
    obtain ⟨hanswer, rfl⟩ := hstep
    exact ⟨_, ⟨hanswer, rfl⟩, hlater.setTtl hrevive⟩

theorem Mirrors.run (h : Mirrors now m m') (horder : InOrder now calls)
    (hrun : Run (Guarded Step RevivesNone) m calls u) : ∃ u', Run Step m' calls u' := by
  induction hrun generalizing now m' with
  | nil => exact ⟨m', .nil m'⟩
  | cons head _ ih =>
    obtain ⟨hle, hrest⟩ := List.pairwise_cons.mp horder
    obtain ⟨u', hstep, hmirrors⟩ := h.step (hle _ (by simp)) head.1 head.2
    obtain ⟨v', hv⟩ := ih hmirrors hrest
    exact ⟨v', .cons hstep hv⟩

/-- A call has one answer and leaves one table. -/
theorem Step.unique {c' : SessionCall} {u' : StickySessionManager} (h : m.Step c u)
    (h' : m.Step c' u') (hnow : c'.now = c.now) (hop : c'.op = c.op) : c' = c ∧ u' = u := by
  obtain ⟨time, op, answer⟩ := c
  obtain ⟨time', op', answer'⟩ := c'
  obtain rfl : time' = time := hnow
  obtain rfl : op' = op := hop
  cases op' with
  | get client =>
    obtain ⟨rfl, rfl⟩ := Prod.mk.inj (Option.some.inj (h.symm.trans h'))
    exact ⟨rfl, rfl⟩
  | setOrTouch client proxyKey =>
    obtain ⟨rfl, rfl⟩ := h
    obtain ⟨rfl, rfl⟩ := h'
    exact ⟨rfl, rfl⟩
  | cleanup =>
    obtain ⟨rfl, hclean⟩ := h
    obtain ⟨rfl, hclean'⟩ := h'
    exact ⟨rfl, Option.some.inj (hclean'.symm.trans hclean)⟩
  | setTtl ttlSecs =>
    obtain ⟨rfl, rfl⟩ := h
    obtain ⟨rfl, rfl⟩ := h'
    exact ⟨rfl, rfl⟩

theorem run_unique {calls' : List SessionCall} {u' : StickySessionManager}
    (h : Run Step m calls u) (h' : Run Step m calls' u')
    (hsame : calls'.map (fun c => (c.now, c.op)) = calls.map fun c => (c.now, c.op)) :
    calls' = calls ∧ u' = u := by
  induction h generalizing calls' with
  | nil =>
    obtain rfl := List.map_eq_nil_iff.mp hsame
    cases h'
    exact ⟨rfl, rfl⟩
  | cons head _ ih =>
    cases h' with
    | nil => cases hsame
    | cons head' tail' =>
      obtain ⟨hcall, hcalls⟩ := List.cons.inj hsame
      obtain ⟨hnow, hop⟩ := Prod.mk.inj hcall
      obtain ⟨rfl, rfl⟩ := head.unique head' hnow hop
      obtain ⟨rfl, rfl⟩ := ih tail' hcalls
      exact ⟨rfl, rfl⟩

/-- With a clean-up between them, the same calls have the same answers and no others. -/
def CleanupUnobserved (m₀ : StickySessionManager) (before : List SessionCall) (now : Clock)
    (after : List SessionCall) : Prop :=
  (∃ u, Run Step m₀ (before ++ ⟨now, .cleanup, none⟩ :: after) u) ∧
  ∀ after' u, Run Step m₀ (before ++ ⟨now, .cleanup, none⟩ :: after') u →
    after'.map (fun c => (c.now, c.op)) = after.map (fun c => (c.now, c.op)) → after' = after

/-- The clean-up and the lookup agree on a table exactly where no session is at its deadline, and
there no later answer tells whether a clean-up was run, as long as no call brings an expired
session back. -/
theorem cleanup_agrees_iff (hclean : m.cleanup now = some m')
    (hget : ∀ client, (m.get now client).isSome) :
    (m.RemovesUnanswered now m' ↔ m.NoneAtDeadline now) ∧
    (m.NoneAtDeadline now → ∀ m₀ before after u, Run Step m₀ before m → InOrder now after →
      Run (Guarded Step RevivesNone) m after u → CleanupUnobserved m₀ before now after) := by
  refine ⟨removesUnanswered_iff hclean hget, fun hno m₀ before after u hbefore horder hrun => ?_⟩
  have hcall : m.Step ⟨now, .cleanup, none⟩ m' := ⟨rfl, hclean⟩
  obtain ⟨u', hu'⟩ := (mirrors_cleanup hclean hno).run horder hrun
  have hall := run_append.mpr ⟨m, hbefore, .cons hcall hu'⟩
  refine ⟨⟨u', hall⟩, fun after' v hv hsame => ?_⟩
  have heq := (run_unique hall hv (by simp [hsame])).1
  exact (List.cons.inj (List.append_cancel_left heq)).2

def servedClient : SocketAddr := ⟨.v4 167772162, 40000⟩

def servedSession (successCount : UInt32) : StickySession where
  clientIp := servedClient
  proxyKey := "1.2.3.4:8080"
  backupProxyKey := none
  createdAt := 1700000000000000000
  lastAccess := 1700000000000000000
  successCount := successCount

/-- One client's session under the default time to live. -/
def servedTable (successCount : UInt32) : StickySessionManager :=
  ⟨FinMap.empty.insert servedClient (servedSession successCount), 300⟩

theorem get_servedTable (successCount : UInt32) :
    (servedTable successCount).sessions.get servedClient = some (servedSession successCount) :=
  FinMap.get_insert_self _ _ _

/-- So many seconds after the client was served. -/
def servedAgo (seconds : ℕ) : Clock := ⟨0, 1700000000000000000 + fromSecs seconds⟩

theorem get_servedTable_ne {successCount : UInt32} {client : SocketAddr}
    (h : client ≠ servedClient) : (servedTable successCount).sessions.get client = none := by
  rw [servedTable, FinMap.get_insert_of_ne _ _ h]
  rfl

theorem cleanup_servedTable (successCount : UInt32) (now : Clock)
    (h : ((servedTable successCount).keeps now (servedSession successCount)).isSome) :
    ∃ m', (servedTable successCount).cleanup now = some m' := by
  refine ⟨_, cleanup_of_keeps fun client session hs => ?_⟩
  by_cases hclient : client = servedClient
  · rw [hclient, get_servedTable] at hs
    obtain rfl := Option.some.inj hs
    exact h
  · rw [get_servedTable_ne hclient] at hs
    cases hs

theorem isSome_get_servedTable (successCount : UInt32) (now : Clock)
    (h : ((servedTable successCount).get now servedClient).isSome) (client : SocketAddr) :
    ((servedTable successCount).get now client).isSome := by
  by_cases hclient : client = servedClient
  · rw [hclient]
    exact h
  · rw [get_of_none (get_servedTable_ne hclient)]
    rfl

theorem effectiveTtl_servedTable : effectiveTtl (servedTable 1).ttlSecs
    (servedSession 1).successCount = some 300000000000 := by decide

theorem expired_servedTable :
    (servedSession 1).Expired (servedTable 1).ttlSecs (servedAgo 400) :=
  ⟨_, effectiveTtl_servedTable, by decide⟩

theorem noneAtDeadline_servedTable : (servedTable 1).NoneAtDeadline (servedAgo 400) := by
  intro client session hs hdeadline
  by_cases hclient : client = servedClient
  · rw [hclient, get_servedTable] at hs
    obtain rfl := Option.some.inj hs
    have hage := effectiveTtl_servedTable.symm.trans hdeadline
    revert hage
    decide
  · rw [get_servedTable_ne hclient] at hs
    cases hs

/-- Long after the client was served, neither the clean-up nor a later lookup finds it. -/
theorem cleanup_agrees_servedTable :
    ∃ m', (servedTable 1).cleanup (servedAgo 400) = some m' ∧
      (servedTable 1).RemovesUnanswered (servedAgo 400) m' ∧
      CleanupUnobserved (servedTable 1) [] (servedAgo 400)
        [⟨servedAgo 500, .get servedClient, none⟩] := by
  obtain ⟨m', hclean⟩ := cleanup_servedTable 1 (servedAgo 400) (by decide)
  have hagrees := cleanup_agrees_iff hclean (isSome_get_servedTable 1 (servedAgo 400) (by decide))
  obtain ⟨⟨answer, u⟩, hget⟩ : ∃ r, (servedTable 1).get (servedAgo 500) servedClient = some r :=
    Option.isSome_iff_exists.mp (by decide)
  have hle : (servedAgo 400).utc ≤ (servedAgo 500).utc := by decide
  rcases get_some_cases (get_servedTable 1) hget with ⟨-, rfl, -⟩ | ⟨hlive, -, -⟩
  · exact ⟨m', hclean, hagrees.1.mpr noneAtDeadline_servedTable,
      hagrees.2 noneAtDeadline_servedTable _ [] _ u (.nil _)
        (List.pairwise_pair.mpr hle) (.single ⟨trivial, hget⟩)⟩
  · exact absurd (expired_servedTable.of_le hle) hlive

/-- Five minutes to the nanosecond after the client was served, a lookup answers and the clean-up
removes the session. -/
theorem cleanup_disagrees_at_deadline :
    ∃ m', (servedTable 1).cleanup (servedAgo 300) = some m' ∧
      (∀ client, ((servedTable 1).get (servedAgo 300) client).isSome) ∧
      ¬ (servedTable 1).RemovesUnanswered (servedAgo 300) m' ∧
      Run Step (servedTable 1)
        [⟨servedAgo 300, .get servedClient, some "1.2.3.4:8080"⟩] (servedTable 1) ∧
      ¬ CleanupUnobserved (servedTable 1) [] (servedAgo 300)
        [⟨servedAgo 300, .get servedClient, some "1.2.3.4:8080"⟩] := by
  obtain ⟨m', hclean⟩ := cleanup_servedTable 1 (servedAgo 300) (by decide)
  have hall := isSome_get_servedTable 1 (servedAgo 300) (by decide)
  have hdate : DateTime.sub (servedAgo 300).utc 300000000000 = some 1700000000000000000 := by decide
  have hlive : ¬ (servedSession 1).lastAccess < 1700000000000000000 := by decide
  have hget := get_of_live (get_servedTable 1) effectiveTtl_servedTable hdate hlive
  have hdeadline : (servedSession 1).AtDeadline (servedTable 1).ttlSecs (servedAgo 300) :=
    effectiveTtl_servedTable.trans (by decide)
  have hnone := ((get_cleanup hclean (get_servedTable 1)).resolve_right
    fun hkept => hkept.1.2 hdeadline).2
  refine ⟨m', hclean, hall, fun hremoves => ?_, .single hget, fun hsame => ?_⟩
  · exact (removesUnanswered_iff hclean hall).mp hremoves _ _ (get_servedTable 1) hdeadline
  · have hafter : Step _ ⟨servedAgo 300, .get servedClient, none⟩ _ := get_of_none hnone _
    have heq := hsame.2 _ _ (.cons ⟨rfl, hclean⟩ (.single hafter)) rfl
    cases heq

/-- Without a session at its deadline, a longer time to live still tells whether a clean-up was
run: the expired session is back, or it is gone. -/
theorem cleanup_observed_after_setTtl :
    let after : List SessionCall := [⟨servedAgo 400, .setTtl 600, none⟩,
      ⟨servedAgo 400, .get servedClient, some "1.2.3.4:8080"⟩]
    (servedTable 1).NoneAtDeadline (servedAgo 400) ∧
      Run Step (servedTable 1) after ((servedTable 1).setTtl 600) ∧
      ¬ CleanupUnobserved (servedTable 1) [] (servedAgo 400) after := by
  intro after
  obtain ⟨m', hclean⟩ := cleanup_servedTable 1 (servedAgo 400) (by decide)
  have hnone := ((get_cleanup hclean (get_servedTable 1)).resolve_right
    fun hkept => hkept.1.1 expired_servedTable).2
  have httl : effectiveTtl 600 (servedSession 1).successCount = some 600000000000 := by decide
  have hdate : DateTime.sub (servedAgo 400).utc 600000000000 = some 1699999800000000000 := by decide
  have hget : ((servedTable 1).setTtl 600).get (servedAgo 400) servedClient = _ :=
    get_of_live (get_servedTable 1) httl hdate (by decide)
  refine ⟨noneAtDeadline_servedTable, .cons ⟨rfl, rfl⟩ (.single hget), fun hsame => ?_⟩
  have hlonger : Step m' ⟨servedAgo 400, .setTtl 600, none⟩ (m'.setTtl 600) := ⟨rfl, rfl⟩
  have hafter : Step (m'.setTtl 600) ⟨servedAgo 400, .get servedClient, none⟩ (m'.setTtl 600) :=
    get_of_none (m := m'.setTtl 600) hnone _
  have heq := hsame.2 _ _ (.cons ⟨rfl, hclean⟩ (.cons hlonger (.single hafter))) rfl
  exact absurd heq (by simp [after])

end StickySessionManager

end VpnGateway
