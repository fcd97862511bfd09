import VpnGateway.Proxy.Transparent

/-! What a client's past sessions decide when sticky sessions are switched off: the switch reaches
neither the shared state nor the connection handler. -/
namespace VpnGateway

/-- The settings that `main` builds the shared state from, and the switch, which it does not
pass on. -/
structure Config where
  maxProxies : ℕ
  excludeCountries : List String
  stickySessionTtl : UInt64
  enableStickySessions : Bool

def Config.initialState (config : Config) : SharedState :=
  .withConfig config.stickySessionTtl config.maxProxies config.excludeCountries

namespace SharedState

variable {s s₁ s₂ : SharedState} {now : Clock} {peer : SocketAddr} {targetPort : UInt16}
  {attempt : ℕ}

/-- The same proxies and the same exclude list, whatever the sessions. -/
def SamePool (s₁ s₂ : SharedState) : Prop :=
  s₁.proxies = s₂.proxies ∧ s₁.excludeCountries = s₂.excludeCountries

/-- The proxies that an attempt of the peer's next connection may be given, from `s` or, after a
wait for the pool, from `later`. -/
def given (s : SharedState) (now : Clock) (later : SharedState) (laterNow : Clock)
    (peer : SocketAddr) (targetPort : UInt16) (attempt : ℕ) : Set Proxy :=
  {p | ∃ t clock, AttemptUses peer targetPort attempt s now later laterNow t clock p}

/-- The answers of a fresh selection. -/
def freshAnswers (s : SharedState) (now : Clock) (targetPort : UInt16) : Set Proxy :=
  {p | ∃ c : s.Choice, c.now = now ∧ s.freshSelection c targetPort = some p}

/-- What a session key leads to is all that selection without one could do: its record is the only
possible answer, or there is neither a record nor an answer. -/
def OnlyChoice (s : SharedState) (now : Clock) (targetPort : UInt16) (key : String) : Prop :=
  s.freshAnswers now targetPort = {p | s.proxies.get key = some p}

/-- The two session tables come to the same for this attempt: keys of the same record, no keys, or
a key on one side only that leads where selection has to go anyway. -/
def SameLead (s₁ s₂ : SharedState) (now : Clock) (peer : SocketAddr) (targetPort : UInt16)
    (attempt : ℕ) : Prop :=
  match s₁.storedKey now peer targetPort attempt, s₂.storedKey now peer targetPort attempt with
  | none, none => True
  | some none, some none => True
  | some (some key₁), some (some key₂) => s₁.proxies.get key₁ = s₁.proxies.get key₂
  | some (some key), some none => s₁.OnlyChoice now targetPort key
  | some none, some (some key) => s₁.OnlyChoice now targetPort key
  | _, _ => False

/-- What the lookup in the session table leads to at once. -/
def lead (s : SharedState) (now : Clock) (targetPort : UInt16) : Option (Option String) → Set Proxy
  | none => ∅
  | some (some key) => {p | s.proxies.get key = some p}
  | some none => s.freshAnswers now targetPort

theorem freshAnswers_eq_empty : s.freshAnswers now targetPort = ∅ ↔
    ∀ k p, s.proxies.get k = some p → ¬s.isCandidate now p := by
  rw [Set.eq_empty_iff_forall_notMem]
  constructor
  · intro hnone
    obtain ⟨c, rfl⟩ := s.exists_choice now
    have hfresh : s.freshSelection c targetPort = none := by
      rw [← Option.not_isSome_iff_eq_none, Option.isSome_iff_exists]
      rintro ⟨p, hp⟩
      exact hnone p ⟨_, rfl, hp⟩
    exact freshSelection_eq_none.mp hfresh
  · rintro hnone p ⟨c, rfl, hp⟩
    rw [freshSelection_eq_none.mpr hnone] at hp
    cases hp

/-- An attempt waits when its lookup leads to no proxy. -/
theorem mustWait_iff : s.MustWait now peer targetPort attempt ↔
    s.storedKey now peer targetPort attempt ≠ none ∧
      s.lead now targetPort (s.storedKey now peer targetPort attempt) = ∅ := by
  unfold MustWait
  cases s.storedKey now peer targetPort attempt with
  | none => simp
  | some stored =>
    cases stored with
    | none => simp [lead, freshAnswers_eq_empty]
    | some key =>
      simp [lead, FinMap.notMem_iff, Set.eq_empty_iff_forall_notMem,
        Option.eq_none_iff_forall_ne_some]

theorem mem_given {later : SharedState} {laterNow : Clock} {p : Proxy} :
    p ∈ s.given now later laterNow peer targetPort attempt ↔
      p ∈ s.lead now targetPort (s.storedKey now peer targetPort attempt) ∨
      s.MustWait now peer targetPort attempt ∧
        ∃ c : later.Choice, c.now = laterNow ∧ later.selectBest c = some p := by
  constructor
  · rintro ⟨t, clock, huse⟩
    cases huse with
    | atOnce c hc p hp =>
      subst hc
      left
      rcases attemptChoice_eq_some.mp hp with ⟨key, hkey, hget⟩ | ⟨hnone, hfresh⟩
      · rw [hkey]
        exact hget
      · rw [hnone]
        exact ⟨c, rfl, hfresh⟩
    | afterWait c hc hempty c' hc' p hp =>
      subst hc
      exact Or.inr ⟨attemptChoice_eq_none.mp hempty, c', hc', hp⟩
  · rintro (hp | ⟨hwait, c', hc', hp⟩)
    · cases hstored : s.storedKey now peer targetPort attempt with
      | none =>
        rw [hstored] at hp
        exact False.elim hp
      | some stored =>
        rw [hstored] at hp
        cases stored with
        | some key =>
          obtain ⟨c, rfl⟩ := s.exists_choice now
          exact ⟨s, _, .atOnce c rfl p (attemptChoice_eq_some.mpr (Or.inl ⟨key, hstored, hp⟩))⟩
        | none =>
          obtain ⟨c, rfl, hfresh⟩ := hp
          exact ⟨s, _, .atOnce c rfl p (attemptChoice_eq_some.mpr (Or.inr ⟨hstored, hfresh⟩))⟩
    · obtain ⟨c, rfl⟩ := s.exists_choice now
      exact ⟨later, laterNow,
        .afterWait c rfl (attemptChoice_eq_none.mpr hwait) c' hc' p hp⟩

theorem SamePool.freshAnswers_eq (h : SamePool s₁ s₂) (now : Clock) (targetPort : UInt16) :
    s₁.freshAnswers now targetPort = s₂.freshAnswers now targetPort := by
  obtain ⟨proxies, _, _, _, _, _, countries⟩ := s₁
  obtain ⟨proxies', _, _, _, _, _, countries'⟩ := s₂
  obtain ⟨rfl, rfl⟩ : proxies = proxies' ∧ countries = countries' := h
  ext p
  constructor
  · rintro ⟨c, hc, hp⟩
    exact ⟨⟨c.it, c.draw, c.now⟩, hc, hp⟩
  · rintro ⟨c, hc, hp⟩
    exact ⟨⟨c.it, c.draw, c.now⟩, hc, hp⟩

theorem SamePool.lead_eq (h : SamePool s₁ s₂) (now : Clock) (targetPort : UInt16)
    (stored : Option (Option String)) :
    s₁.lead now targetPort stored = s₂.lead now targetPort stored := by
  cases stored with
  | none => rfl
  | some stored =>
    cases stored with
    | none => exact h.freshAnswers_eq now targetPort
    | some key => rw [lead, lead, h.1]

/-- The tables come to the same exactly when both lookups end, and lead to the same proxies. -/
theorem sameLead_iff : SameLead s₁ s₂ now peer targetPort attempt ↔
    (s₁.storedKey now peer targetPort attempt = none ↔
      s₂.storedKey now peer targetPort attempt = none) ∧
    s₁.lead now targetPort (s₁.storedKey now peer targetPort attempt) =
      s₁.lead now targetPort (s₂.storedKey now peer targetPort attempt) := by
  have hkeys : ∀ key₁ key₂, s₁.proxies.get key₁ = s₁.proxies.get key₂ ↔
      {p | s₁.proxies.get key₁ = some p} = {p | s₁.proxies.get key₂ = some p} := by
    intro key₁ key₂
    rw [Set.ext_iff]
    exact ⟨fun h p => by rw [Set.mem_ofPred_eq, h, Set.mem_ofPred_eq], Option.ext⟩
  unfold SameLead
  cases s₁.storedKey now peer targetPort attempt with
  | none => cases s₂.storedKey now peer targetPort attempt <;> simp
  | some stored₁ =>
    cases s₂.storedKey now peer targetPort attempt with
    | none => simp
    | some stored₂ =>
      cases stored₁ with
      | none => cases stored₂ <;> simp [lead, OnlyChoice]
      | some key₁ =>
        cases stored₂ with
        | none => simp [lead, OnlyChoice, eq_comm]
        | some key₂ => simpa [lead] using hkeys key₁ key₂

/-- An empty pool answers nothing after the wait, so what was given was given at once. -/
theorem given_empty : s.given now (withConfig 0 0 []) now peer targetPort attempt =
    s.lead now targetPort (s.storedKey now peer targetPort attempt) := by
  ext p
  rw [mem_given]
  refine or_iff_left ?_
  rintro ⟨-, c, -, hp⟩
  obtain ⟨k, hk⟩ := (selectBest_ranked hp).stored
  cases hk

def lonePool : SharedState :=
  ((withConfig 300 5000 []).insertIfAbsent (.new "1.1.1.1" 80 .http)).2

/-- A pool of one new proxy answers after the wait. -/
theorem given_lone_eq_empty : s.given now lonePool now peer targetPort attempt = ∅ ↔
    s.storedKey now peer targetPort attempt = none := by
  constructor
  · intro hempty
    by_contra hstored
    have hno : ∀ p, p ∉ s.given now lonePool now peer targetPort attempt := fun p hp => by
      rw [hempty] at hp
      exact hp
    have hlead : s.lead now targetPort (s.storedKey now peer targetPort attempt) = ∅ :=
      Set.eq_empty_iff_forall_notMem.mpr fun p hp => hno p (mem_given.mpr (Or.inl hp))
    obtain ⟨it⟩ := FinMap.Iteration.nonempty lonePool.proxies
    obtain ⟨p, hp⟩ := (selectBest_spec lonePool ⟨it, fun _ => none, now⟩).1.mpr
      ⟨"1.1.1.1:80", .new "1.1.1.1" 80 .http, rfl, rfl, rfl, Or.inr (Or.inr (Or.inl rfl))⟩
    exact hno p (mem_given.mpr (Or.inr ⟨mustWait_iff.mpr ⟨hstored, hlead⟩, _, rfl, hp⟩))
  · intro hstored
    refine Set.eq_empty_iff_forall_notMem.mpr fun p hp => ?_
    rcases mem_given.mp hp with hp | ⟨hwait, -⟩
    · rw [hstored] at hp
      exact hp
    · exact (mustWait_iff.mp hwait).1 hstored

/-- Two histories that leave the same pool give an attempt the same proxies, whatever the pool is
after a wait, exactly when their session tables come to the same for it. -/
theorem sessions_ignored_iff (hpool : SamePool s₁ s₂) (now : Clock) (peer : SocketAddr)
    (targetPort : UInt16) (attempt : ℕ) :
    (∀ later laterNow, s₁.given now later laterNow peer targetPort attempt =
      s₂.given now later laterNow peer targetPort attempt) ↔
    SameLead s₁ s₂ now peer targetPort attempt := by
  rw [sameLead_iff]
  constructor
  · intro hall
    refine ⟨?_, ?_⟩
    · rw [← given_lone_eq_empty, ← given_lone_eq_empty, hall lonePool now]
    · rw [← given_empty, hall, given_empty, hpool.lead_eq]
  · rintro ⟨hnone, hlead⟩ later laterNow
    have hwait : s₁.MustWait now peer targetPort attempt ↔
        s₂.MustWait now peer targetPort attempt := by
      rw [mustWait_iff, mustWait_iff, hlead, hpool.lead_eq, ne_eq, hnone]
    ext p
    rw [mem_given, mem_given, hwait, hlead, hpool.lead_eq]

/-! Two clients of a gateway with the feature off, and two proxies. -/

def switchedOff : Config := ⟨5000, [], 300, false⟩

def otherClient : SocketAddr := ⟨.v4 0xC0A80106, 50001⟩

/-- Both proxies are added and used, by the client through the one that is named last. -/
def history (served : String) : List Op :=
  [.addProxy ⟨"1.1.1.1", 80, none⟩, .addProxy ⟨"2.2.2.2", 80, none⟩,
    .recordSuccess "1.1.1.1:80" (.finite 100), .recordSuccess "2.2.2.2:80" (.finite 100),
    .setOrTouch client served]

def usedPool : SharedState :=
  let added := (switchedOff.initialState.addProxy ⟨"1.1.1.1", 80, none⟩).2
  let added := (added.addProxy ⟨"2.2.2.2", 80, none⟩).2
  (added.recordSuccess epoch "1.1.1.1:80" (.finite 100)).recordSuccess epoch "2.2.2.2:80"
    (.finite 100)

def servedBy (key : String) : SharedState := usedPool.setOrTouch epoch client key

theorem run_history (served : String) : ∃ es, es.map Event.op = history served ∧
    Runs.Run Step switchedOff.initialState es (servedBy served) := run_of_applyAll rfl

/-- Another client's next connection is given the same proxies after both histories. -/
theorem sessions_ignored_other_client :
    SamePool (servedBy "1.1.1.1:80") (servedBy "2.2.2.2:80") ∧
    ∀ later laterNow, (servedBy "1.1.1.1:80").given epoch later laterNow otherClient 80 0 =
      (servedBy "2.2.2.2:80").given epoch later laterNow otherClient 80 0 := by
  have hpool : SamePool (servedBy "1.1.1.1:80") (servedBy "2.2.2.2:80") := ⟨rfl, rfl⟩
  refine ⟨hpool, (sessions_ignored_iff hpool epoch otherClient 80 0).mpr ?_⟩
  have hnone : ∀ key, (servedBy key).storedKey epoch otherClient 80 0 = some none := fun key => rfl
  rw [SameLead, hnone, hnone]
  trivial

/-- With the feature off, the client's next connection starts with the proxy that served it, and
so the two histories, which leave the same pool, give it different ones. -/
theorem sessions_decide_when_off : switchedOff.enableStickySessions = false ∧
    (∀ served, ∃ es, es.map Event.op = history served ∧
      Runs.Run Step switchedOff.initialState es (servedBy served)) ∧
    SamePool (servedBy "1.1.1.1:80") (servedBy "2.2.2.2:80") ∧
    ∃ p, p.key = "1.1.1.1:80" ∧ ∀ later laterNow,
      p ∈ (servedBy "1.1.1.1:80").given epoch later laterNow client 80 0 ∧
      p ∉ (servedBy "2.2.2.2:80").given epoch later laterNow client 80 0 := by
  have hfirst : (servedBy "1.1.1.1:80").storedKey epoch client 80 0 =
      some (some "1.1.1.1:80") := by decide
  have hsecond : (servedBy "2.2.2.2:80").storedKey epoch client 80 0 =
      some (some "2.2.2.2:80") := by decide
  have hget : ∃ p, (servedBy "1.1.1.1:80").proxies.get "1.1.1.1:80" = some p ∧
      p.key = "1.1.1.1:80" ∧ (servedBy "2.2.2.2:80").proxies.get "2.2.2.2:80" ≠ some p := by
    exact ⟨_, rfl, by decide, by decide⟩
  obtain ⟨p, hp, hkey, hne⟩ := hget
  refine ⟨rfl, run_history, ⟨rfl, rfl⟩, p, hkey, fun later laterNow => ⟨?_, fun hgiven => ?_⟩⟩
  · rw [mem_given, hfirst]
    exact Or.inl hp
  · rcases mem_given.mp hgiven with hlead | ⟨hwait, -⟩
    · rw [hsecond] at hlead
      exact hne hlead
    · have hempty := (mustWait_iff.mp hwait).2
      rw [hsecond] at hempty
      have hin : ∃ q, (servedBy "2.2.2.2:80").proxies.get "2.2.2.2:80" = some q := ⟨_, rfl⟩
      obtain ⟨q, hq⟩ := hin
      exact Set.eq_empty_iff_forall_notMem.mp hempty q hq

end SharedState

end VpnGateway
