import VpnGateway.Proxy.Transparent

/-! An attempt whose session key has gone stale: the key is looked up in the session table, and
its record in the pool at a later moment, between which other tasks may run. -/
namespace VpnGateway

namespace SharedState

variable {lookup s : SharedState} {lookupNow now : Clock} {peer : SocketAddr}
  {targetPort : UInt16} {attempt : ℕ} {key : String}

/-- What an attempt gets in `s` after the session table was read in `lookup`; an inner `none`
sends it to wait for the pool. -/
def selectionAfter (lookup : SharedState) (lookupNow : Clock) (s : SharedState) (c : s.Choice)
    (peer : SocketAddr) (targetPort : UInt16) (attempt : ℕ) : Option (Option Proxy) :=
  (lookup.storedKey lookupNow peer targetPort attempt).map fun
    | some key => s.proxies.get key
    | none => s.freshSelection c targetPort

/-- With nothing in between this is the attempt's choice. -/
theorem selectionAfter_self (c : s.Choice) :
    selectionAfter s c.now s c peer targetPort attempt =
      s.attemptChoice c peer targetPort attempt := rfl

/-- Selection comes out empty only where a fresh one does, and a stale key counts as none. -/
structure FallsBack (lookup : SharedState) (lookupNow : Clock) (s : SharedState) (now : Clock)
    (peer : SocketAddr) (targetPort : UInt16) (attempt : ℕ) : Prop where
  empty_only : ∀ c : s.Choice, c.now = now →
    selectionAfter lookup lookupNow s c peer targetPort attempt = some none →
    ∀ c' : s.Choice, c'.now = now → s.freshSelection c' targetPort = none
  stale_fresh : ∀ key, lookup.storedKey lookupNow peer targetPort attempt = some (some key) →
    key ∉ s.proxies → ∀ c : s.Choice, c.now = now → ∃ c' : s.Choice, c'.now = now ∧
      selectionAfter lookup lookupNow s c peer targetPort attempt =
        some (s.freshSelection c' targetPort)

/-- Where a key can come from: the first attempt has one that was in the pool at the lookup,
the second has the backup key unseen, and the third has none. -/
theorem storedKey_cases (h : s.storedKey now peer targetPort attempt = some (some key)) :
    attempt = 0 ∧ key ∈ s.proxies ∨
      attempt = 1 ∧ s.stickySessions.getBackup peer = some key := by
  unfold storedKey at h
  split_ifs at h with h0 h1
  · left
    obtain ⟨r, -, hr⟩ := Option.map_eq_some_iff.mp h
    obtain ⟨p, hp, -⟩ := (Option.any_eq_true _ _).mp (Option.filter_eq_some_iff.mp hr).2
    exact ⟨h0, FinMap.mem_of_get hp⟩
  · exact Or.inr ⟨h1, Option.some.inj h⟩
  · cases h

theorem selectionAfter_stale (hkey : lookup.storedKey lookupNow peer targetPort attempt =
      some (some key)) (hout : key ∉ s.proxies) (c : s.Choice) :
    selectionAfter lookup lookupNow s c peer targetPort attempt = some none := by
  rw [selectionAfter, hkey, Option.map_some]
  exact congrArg some (FinMap.notMem_iff.mp hout)

/-- An attempt falls back exactly when the key it found is still in the pool, if it found one,
or when nothing in the pool could be selected anyway. -/
theorem fallsBack_iff (lookup : SharedState) (lookupNow : Clock) (s : SharedState) (now : Clock)
    (peer : SocketAddr) (targetPort : UInt16) (attempt : ℕ) :
    FallsBack lookup lookupNow s now peer targetPort attempt ↔
      (∀ key, lookup.storedKey lookupNow peer targetPort attempt = some (some key) →
        key ∈ s.proxies) ∨
      ∀ k p, s.proxies.get k = some p → ¬ s.isCandidate now p := by
  constructor
  · rintro ⟨hempty, -⟩
    by_contra hcond
    push Not at hcond
    obtain ⟨⟨key, hkey, hout⟩, k, p, hp, hcand⟩ := hcond
    obtain ⟨c, rfl⟩ := s.exists_choice now
    have hfresh := hempty c rfl (selectionAfter_stale hkey hout c) c rfl
    exact freshSelection_eq_none.mp hfresh k p hp hcand
  · rintro (hin | hnone)
    · refine ⟨?_, fun key hkey hout => absurd (hin key hkey) hout⟩
      rintro c rfl hsel c' hc'
      obtain ⟨stored, hstored, hget⟩ := Option.map_eq_some_iff.mp hsel
      cases stored with
      | some key =>
        exact absurd (hin key hstored) (FinMap.notMem_iff.mpr hget)
      | none =>
        rw [freshSelection_eq_none, hc']
        exact freshSelection_eq_none.mp hget
    · have hfresh : ∀ c : s.Choice, c.now = now → s.freshSelection c targetPort = none := by
        rintro c rfl
        exact freshSelection_eq_none.mpr hnone
      refine ⟨fun _ _ _ c' hc' => hfresh c' hc', fun key hkey hout c hc => ⟨c, hc, ?_⟩⟩
      rw [selectionAfter_stale hkey hout, hfresh c hc]

/-- A client that was moved from one proxy to another; the first one is banned, and the second
fails the first attempt of its next connection. -/
def bannedBackupRun : List Op :=
  [.addProxy ⟨"1.1.1.1", 80, none⟩, .addProxy ⟨"2.2.2.2", 80, none⟩,
    .recordSuccess "1.1.1.1:80" (.finite 100), .recordSuccess "2.2.2.2:80" (.finite 100),
    .setOrTouch client "1.1.1.1:80", .setOrTouch client "2.2.2.2:80",
    .banProxy "1.1.1.1:80", .recordFail "2.2.2.2:80"]

/-- After that history the first retry goes to wait, although a verified proxy is there. -/
theorem fallsBack_fails_after_ban : ∃ es s, es.map Event.op = bannedBackupRun ∧
    Runs.Run Step (withConfig 300 5000 []) es s ∧
    ¬ FallsBack s epoch s epoch client 80 1 := by
  have hs : ∃ s, applyAll epoch (withConfig 300 5000 []) bannedBackupRun = some s ∧
      s.storedKey epoch client 80 1 = some (some "1.1.1.1:80") ∧ "1.1.1.1:80" ∉ s.proxies ∧
      ∃ p, s.proxies.get "2.2.2.2:80" = some p ∧ s.isCandidate epoch p :=
    ⟨_, rfl, rfl, by decide, _, rfl, by decide⟩
  obtain ⟨s, hs, hkey, hout, p, hp, hcand⟩ := hs
  obtain ⟨es, hes, hrun⟩ := run_of_applyAll hs
  refine ⟨es, s, hes, hrun, ?_⟩
  rintro ⟨hempty, -⟩
  obtain ⟨c, hc⟩ := s.exists_choice epoch
  have hnone := hempty c hc (selectionAfter_stale hkey hout c) c hc
  exact freshSelection_eq_none.mp hnone "2.2.2.2:80" p hp (hc ▸ hcand)

end SharedState

end VpnGateway
