import VpnGateway.Pool.Operations
import VpnGateway.Pool.Selection

/-! How a client connection picks the upstream proxy of each attempt: the sticky key first,
the backup key on the first retry, a fresh selection otherwise, and after a wait for the pool
a selection without regard to TLS. -/
namespace VpnGateway

namespace SharedState

variable {s s' : SharedState} {now now' : Clock} {peer : SocketAddr} {targetPort : UInt16}
  {attempt : ℕ}

def isHttps (targetPort : UInt16) : Bool := targetPort = 443

/-- The sticky key, if its proxy is in the pool and, for HTTPS, clean; `none` where the
lookup panics. -/
def stickyKey (s : SharedState) (now : Clock) (peer : SocketAddr) (targetPort : UInt16) :
    Option (Option String) :=
  (s.stickySessions.get now peer).map fun (stickyKey, _) => stickyKey.filter fun key =>
    (s.proxies.get key).any fun p => !isHttps targetPort || p.tlsClean = some true

/-- The key from the session table that the attempt goes by, if any. -/
def storedKey (s : SharedState) (now : Clock) (peer : SocketAddr) (targetPort : UInt16)
    (attempt : ℕ) : Option (Option String) :=
  if attempt = 0 then s.stickyKey now peer targetPort
  else if attempt = 1 then some (s.stickySessions.getBackup peer)
  else some none

def freshSelection (s : SharedState) (c : s.Choice) (targetPort : UInt16) : Option Proxy :=
  if isHttps targetPort then s.selectBestForTls c else s.selectBest c

/-- The proxy an attempt starts with; an inner `none` sends it to wait for the pool. -/
def attemptChoice (s : SharedState) (c : s.Choice) (peer : SocketAddr) (targetPort : UInt16)
    (attempt : ℕ) : Option (Option Proxy) :=
  (s.storedKey c.now peer targetPort attempt).map fun
    | some key => s.proxies.get key
    | none => s.freshSelection c targetPort

/-- The proxy an attempt uses, with the moment of its choice: at once from `s`, or from `s'`
after the wait that an empty choice from `s` leads to. -/
inductive AttemptUses (peer : SocketAddr) (targetPort : UInt16) (attempt : ℕ) (s : SharedState)
    (now : Clock) (s' : SharedState) (now' : Clock) : SharedState → Clock → Proxy → Prop where
  | atOnce (c : s.Choice) (hc : c.now = now) (p : Proxy)
      (hp : s.attemptChoice c peer targetPort attempt = some (some p)) :
      AttemptUses peer targetPort attempt s now s' now' s now p
  | afterWait (c : s.Choice) (hc : c.now = now)
      (hempty : s.attemptChoice c peer targetPort attempt = some none)
      (c' : s'.Choice) (hc' : c'.now = now') (p : Proxy) (hp : s'.selectBest c' = some p) :
      AttemptUses peer targetPort attempt s now s' now' s' now' p

/-- The session key leads nowhere, or there is none and no tier admits a proxy. -/
def MustWait (s : SharedState) (now : Clock) (peer : SocketAddr) (targetPort : UInt16)
    (attempt : ℕ) : Prop :=
  (∃ key, s.storedKey now peer targetPort attempt = some (some key) ∧ key ∉ s.proxies) ∨
    s.storedKey now peer targetPort attempt = some none ∧
      ∀ k p, s.proxies.get k = some p → ¬ s.isCandidate now p

theorem freshSelection_spec {c : s.Choice} {p : Proxy}
    (h : s.freshSelection c targetPort = some p) :
    (∃ k, s.proxies.get k = some p) ∧ s.isCandidate c.now p := by
  unfold freshSelection at h
  split_ifs at h
  · exact selectBestForTls_spec h
  · have hr := selectBest_ranked h
    exact ⟨hr.stored, isCandidate_iff_status.mpr ⟨hr.available, hr.notExcluded, hr.selectable⟩⟩

theorem freshSelection_eq_none {c : s.Choice} :
    s.freshSelection c targetPort = none ↔
      ∀ k p, s.proxies.get k = some p → ¬ s.isCandidate c.now p := by
  unfold freshSelection
  split_ifs
  · rw [selectBestForTls_eq_none, selectBest_eq_none]
  · exact selectBest_eq_none

/-- In a small pool every verified, clean and usable proxy is the answer of some selection. -/
theorem exists_freshSelection_eq (targetPort : UInt16) {k : String} {p : Proxy}
    (hlen : s.proxies.len < 10) (hp : s.proxies.get k = some p) (hu : s.isUsable now p)
    (hst : p.status = some .verified) (htls : p.tlsClean = some true) :
    ∃ c : s.Choice, c.now = now ∧ s.freshSelection c targetPort = some p := by
  have hbetter : ∀ filter, s.better now filter p < 10 := fun filter =>
    (s.proxies.countP_le_len _).trans_lt hlen
  have hv : s.hasStatus now .verified p := hasStatus_iff.mpr ⟨hu, hst⟩
  by_cases h : isHttps targetPort
  · obtain ⟨c, rfl, hc⟩ := exists_selectTop_eq
      (fun p => s.hasStatus now .verified p && p.tlsClean = some true) hp
      (by simp [hu, hst, htls]) (hbetter _)
    exact ⟨c, rfl, by rw [freshSelection, if_pos h, selectBestForTls, hc, Option.some_or]⟩
  · obtain ⟨c, rfl, hc⟩ := exists_selectTop_eq (s.hasStatus now .verified) hp hv (hbetter _)
    exact ⟨c, rfl, by rw [freshSelection, if_neg h, selectBest, hc, Option.some_or]⟩

/-- An attempt starts with the record of its session key, or with a fresh selection. -/
theorem attemptChoice_eq_some {c : s.Choice} {p : Proxy} :
    s.attemptChoice c peer targetPort attempt = some (some p) ↔
      (∃ key, s.storedKey c.now peer targetPort attempt = some (some key) ∧
        s.proxies.get key = some p) ∨
      s.storedKey c.now peer targetPort attempt = some none ∧
        s.freshSelection c targetPort = some p := by
  unfold attemptChoice
  cases s.storedKey c.now peer targetPort attempt with
  | none => simp
  | some stored => cases stored <;> simp

theorem attemptChoice_eq_none {c : s.Choice} :
    s.attemptChoice c peer targetPort attempt = some none ↔
      s.MustWait c.now peer targetPort attempt := by
  unfold attemptChoice MustWait
  cases s.storedKey c.now peer targetPort attempt with
  | none => simp
  | some stored => cases stored <;> simp [freshSelection_eq_none, FinMap.notMem_iff]

/-- The sticky key of an attempt for HTTPS has a clean record. -/
theorem tlsClean_of_stickyKey {key : String} {p : Proxy}
    (h : s.stickyKey now peer 443 = some (some key)) (hp : s.proxies.get key = some p) :
    p.tlsClean = some true := by
  obtain ⟨r, -, hr⟩ := Option.map_eq_some_iff.mp h
  simpa [hp, isHttps] using (Option.filter_eq_some_iff.mp hr).2

def HasClean (s : SharedState) (now : Clock) : Prop :=
  ∃ k p, s.proxies.get k = some p ∧ s.isCleanUsable now p

/-- An HTTPS attempt goes through a clean proxy while one is usable exactly when the record of
its backup key is clean and, where it had to wait, so is every proxy that selection ranks. -/
theorem https_attempt_clean_iff (peer : SocketAddr) (attempt : ℕ) (s : SharedState) (now : Clock)
    (s' : SharedState) (now' : Clock) :
    (∀ t clock p, AttemptUses peer 443 attempt s now s' now' t clock p → t.HasClean clock →
      p.tlsClean = some true) ↔
    (attempt = 1 → s.HasClean now → ∀ backup p, s.stickySessions.getBackup peer = some backup →
      s.proxies.get backup = some p → p.tlsClean = some true) ∧
    (s.MustWait now peer 443 attempt → s'.HasClean now' → ∀ p, s'.Ranked now' p →
      p.tlsClean = some true) := by
  constructor
  · intro h
    refine ⟨?_, fun hwait hclean p hp => ?_⟩
    · rintro rfl hclean backup p hbackup hp
      obtain ⟨c, rfl⟩ := s.exists_choice now
      have huse : s.attemptChoice c peer 443 1 = some (some p) :=
        attemptChoice_eq_some.mpr (Or.inl ⟨backup, congrArg some hbackup, hp⟩)
      exact h s c.now p (.atOnce c rfl p huse) hclean
    · obtain ⟨c, rfl⟩ := s.exists_choice now
      obtain ⟨c', hc', hsel⟩ := hp.exists_selectBest_eq
      have hempty : s.attemptChoice c peer 443 attempt = some none :=
        attemptChoice_eq_none.mpr hwait
      exact h s' now' p (.afterWait c rfl hempty c' hc' p hsel) hclean
  · rintro ⟨hbackup, hwait⟩ t clock p huse hclean
    cases huse with
    | atOnce c hc p hp =>
      subst hc
      rcases attemptChoice_eq_some.mp hp with ⟨key, hkey, hget⟩ | ⟨-, hfresh⟩
      · unfold storedKey at hkey
        split_ifs at hkey with h0 h1
        · exact tlsClean_of_stickyKey hkey hget
        · exact hbackup h1 hclean key p (Option.some.inj hkey) hget
        · cases hkey
      · obtain ⟨k, q, hq, hcu⟩ := hclean
        exact selectBestForTls_clean hfresh hq hcu
    | afterWait c hc hempty c' hc' p hp =>
      subst hc hc'
      exact hwait (attemptChoice_eq_none.mp hempty) hclean p (selectBest_ranked hp)

/-! A client that was moved from one proxy to another, and what its next connection finds. -/

def client : SocketAddr := ⟨.v4 0xC0A80105, 50001⟩

def epoch : Clock := ⟨0, 0⟩

/-- Two proxies are added and probed; the client is served by the one that breaks TLS, over
plain HTTP, and then by the clean one. -/
def movedClientRun : List Op :=
  [.addProxy ⟨"1.1.1.1", 80, none⟩, .addProxy ⟨"2.2.2.2", 80, none⟩,
    .recordSuccess "1.1.1.1:80" (.finite 100), .setTlsClean "1.1.1.1:80" false,
    .recordSuccess "2.2.2.2:80" (.finite 100), .setTlsClean "2.2.2.2:80" true,
    .setOrTouch client "1.1.1.1:80", .setOrTouch client "2.2.2.2:80"]

/-- After that history the first retry of an HTTPS connection goes through the proxy that
breaks TLS, although the clean one is usable. -/
theorem https_retry_unclean : ∃ es s, es.map Event.op = movedClientRun ∧
    Runs.Run Step (withConfig 300 5000 []) es s ∧ s.HasClean epoch ∧
    ∃ p, AttemptUses client 443 1 s epoch s epoch s epoch p ∧ p.key = "1.1.1.1:80" ∧
      p.tlsClean = some false := by
  have hs : ∃ s, applyAll epoch (withConfig 300 5000 []) movedClientRun = some s := ⟨_, rfl⟩
  obtain ⟨s, hs⟩ := hs
  obtain ⟨es, hes, hrun⟩ := run_of_applyAll hs
  obtain rfl := Option.some.inj hs
  refine ⟨es, _, hes, hrun, ⟨"2.2.2.2:80", _, rfl, by decide⟩, ?_⟩
  obtain ⟨it⟩ := FinMap.Iteration.nonempty _
  exact ⟨_, .atOnce ⟨it, fun _ => none, epoch⟩ rfl _ rfl, by decide, by decide⟩

/-- Every attempt uses an available proxy of no excluded country exactly when the record of the
session key it goes by is one; a fresh selection always answers with one. -/
theorem attempt_usable_iff (peer : SocketAddr) (targetPort : UInt16) (attempt : ℕ)
    (s : SharedState) (now : Clock) (s' : SharedState) (now' : Clock) :
    (∀ t clock p, AttemptUses peer targetPort attempt s now s' now' t clock p →
      p.isAvailable clock ∧ t.isExcluded p = false) ↔
    ∀ key p, s.storedKey now peer targetPort attempt = some (some key) →
      s.proxies.get key = some p → p.isAvailable now ∧ s.isExcluded p = false := by
  constructor
  · intro h key p hkey hp
    obtain ⟨c, rfl⟩ := s.exists_choice now
    have huse : s.attemptChoice c peer targetPort attempt = some (some p) :=
      attemptChoice_eq_some.mpr (Or.inl ⟨key, hkey, hp⟩)
    exact h s c.now p (.atOnce c rfl p huse)
  · intro h t clock p huse
    cases huse with
    | atOnce c hc p hp =>
      subst hc
      rcases attemptChoice_eq_some.mp hp with ⟨key, hkey, hget⟩ | ⟨-, hfresh⟩
      · exact h key p hkey hget
      · exact isUsable_iff.mp (isCandidate_iff.mp (freshSelection_spec hfresh).2).1
    | afterWait c hc hempty c' hc' p hp =>
      subst hc'
      have hr := selectBest_ranked hp
      exact ⟨hr.available, hr.notExcluded⟩

/-- The proxy of a sticky client fails five times, turns out to be in a country that is then
excluded, and stays in the client's session. -/
def failedStickyRun : List Op :=
  [.addProxy ⟨"1.1.1.1", 80, none⟩, .recordSuccess "1.1.1.1:80" (.finite 100),
    .setOrTouch client "1.1.1.1:80", .recordFail "1.1.1.1:80", .recordFail "1.1.1.1:80",
    .recordFail "1.1.1.1:80", .recordFail "1.1.1.1:80", .recordFail "1.1.1.1:80",
    .geoipResult "1.1.1.1:80" "RU", .reloadConfig 300 ["RU"]]

/-- After that history the client's next connection still starts with that proxy. -/
theorem sticky_attempt_unusable : ∃ es s, es.map Event.op = failedStickyRun ∧
    Runs.Run Step (withConfig 300 5000 []) es s ∧
    ∃ p, AttemptUses client 80 0 s epoch s epoch s epoch p ∧ p.key = "1.1.1.1:80" ∧
      p.isAvailable epoch = false ∧ s.isExcluded p = true := by
  have hs : ∃ s, applyAll epoch (withConfig 300 5000 []) failedStickyRun = some s := ⟨_, rfl⟩
  obtain ⟨s, hs⟩ := hs
  obtain ⟨es, hes, hrun⟩ := run_of_applyAll hs
  obtain rfl := Option.some.inj hs
  refine ⟨es, _, hes, hrun, ?_⟩
  obtain ⟨it⟩ := FinMap.Iteration.nonempty _
  exact ⟨_, .atOnce ⟨it, fun _ => none, epoch⟩ rfl _ rfl, by decide, by decide, by decide⟩

end SharedState

end VpnGateway
