import VpnGateway.Services.LeaseRenewal

/-! The port mapping as the router has it while the net manager runs: whether it is there all the
time, given how far apart the passes of the loop are and how long a mapping call takes. -/
namespace VpnGateway.LeaseRenewal

open Runs

/-- A mapping at the router, which the router drops when the lease is over. -/
structure Mapping where
  time : ℚ
  internalIp : String

/-- A pass of the loop, with the times at which the router carries out its calls. -/
structure Pass where
  poll : Poll
  mapAt : ℚ
  renewAt : ℚ

/-- The net manager and the mappings that the router has carried out, the last one first. -/
structure World where
  main : MainState
  mappings : List Mapping
  /-- The clock as the last pass reads it for the renewal. -/
  checkedAt : ℚ
  /-- The clock as the last pass reads it last. -/
  finish : ℚ

namespace World

/-- `main` up to the loop, where the first mapping is carried out at the time `mapAt`. -/
def start (lanIp : String) (wanIp : Option String) (mapAt time : ℚ) : World where
  main := .startup true lanIp wanIp true time
  mappings := [⟨mapAt, lanIp⟩]
  checkedAt := time
  finish := time

/-- A call that succeeds takes the place of the mapping that is there. -/
def pass (c : Config) (w : World) (p : Pass) : World :=
  let lanIp := MainState.newLanIp c p.poll
  let mapped := if w.main.Changed c p.poll ∧ p.poll.mapped = true then
    ⟨p.mapAt, lanIp⟩ :: w.mappings else w.mappings
  { main := w.main.poll c true p.poll
    mappings := if w.main.RenewalDue c p.poll ∧ p.poll.renewed = true then
      ⟨p.renewAt, lanIp⟩ :: mapped else mapped
    checkedAt := p.poll.now
    finish := if w.main.RenewalDue c p.poll then p.poll.afterRenewal else p.poll.now }

/-- The mapping calls of the pass succeed; it looks at the renewal clock at most `gap` after the
last pass did, and its calls take at most `delay`. -/
structure Paced (c : Config) (gap delay : ℚ) (w : World) (p : Pass) : Prop where
  calls : w.main.CallsSucceed c p.poll
  order : w.finish ≤ p.poll.now
  gap : p.poll.now ≤ w.checkedAt + gap
  mapping : w.main.Changed c p.poll → w.finish ≤ p.mapAt ∧ p.mapAt ≤ p.poll.afterChange ∧
    p.poll.afterChange ≤ p.mapAt + delay ∧ p.poll.afterChange ≤ p.poll.now
  renewal : w.main.RenewalDue c p.poll → p.poll.now ≤ p.renewAt ∧
    p.renewAt ≤ p.poll.afterRenewal ∧ p.poll.afterRenewal ≤ p.poll.now + delay

def Step (c : Config) (gap delay : ℚ) (w : World) (p : Pass) (w' : World) : Prop :=
  w.Paced c gap delay p ∧ w.pass c p = w'

/-- The mapping that the router has at a time, unless its lease is over. -/
def inForce (mappings : List Mapping) (t : ℚ) : Option Mapping :=
  mappings.find? fun m => m.time ≤ t

/-- The router forwards the port at that time. -/
def Forwards (c : Config) (mappings : List Mapping) (t : ℚ) : Prop :=
  ∃ m, inForce mappings t = some m ∧ t < m.time + c.upnpLeaseDuration

variable {c : Config} {gap delay : ℚ} {w w' : World} {p : Pass} {ps : List Pass}

theorem forwards_of_le {m : Mapping} {rest : List Mapping} {t : ℚ} (hm : m.time ≤ t)
    (ht : t < m.time + c.upnpLeaseDuration) : Forwards c (m :: rest) t :=
  ⟨m, List.find?_cons_of_pos (by simpa using hm), ht⟩

theorem forwards_of_lt {m : Mapping} {rest : List Mapping} {t : ℚ} (hm : t < m.time)
    (ht : Forwards c rest t) : Forwards c (m :: rest) t := by
  obtain ⟨m', hm', hlt⟩ := ht
  refine ⟨m', ?_, hlt⟩
  rw [inForce, List.find?_cons_of_neg (by simpa using hm)]
  exact hm'

/-- What holds between the passes: the last mapping is that of the address in use, and the renewal
clock runs from at most `delay` behind it. -/
structure Inv (c : Config) (delay : ℚ) (w : World) : Prop where
  last : ∃ m rest, w.mappings = m :: rest ∧ m.internalIp = w.main.lanIp ∧
    m.time ≤ w.main.lastLeaseTime ∧ w.main.lastLeaseTime ≤ m.time + delay
  past : ∀ m ∈ w.mappings, m.time ≤ w.finish
  clock : w.main.lastLeaseTime ≤ w.finish
  order : w.checkedAt ≤ w.finish
  young : w.checkedAt ≤ w.main.lastLeaseTime ∨
    w.checkedAt < w.main.lastLeaseTime + c.leaseRenewThreshold

theorem leaseRenewThreshold_nonneg (h : 0 < c.upnpLeaseDuration) :
    (0 : ℚ) ≤ c.leaseRenewThreshold := by
  rw [Int.cast_nonneg_iff, Config.leaseRenewThreshold]
  exact (Int.fdiv_nonneg h.le (by decide)).trans (le_max_right _ _)

theorem lanIp_poll (c : Config) (s : MainState) (p : Poll) :
    (s.poll c true p).lanIp = MainState.newLanIp c p := by
  unfold MainState.poll MainState.checkAddresses
  dsimp only
  split_ifs <;> rfl

theorem lastLeaseTime_poll (c : Config) (s : MainState) (p : Poll) :
    (s.poll c true p).lastLeaseTime = if s.RenewalDue c p then p.afterRenewal else
      if s.Changed c p then p.afterChange else s.lastLeaseTime := by
  rw [← MainState.lastLeaseTime_checkAddresses]
  split_ifs with hdue
  · rw [MainState.poll_of_due hdue]
    rfl
  · rw [MainState.poll_of_not_due hdue]

/-- The mappings when the pass comes to its renewal. -/
def mapped (c : Config) (w : World) (p : Pass) : List Mapping :=
  if w.main.Changed c p.poll then ⟨p.mapAt, MainState.newLanIp c p.poll⟩ :: w.mappings
  else w.mappings

theorem Paced.mappings_pass (h : w.Paced c gap delay p) : (w.pass c p).mappings =
    if w.main.RenewalDue c p.poll then
      ⟨p.renewAt, MainState.newLanIp c p.poll⟩ :: w.mapped c p else w.mapped c p := by
  have hchanged : (w.main.Changed c p.poll ∧ p.poll.mapped = true) = w.main.Changed c p.poll :=
    propext ⟨And.left, fun hchanged => ⟨hchanged, h.calls.1 hchanged⟩⟩
  have hdue : (w.main.RenewalDue c p.poll ∧ p.poll.renewed = true) = w.main.RenewalDue c p.poll :=
    propext ⟨And.left, fun hdue => ⟨hdue, h.calls.2 hdue⟩⟩
  simp only [pass, mapped, hchanged, hdue]

theorem finish_pass (c : Config) (w : World) (p : Pass) : (w.pass c p).finish =
    if w.main.RenewalDue c p.poll then p.poll.afterRenewal else p.poll.now := rfl

theorem Paced.now_le_finish (h : w.Paced c gap delay p) : p.poll.now ≤ (w.pass c p).finish := by
  rw [finish_pass]
  split_ifs with hdue
  · obtain ⟨hnow, hrenew, -⟩ := h.renewal hdue
    exact hnow.trans hrenew
  · exact le_rfl

theorem Paced.past_mapped (h : w.Paced c gap delay p) (hw : ∀ m ∈ w.mappings, m.time ≤ w.finish) :
    ∀ m ∈ w.mapped c p, m.time ≤ p.poll.now := by
  have hold : ∀ m ∈ w.mappings, m.time ≤ p.poll.now := fun m hm => (hw m hm).trans h.order
  unfold mapped
  split_ifs with hchanged
  · obtain ⟨-, hmap, -, hnow⟩ := h.mapping hchanged
    exact List.forall_mem_cons.mpr ⟨hmap.trans hnow, hold⟩
  · exact hold

theorem Inv.step (hw : w.Inv c delay) (h : w.Step c gap delay p w') : w'.Inv c delay := by
  obtain ⟨hpaced, rfl⟩ := h
  obtain ⟨m, rest, hm, hip, htime, hlast⟩ := hw.last
  have hpast := hpaced.past_mapped hw.past
  have hmappings := hpaced.mappings_pass
  have hfinish := finish_pass c w p
  have hclock : (w.pass c p).main.lastLeaseTime = if w.main.RenewalDue c p.poll then
      p.poll.afterRenewal else
        if w.main.Changed c p.poll then p.poll.afterChange else w.main.lastLeaseTime :=
    lastLeaseTime_poll c w.main p.poll
  have hlanIp : (w.pass c p).main.lanIp = MainState.newLanIp c p.poll := lanIp_poll c w.main p.poll
  by_cases hdue : w.main.RenewalDue c p.poll
  · obtain ⟨hnow, hrenew, hafter⟩ := hpaced.renewal hdue
    rw [if_pos hdue] at hmappings hfinish hclock
    constructor
    case last =>
      refine ⟨_, _, hmappings, hlanIp.symm, ?_, ?_⟩ <;> rw [hclock]
      · exact hrenew
      · dsimp only
        linarith
    case past =>
      rw [hmappings, hfinish]
      exact List.forall_mem_cons.mpr ⟨hrenew, fun m hm => (hpast m hm).trans (hnow.trans hrenew)⟩
    case clock => rw [hclock, hfinish]
    case order => exact hpaced.now_le_finish
    case young =>
      rw [hclock]
      exact .inl (hnow.trans hrenew)
  · rw [if_neg hdue] at hmappings hfinish hclock
    constructor
    case last =>
      rw [hmappings, hclock, hlanIp, mapped]
      split_ifs with hchanged
      · obtain ⟨-, hmap, hreturn, -⟩ := hpaced.mapping hchanged
        exact ⟨_, _, rfl, rfl, hmap, hreturn⟩
      · rw [MainState.Changed, not_or, not_not, not_not] at hchanged
        exact ⟨m, rest, hm, hip.trans hchanged.1.symm, htime, hlast⟩
    case past =>
      rw [hmappings, hfinish]
      exact hpast
    case clock =>
      rw [hclock, hfinish]
      split_ifs with hchanged
      · exact (hpaced.mapping hchanged).2.2.2
      · exact hw.clock.trans hpaced.order
    case order => exact hpaced.now_le_finish
    case young =>
      rw [MainState.RenewalDue, not_le] at hdue
      rw [hclock]
      exact .inr (by dsimp only [pass]; linarith)

theorem inv_start {lanIp : String} {wanIp : Option String} {mapAt time : ℚ}
    (hmap : mapAt ≤ time) (htime : time ≤ mapAt + delay) :
    (start lanIp wanIp mapAt time).Inv c delay where
  last := ⟨_, _, rfl, rfl, hmap, htime⟩
  past := List.forall_mem_singleton.mpr hmap
  clock := le_rfl
  order := le_rfl
  young := .inl le_rfl

/-- Once the net manager is gone, the router drops the mapping after a lease at the latest. -/
theorem Inv.not_forwards (hw : w.Inv c delay) {t : ℚ} (ht : w.finish + c.upnpLeaseDuration ≤ t) :
    ¬ Forwards c w.mappings t := by
  rintro ⟨m, hm, hlt⟩
  have hpast := hw.past m (List.mem_of_find?_eq_some hm)
  linarith

section Forwards

variable {first : ℚ}

/-- The router forwards the port from the first mapping up to the end of the last pass. -/
def Covered (c : Config) (first : ℚ) (w : World) : Prop :=
  ∀ t, first ≤ t → t ≤ w.finish → Forwards c w.mappings t

theorem Inv.forwards_of (hw : w.Inv c delay) (hcovered : w.Covered c first) {m : Mapping}
    {rest : List Mapping} (hm : w.mappings = m :: rest) (htime : m.time ≤ w.main.lastLeaseTime)
    {t : ℚ} (hfirst : first ≤ t) (ht : t < m.time + c.upnpLeaseDuration) :
    Forwards c w.mappings t := by
  rcases le_or_gt t w.finish with hle | hlt
  · exact hcovered t hfirst hle
  · rw [hm]
    exact forwards_of_le (htime.trans (hw.clock.trans hlt.le)) ht

/-- Until the pass comes to its renewal, the lease is not over. -/
theorem Inv.forwards_mapped (hw : w.Inv c delay) (hcovered : w.Covered c first)
    (hlease : 0 < c.upnpLeaseDuration) (hgap : 0 < gap) (hdelay : 0 ≤ delay)
    (hfit : c.leaseRenewThreshold + gap + 2 * delay ≤ c.upnpLeaseDuration)
    (h : w.Paced c gap delay p) {t : ℚ} (hfirst : first ≤ t)
    (ht : if w.main.RenewalDue c p.poll then t < p.renewAt else t ≤ p.poll.now) :
    Forwards c (w.mapped c p) t := by
  obtain ⟨m, rest, hm, -, htime, hlast⟩ := hw.last
  have hthreshold := leaseRenewThreshold_nonneg hlease
  have hgap' := h.gap
  have horder := hw.order
  have hchecked : w.checkedAt ≤ w.main.lastLeaseTime + c.leaseRenewThreshold :=
    hw.young.elim (fun hyoung => by linarith) le_of_lt
  have hbound : t ≤ p.poll.now + delay := by
    split_ifs at ht with hdue
    · obtain ⟨-, hrenew, hafter⟩ := h.renewal hdue
      linarith
    · linarith
  unfold mapped
  split_ifs with hchanged
  · obtain ⟨hstart, hmap, hreturn, hnow⟩ := h.mapping hchanged
    rcases lt_or_ge t p.mapAt with hlt | hge
    · exact forwards_of_lt hlt (hw.forwards_of hcovered hm htime hfirst (by linarith))
    · refine forwards_of_le hge ?_
      dsimp only
      split_ifs at ht with hdue
      · obtain ⟨-, hrenew, hafter⟩ := h.renewal hdue
        linarith
      · rw [MainState.RenewalDue, if_pos hchanged, not_le] at hdue
        linarith
  · refine hw.forwards_of hcovered hm htime hfirst ?_
    split_ifs at ht with hdue
    · obtain ⟨-, hrenew, hafter⟩ := h.renewal hdue
      linarith
    · rw [MainState.RenewalDue, if_neg hchanged, not_le] at hdue
      linarith

theorem Covered.step (hcovered : w.Covered c first) (hw : w.Inv c delay)
    (hlease : 0 < c.upnpLeaseDuration) (hgap : 0 < gap) (hdelay : 0 ≤ delay)
    (hfit : c.leaseRenewThreshold + gap + 2 * delay ≤ c.upnpLeaseDuration)
    (h : w.Step c gap delay p w') : w'.Covered c first := by
  obtain ⟨hpaced, rfl⟩ := h
  intro t hfirst ht
  have hthreshold := leaseRenewThreshold_nonneg hlease
  have hmapped := hw.forwards_mapped hcovered hlease hgap hdelay hfit hpaced hfirst
  rw [finish_pass] at ht
  rw [hpaced.mappings_pass]
  split_ifs at ht hmapped ⊢ with hdue
  · obtain ⟨-, -, hafter⟩ := hpaced.renewal hdue
    rcases lt_or_ge t p.renewAt with hlt | hge
    · exact forwards_of_lt hlt (hmapped hlt)
    · refine forwards_of_le hge ?_
      obtain ⟨hnow, -⟩ := hpaced.renewal hdue
      dsimp only
      linarith
  · exact hmapped ht

theorem covered_start {lanIp : String} {wanIp : Option String} {mapAt time : ℚ}
    (htime : time ≤ mapAt + delay) (hgap : 0 < gap) (hdelay : 0 ≤ delay)
    (hlease : 0 < c.upnpLeaseDuration)
    (hfit : c.leaseRenewThreshold + gap + 2 * delay ≤ c.upnpLeaseDuration) :
    (start lanIp wanIp mapAt time).Covered c mapAt := by
  intro t hfirst ht
  have hthreshold := leaseRenewThreshold_nonneg hlease
  have ht' : t ≤ time := ht
  refine forwards_of_le hfirst ?_
  dsimp only
  linarith

end Forwards

/-! The slowest run: each mapping is carried out at once and returns late, and the renewal is
carried out late. -/

/-- A pass that finds the addresses as they were. -/
def quietPass (c : Config) (now renewAt : ℚ) : Pass :=
  ⟨⟨c.dockerHostIp, none, true, now, now, true, renewAt⟩, now, renewAt⟩

/-- Since the start, nothing was due up to this time. -/
structure Quiet (c : Config) (delay now : ℚ) (w : World) : Prop where
  mappings : w.mappings = [⟨0, c.dockerHostIp⟩]
  lanIp : w.main.lanIp = c.dockerHostIp
  wanIp : w.main.wanIp = none
  lastLeaseTime : w.main.lastLeaseTime = delay
  checkedAt : w.checkedAt = now
  finish : w.finish = now

variable {now next : ℚ}

theorem newLanIp_quietPass (c : Config) (now renewAt : ℚ) :
    MainState.newLanIp c (quietPass c now renewAt).poll = c.dockerHostIp := ite_self _

theorem Quiet.not_changed (hw : w.Quiet c delay now) (next renewAt : ℚ) :
    ¬ w.main.Changed c (quietPass c next renewAt).poll := by
  rw [MainState.Changed, newLanIp_quietPass, hw.lanIp, hw.wanIp]
  simp [quietPass]

theorem Quiet.renewalDue_iff (hw : w.Quiet c delay now) (next renewAt : ℚ) :
    w.main.RenewalDue c (quietPass c next renewAt).poll ↔
      c.leaseRenewThreshold ≤ next - delay := by
  rw [MainState.RenewalDue, if_neg (hw.not_changed next renewAt), hw.lastLeaseTime]
  rfl

theorem Quiet.paced (hw : w.Quiet c delay now) (hdelay : 0 ≤ delay) (hnext : now ≤ next)
    (hgap : next ≤ now + gap) : w.Paced c gap delay (quietPass c next (next + delay)) where
  calls := ⟨fun h => absurd h (hw.not_changed _ _), fun _ => rfl⟩
  order := hw.finish.le.trans hnext
  gap := by
    rw [hw.checkedAt]
    exact hgap
  mapping h := absurd h (hw.not_changed _ _)
  renewal _ := ⟨le_add_of_nonneg_right hdelay, le_rfl, le_rfl⟩

/-- A pass before the renewal is due. -/
theorem Quiet.step (hw : w.Quiet c delay now) (hdelay : 0 ≤ delay) (hnext : now ≤ next)
    (hgap : next ≤ now + gap) (hnot : next - delay < c.leaseRenewThreshold) :
    ∃ p w', w.Step c gap delay p w' ∧ w'.Quiet c delay next := by
  have hpaced := hw.paced hdelay hnext hgap
  have hdue : ¬ w.main.RenewalDue c (quietPass c next (next + delay)).poll := fun h =>
    absurd ((hw.renewalDue_iff _ _).mp h) (not_le.mpr hnot)
  have hchanged := hw.not_changed next (next + delay)
  refine ⟨_, _, ⟨hpaced, rfl⟩, ?_⟩
  constructor
  case mappings => rw [hpaced.mappings_pass, if_neg hdue, mapped, if_neg hchanged, hw.mappings]
  case lanIp => rw [pass, lanIp_poll, newLanIp_quietPass]
  case wanIp =>
    rw [pass, MainState.poll_of_not_due hdue, MainState.checkAddresses_of_not_changed hchanged]
    rfl
  case lastLeaseTime =>
    rw [pass, lastLeaseTime_poll, if_neg hdue, if_neg hchanged, hw.lastLeaseTime]
  case checkedAt => rfl
  case finish => exact if_neg hdue

theorem exists_quiet_run (hdelay : 0 ≤ delay) {pause : ℚ} (hpause : 0 ≤ pause) (hgap : pause ≤ gap)
    (n : ℕ) (hnot : n * pause < c.leaseRenewThreshold) :
    ∃ ps w, Run (Step c gap delay) (start c.dockerHostIp none 0 delay) ps w ∧
      w.Quiet c delay (delay + n * pause) := by
  induction n with
  | zero => exact ⟨[], _, .nil _, rfl, rfl, rfl, rfl, by simp [start], by simp [start]⟩
  | succ n ih =>
    push_cast at hnot
    obtain ⟨ps, w, hrun, hw⟩ := ih (by linarith)
    obtain ⟨p, w', hstep, hw'⟩ : ∃ p w', w.Step c gap delay p w' ∧
        w'.Quiet c delay (delay + (n + 1 : ℕ) * pause) := by
      refine hw.step hdelay ?_ ?_ ?_ <;> push_cast <;> linarith
    exact ⟨ps ++ [p], w', hrun.snoc hstep, hw'⟩

/-- As late before the renewal as one likes. -/
theorem exists_quiet (hdelay : 0 ≤ delay) (hgap : 0 < gap) {wait : ℚ} (hwait : 0 ≤ wait)
    (hnot : wait < c.leaseRenewThreshold ∨ wait = 0) :
    ∃ ps w, Run (Step c gap delay) (start c.dockerHostIp none 0 delay) ps w ∧
      w.Quiet c delay (delay + wait) := by
  rcases hnot with hnot | rfl
  · obtain ⟨n, hn⟩ := exists_nat_ge (wait / gap)
    have hpos : (0 : ℚ) < n + 1 := by positivity
    have hle : wait ≤ (n + 1) * gap := by
      rw [div_le_iff₀ hgap] at hn
      linarith
    have hsum : ((n + 1 : ℕ) : ℚ) * (wait / (n + 1)) = wait := by
      push_cast
      field_simp
    rw [← hsum]
    exact exists_quiet_run hdelay (div_nonneg hwait hpos.le) ((div_le_iff₀ hpos).mpr (by linarith))
      (n + 1) (hsum.trans_lt hnot)
  · exact ⟨[], _, .nil _, rfl, rfl, rfl, rfl, (add_zero delay).symm, (add_zero delay).symm⟩

/-- Where passes may be too far apart, some run has the router drop the mapping. -/
theorem exists_gap (hlease : 0 < c.upnpLeaseDuration) (hgap : 0 < gap) (hdelay : 0 ≤ delay)
    (hlate : (c.upnpLeaseDuration : ℚ) < c.leaseRenewThreshold + gap + 2 * delay) :
    ∃ ps w t, Run (Step c gap delay) (start c.dockerHostIp none 0 delay) ps w ∧
      0 ≤ t ∧ t ≤ w.finish ∧ ¬ Forwards c w.mappings t := by
  have hthreshold := leaseRenewThreshold_nonneg hlease
  obtain ⟨wait, hwait, hnot, hdue, hover⟩ : ∃ wait : ℚ, 0 ≤ wait ∧
      (wait < c.leaseRenewThreshold ∨ wait = 0) ∧ c.leaseRenewThreshold ≤ wait + gap ∧
        c.upnpLeaseDuration < wait + gap + 2 * delay := by
    rcases hthreshold.eq_or_lt with hzero | hpos
    · exact ⟨0, le_rfl, .inr rfl, by linarith, by linarith⟩
    · obtain ⟨early, hearly, hlate', hgap', hpos'⟩ : ∃ early : ℚ, 0 < early ∧
          early < c.leaseRenewThreshold + gap + 2 * delay - c.upnpLeaseDuration ∧ early ≤ gap ∧
            early ≤ c.leaseRenewThreshold := by
        obtain ⟨early, hearly, hlt⟩ :=
          exists_between (lt_min (sub_pos.mpr hlate) (lt_min hgap hpos))
        obtain ⟨hlate', hrest⟩ := lt_min_iff.mp hlt
        obtain ⟨hgap', hpos'⟩ := lt_min_iff.mp hrest
        exact ⟨early, hearly, hlate', hgap'.le, hpos'.le⟩
      exact ⟨c.leaseRenewThreshold - early, by linarith, .inl (by linarith), by linarith,
        by linarith⟩
  obtain ⟨ps, w, hrun, hw⟩ : ∃ ps w,
      Run (Step c gap delay) (start c.dockerHostIp none 0 delay) ps w ∧
        w.Quiet c delay (delay + wait) := exists_quiet hdelay hgap hwait hnot
  set next := delay + wait + gap with hnext
  have hpaced : w.Paced c gap delay (quietPass c next (next + delay)) :=
    hw.paced hdelay (by linarith) le_rfl
  have hrenewal : w.main.RenewalDue c (quietPass c next (next + delay)).poll :=
    (hw.renewalDue_iff _ _).mpr (by linarith)
  have hmappings : (w.pass c (quietPass c next (next + delay))).mappings =
      [⟨next + delay, c.dockerHostIp⟩, ⟨0, c.dockerHostIp⟩] := by
    rw [hpaced.mappings_pass, if_pos hrenewal, mapped, if_neg (hw.not_changed _ _), hw.mappings,
      newLanIp_quietPass]
    rfl
  have hlease' : (0 : ℚ) < c.upnpLeaseDuration := Int.cast_pos.mpr hlease
  refine ⟨_, _, c.upnpLeaseDuration, hrun.snoc ⟨hpaced, rfl⟩, hlease'.le, ?_, ?_⟩
  · rw [show (w.pass c (quietPass c next (next + delay))).finish = next + delay from
      if_pos hrenewal]
    linarith
  · rw [hmappings]
    rintro ⟨m, hm, hlt⟩
    rw [inForce, List.find?_cons_of_neg (by simp only [decide_eq_true_eq, not_le]; linarith),
      List.find?_cons_of_pos (by simpa using hlease'.le)] at hm
    obtain rfl := Option.some.inj hm
    simp at hlt

end World

end VpnGateway.LeaseRenewal
