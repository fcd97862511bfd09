import VpnGateway.Core.Runs

/-! The main loop of the net manager: when it maps the port at the router again, and from which
mapping its renewal clock runs. -/
namespace VpnGateway.LeaseRenewal

open Runs

structure Config where
  dockerHostIp : String
  upnpLeaseDuration : ℤ

def Config.leaseRenewThreshold (c : Config) : ℤ :=
  max (c.upnpLeaseDuration - 120) (c.upnpLeaseDuration.fdiv 2)

/-- The variables of `main`, and a record of the mapping calls. -/
structure MainState where
  lanIp : String
  wanIp : Option String
  /-- Seconds of the monotonic clock. -/
  lastLeaseTime : ℚ
  /-- The results of `add_port_mapping` in the last pass of the loop. -/
  attempts : List Bool
  /-- The clock as it is first read after the last successful mapping. -/
  lastSuccess : Option ℚ
  /-- How often the renewal clock was set behind a mapping that failed. -/
  failedResets : ℕ

/-- What one pass of the loop learns: the addresses, the results of the mapping calls it may make
and its readings of the clock. -/
structure Poll where
  lanIp : String
  wanIp : Option String
  mapped : Bool
  afterChange : ℚ
  now : ℚ
  renewed : Bool
  afterRenewal : ℚ

namespace MainState

/-- `_ensure_port_mapping`, whose result is dropped, and the reading of the clock behind it. -/
def mapAndReset (s : MainState) (mapped : Bool) (time : ℚ) : MainState :=
  { s with
    lastLeaseTime := time
    attempts := s.attempts ++ [mapped]
    lastSuccess := if mapped then some time else s.lastSuccess
    failedResets := if mapped then s.failedResets else s.failedResets + 1 }

/-- The state in which `main` enters the loop. -/
def startup (available : Bool) (lanIp : String) (wanIp : Option String) (mapped : Bool)
    (time : ℚ) : MainState :=
  let s : MainState := ⟨lanIp, wanIp, time, [], none, 0⟩
  if available then s.mapAndReset mapped time else s

def newLanIp (c : Config) (p : Poll) : String :=
  if c.dockerHostIp ≠ "" then c.dockerHostIp else p.lanIp

/-- Whether the pass finds another address. -/
def Changed (c : Config) (s : MainState) (p : Poll) : Prop :=
  newLanIp c p ≠ s.lanIp ∨ p.wanIp ≠ s.wanIp

instance (c : Config) (s : MainState) (p : Poll) : Decidable (s.Changed c p) :=
  inferInstanceAs (Decidable (_ ∨ _))

/-- The pass up to the look at the renewal clock. -/
def checkAddresses (c : Config) (available : Bool) (s : MainState) (p : Poll) : MainState :=
  let seen := { s with lanIp := newLanIp c p, wanIp := p.wanIp, attempts := [] }
  if s.Changed c p then
    if available then seen.mapAndReset p.mapped p.afterChange
    else { seen with lastLeaseTime := p.afterChange }
  else seen

/-- One pass of the loop. -/
def poll (c : Config) (available : Bool) (s : MainState) (p : Poll) : MainState :=
  let s := s.checkAddresses c available p
  if available ∧ c.leaseRenewThreshold ≤ p.now - s.lastLeaseTime then
    s.mapAndReset p.renewed p.afterRenewal
  else s

def Step (c : Config) (available : Bool) (s : MainState) (p : Poll) (t : MainState) : Prop :=
  s.poll c available p = t

/-- The renewal clock was never set behind a mapping that failed. -/
def NeverFalselyReset (s : MainState) : Prop := s.failedResets = 0

/-- At the end of a pass the last successful mapping is younger than the threshold, or the pass has
called `add_port_mapping`. -/
def Renewed (c : Config) (s : MainState) (p : Poll) : Prop :=
  s.attempts ≠ [] ∨ ∃ time ∈ s.lastSuccess, p.now - time < c.leaseRenewThreshold

/-- Whether the pass comes to its renewal. -/
def RenewalDue (c : Config) (s : MainState) (p : Poll) : Prop :=
  c.leaseRenewThreshold ≤ p.now - (if s.Changed c p then p.afterChange else s.lastLeaseTime)

/-- The mapping calls of the pass succeed. -/
def CallsSucceed (c : Config) (s : MainState) (p : Poll) : Prop :=
  (s.Changed c p → p.mapped = true) ∧ (s.RenewalDue c p → p.renewed = true)

instance (s : MainState) : Decidable s.NeverFalselyReset := inferInstanceAs (Decidable (_ = _))

instance (c : Config) (s : MainState) (p : Poll) : Decidable (s.Renewed c p) :=
  inferInstanceAs (Decidable (_ ∨ _))

instance (c : Config) (s : MainState) (p : Poll) : Decidable (s.RenewalDue c p) :=
  inferInstanceAs (Decidable (_ ≤ _))

instance (c : Config) (s : MainState) (p : Poll) : Decidable (s.CallsSucceed c p) :=
  inferInstanceAs (Decidable (_ ∧ _))

variable {c : Config} {s t : MainState} {p : Poll} {ps : List Poll}

theorem failedResets_mapAndReset (s : MainState) (mapped : Bool) (time : ℚ) :
    (s.mapAndReset mapped time).failedResets = 0 ↔ s.failedResets = 0 ∧ mapped = true := by
  cases mapped <;> simp [mapAndReset]

/-- With UPnP, a change of address maps the port again. -/
theorem checkAddresses_of_changed (h : s.Changed c p) : s.checkAddresses c true p =
    { s with lanIp := newLanIp c p, wanIp := p.wanIp, attempts := [] }.mapAndReset
      p.mapped p.afterChange := by
  simp only [checkAddresses, if_pos h, if_true]

theorem checkAddresses_of_not_changed (h : ¬ s.Changed c p) (available : Bool) :
    s.checkAddresses c available p =
      { s with lanIp := newLanIp c p, wanIp := p.wanIp, attempts := [] } := by
  simp only [checkAddresses, if_neg h]

theorem lastLeaseTime_checkAddresses (c : Config) (s : MainState) (p : Poll) :
    (s.checkAddresses c true p).lastLeaseTime =
      if s.Changed c p then p.afterChange else s.lastLeaseTime := by
  split_ifs with hchanged
  · rw [checkAddresses_of_changed hchanged]
    rfl
  · rw [checkAddresses_of_not_changed hchanged]

theorem failedResets_checkAddresses (c : Config) (s : MainState) (p : Poll) :
    (s.checkAddresses c true p).failedResets = 0 ↔
      s.failedResets = 0 ∧ (s.Changed c p → p.mapped = true) := by
  by_cases hchanged : s.Changed c p
  · rw [checkAddresses_of_changed hchanged, failedResets_mapAndReset, forall_prop_of_true hchanged]
  · rw [checkAddresses_of_not_changed hchanged, forall_prop_of_false hchanged, and_true]

theorem poll_of_due (h : s.RenewalDue c p) : s.poll c true p =
    (s.checkAddresses c true p).mapAndReset p.renewed p.afterRenewal := by
  rw [RenewalDue, ← lastLeaseTime_checkAddresses] at h
  exact if_pos ⟨rfl, h⟩

theorem poll_of_not_due (h : ¬ s.RenewalDue c p) :
    s.poll c true p = s.checkAddresses c true p := by
  rw [RenewalDue, ← lastLeaseTime_checkAddresses] at h
  exact if_neg fun hdue => h hdue.2

/-- A pass resets the clock on no failure exactly if its mapping calls succeed. -/
theorem neverFalselyReset_poll (hs : s.NeverFalselyReset) :
    (s.poll c true p).NeverFalselyReset ↔ s.CallsSucceed c p := by
  have hcheck := failedResets_checkAddresses c s p
  rw [and_iff_right (show s.failedResets = 0 from hs)] at hcheck
  unfold NeverFalselyReset CallsSucceed
  by_cases hdue : s.RenewalDue c p
  · rw [poll_of_due hdue, failedResets_mapAndReset, hcheck, forall_prop_of_true hdue]
  · rw [poll_of_not_due hdue, hcheck, forall_prop_of_false hdue, and_true]

/-- The clock runs from the last successful mapping. -/
def ClockTrue (s : MainState) : Prop := s.lastSuccess = some s.lastLeaseTime

theorem clockTrue_mapAndReset (s : MainState) (time : ℚ) :
    (s.mapAndReset true time).ClockTrue := rfl

theorem clockTrue_checkAddresses (hs : s.ClockTrue) (hmapped : s.Changed c p → p.mapped = true) :
    (s.checkAddresses c true p).ClockTrue := by
  by_cases hchanged : s.Changed c p
  · rw [checkAddresses_of_changed hchanged, hmapped hchanged]
    exact clockTrue_mapAndReset _ _
  · rw [checkAddresses_of_not_changed hchanged]
    exact hs

/-- A pass whose calls succeed leaves the clock true and ends in time. -/
theorem poll_of_callsSucceed (hs : s.ClockTrue) (hcalls : s.CallsSucceed c p) :
    (s.poll c true p).ClockTrue ∧ (s.poll c true p).Renewed c p := by
  have hcheck := clockTrue_checkAddresses hs hcalls.1
  by_cases hdue : s.RenewalDue c p
  · rw [poll_of_due hdue, hcalls.2 hdue]
    exact ⟨clockTrue_mapAndReset _ _, Or.inl (by simp [mapAndReset])⟩
  · rw [poll_of_not_due hdue]
    rw [RenewalDue, ← lastLeaseTime_checkAddresses, not_le] at hdue
    exact ⟨hcheck, Or.inr ⟨_, hcheck, hdue⟩⟩

/-- The default lease of an hour, with addresses that the network tells. -/
def hourLease : Config := ⟨"", 3600⟩

/-- A pass that finds the addresses as they are at this time. -/
def quietPoll (now : ℚ) (renewed : Bool) : Poll :=
  ⟨"192.168.1.10", some "203.0.113.7", false, now, now, renewed, now + 1⟩

def mappedAtStart (mapped : Bool) : MainState :=
  startup true "192.168.1.10" (some "203.0.113.7") mapped 0

end MainState

end VpnGateway.LeaseRenewal
