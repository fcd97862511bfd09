import VpnGateway.Pool.Operations

/-! When a verified proxy is due for its next check: the health check and client traffic write
the same timestamp. -/
namespace VpnGateway

/-- One operation on the pool, and whether the health check makes it: `fast_probe` with the result
of a completed `check_single`. Client connections record their outcomes with the same
operations. -/
structure Traffic where
  byCheck : Bool
  event : Event

namespace Traffic

/-- A three-stage check of the proxy has completed and its result is recorded. -/
def Completes (e : Traffic) (k : String) : Prop :=
  e.byCheck = true ∧ ((∃ latencyMs, e.event.op = .recordSuccess k latencyMs) ∨
    e.event.op = .recordFail k)

end Traffic

/-- Whether the update records how an attempt to use the proxy ended. -/
def Update.IsOutcome : Update → Prop
  | .recordSuccess _ => True
  | .recordFail => True
  | _ => False

namespace SharedState

/-- Records that enter the pool come from a source, from the state file or from the web API; none
of them is verified. -/
def Sourced (s : SharedState) (op : Op) : Prop :=
  ∀ p, s.Inserts p op → p.status ≠ some .verified

def TrafficStep (s : SharedState) (e : Traffic) (t : SharedState) : Prop :=
  s.Sourced e.event.op ∧ s.Step e.event t

/-- The outcome of a client connection leaves no proxy verified, unless the proxy was verified
and checked at the same instant. -/
def Undisturbed (s : SharedState) (e : Traffic) : Prop :=
  e.byCheck = false → ∀ k u p, e.event.op.update = some (k, u) → u.IsOutcome →
    s.proxies.get k = some p → (u.apply p e.event.now).status = some .verified →
    p.status = some .verified ∧ p.lastCheck = some e.event.now.utc

end SharedState

theorem lastCheck_recordFail (p : Proxy) (now : Clock) :
    (p.recordFail now).lastCheck = some now.utc := by
  obtain ⟨deadline, status, h⟩ := p.exists_recordFail now
  rw [h]
  rfl

/-- Every outcome moves the time of the last check, whoever records it. -/
theorem Update.IsOutcome.lastCheck {u : Update} (h : u.IsOutcome) (p : Proxy) (now : Clock) :
    (u.apply p now).lastCheck = some now.utc := by
  cases u with
  | recordSuccess latencyMs => rfl
  | recordFail => exact lastCheck_recordFail p now
  | _ => exact False.elim h

/-- The updates of an operation that are no outcomes move neither the status nor that time. -/
theorem Op.update_frame {op : Op} {k : String} {u : Update} (h : op.update = some (k, u))
    (hu : ¬u.IsOutcome) (p : Proxy) (now : Clock) :
    (u.apply p now).status = p.status ∧ (u.apply p now).lastCheck = p.lastCheck := by
  cases Op.updates h with
  | recordSuccess latencyMs | recordFail => exact absurd True.intro hu
  | setTlsClean clean | geoipResult country => exact ⟨rfl, rfl⟩

theorem Traffic.completes_of_outcome {e : Traffic} {k : String} {u : Update}
    (h : e.event.op.update = some (k, u)) (hu : u.IsOutcome) (hcheck : e.byCheck = true) :
    e.Completes k := by
  refine ⟨hcheck, ?_⟩
  obtain ⟨byCheck, now, op, reply⟩ := e
  cases Op.updates h with
  | recordSuccess latencyMs => exact Or.inl ⟨latencyMs, rfl⟩
  | recordFail => exact Or.inr rfl
  | setTlsClean clean | geoipResult country => exact False.elim hu

/-- The record is filed under its own key, and if it is verified, it carries the time of a
completed check. -/
structure FreshRecord (es : List Traffic) (k : String) (p : Proxy) : Prop where
  key : p.key = k
  checked : p.status = some .verified →
    ∃ e ∈ es, e.Completes k ∧ p.lastCheck = some e.event.now.utc

namespace FreshRecord

theorem mono {es : List Traffic} {k : String} {p : Proxy} (h : FreshRecord es k p)
    (more : List Traffic) : FreshRecord (es ++ more) k p := by
  refine ⟨h.key, fun hv => ?_⟩
  obtain ⟨e, he, hcompletes, hlast⟩ := h.checked hv
  exact ⟨e, List.mem_append_left more he, hcompletes, hlast⟩

/-- An update of a stored record, by a check or by traffic that meets the condition. -/
theorem update {s : SharedState} {es : List Traffic} {e : Traffic} {k : String} {u : Update}
    {p : Proxy} (hp : FreshRecord es k p) (hguard : s.Undisturbed e)
    (hop : e.event.op.update = some (k, u)) (hget : s.proxies.get k = some p) :
    FreshRecord (es ++ [e]) k (u.apply p e.event.now) := by
  refine ⟨(u.key_apply p e.event.now).trans hp.key, fun hv => ?_⟩
  have hmono := (hp.mono [e]).checked
  by_cases hu : u.IsOutcome
  · rw [hu.lastCheck]
    cases hcheck : e.byCheck with
    | true => exact ⟨e, by simp, Traffic.completes_of_outcome hop hu hcheck, rfl⟩
    | false =>
      obtain ⟨hverified, hlast⟩ := hguard hcheck k u p hop hu hget hv
      rw [← hlast]
      exact hmono hverified
  · obtain ⟨hstatus, hlast⟩ := Op.update_frame hop hu p e.event.now
    rw [hlast]
    exact hmono (hstatus ▸ hv)

end FreshRecord

namespace SharedState

/-- Whatever is stored, in the pool or banned, has a check to show for being verified. -/
structure Fresh (s : SharedState) (es : List Traffic) : Prop where
  live : ∀ k p, s.proxies.get k = some p → FreshRecord es k p
  banned : ∀ k p, s.banned.get k = some p → FreshRecord es k p

theorem Fresh.step {s t : SharedState} {es : List Traffic} {e : Traffic} (hs : s.Fresh es)
    (hguard : s.Undisturbed e) (h : s.TrafficStep e t) : t.Fresh (es ++ [e]) := by
  have hrecords := h.2.forall_records (P := fun k p => FreshRecord (es ++ [e]) k p)
    (fun k u p hop hget _ => (hs.live k p hget).update hguard hop hget)
    (fun p hp => ⟨rfl, fun hv => absurd hv (h.1 p hp)⟩)
    (fun k p hp => hp.key.symm ▸ hp)
    (fun k p hget => (hs.live k p hget).mono [e])
    (fun k p hget => (hs.banned k p hget).mono [e])
  exact ⟨hrecords.1, hrecords.2⟩

theorem Fresh.run {s t : SharedState} {es₀ es : List Traffic} (hs : s.Fresh es₀)
    (h : Runs.Run (Runs.Guarded TrafficStep Undisturbed) s es t) : t.Fresh (es₀ ++ es) := by
  induction h generalizing es₀ with
  | nil => rwa [List.append_nil]
  | cons head _ ih =>
    rw [List.append_cons]
    exact ih (hs.step head.1 head.2)

/-- Ages are compared in whole seconds, so that a check is old only after the 61st. -/
theorem needsCheck_of_age {p : Proxy} {now : Clock} {last : DateTime}
    (hverified : p.status = some .verified) (hlast : p.lastCheck = some last)
    {age : ℤ} (hage : now.utc - last = age) (hold : 61 * 1000000000 ≤ age) :
    needsCheck now p := by
  have hsecs : 60 < numSeconds (now.utc - last) := by
    rw [hage, numSeconds, Int.tdiv_eq_ediv_of_nonneg (by omega)]
    omega
  simp [needsCheck, hverified, hlast, hsecs]

def secondsIn (n : ℕ) : Clock := ⟨fromSecs n, fromSecs n⟩

def addedByHand : Traffic :=
  ⟨false, secondsIn 0, .addProxy ⟨"5.6.7.8", 3128, none⟩, some ⟨true, "Proxy 5.6.7.8:3128 added"⟩⟩

def checkedOnce : Traffic :=
  ⟨true, secondsIn 0, .recordSuccess "5.6.7.8:3128" (.finite 100), none⟩

def usedByClient : Traffic :=
  ⟨false, secondsIn 50, .recordSuccess "5.6.7.8:3128" (.finite 100), none⟩

def onceChecked : SharedState :=
  ((withConfig 300 5000 []).addProxy ⟨"5.6.7.8", 3128, none⟩).2.recordSuccess (secondsIn 0)
    "5.6.7.8:3128" (.finite 100)

theorem sourced_addedByHand (s : SharedState) : s.Sourced addedByHand.event.op := by
  rintro p ⟨rfl, -⟩
  decide

/-- The run of the addition and the check, in which no client takes part. -/
theorem run_onceChecked : Runs.Run (Runs.Guarded TrafficStep Undisturbed)
    (withConfig 300 5000 []) [addedByHand, checkedOnce] onceChecked := by
  have hadd : Undisturbed (withConfig 300 5000 []) addedByHand := fun _ k u p h => by cases h
  have hcheck : ∀ s, Undisturbed s checkedOnce := fun s h => by cases h
  exact .cons ⟨hadd, sourced_addedByHand _, rfl⟩ (.single ⟨hcheck _, fun _ h => False.elim h, rfl⟩)

end SharedState

end VpnGateway
