import VpnGateway.Proxy.Transparent

/-! The wait for a first proxy: a connection whose choice comes out empty registers on
`first_ready`, is woken or times out, and selects once more, while other tasks change the pool
and some of them signal. -/
namespace VpnGateway

namespace SharedState

/-- Whether some tier of the selection admits a proxy of the pool. -/
def hasCandidate (s : SharedState) (now : Clock) : Bool := 0 < s.proxies.countP (s.isCandidate now)

theorem hasCandidate_eq_false {s : SharedState} {now : Clock} :
    s.hasCandidate now = false ↔ ∀ k p, s.proxies.get k = some p → ¬ s.isCandidate now p := by
  simp only [hasCandidate, decide_eq_false_iff_not, not_lt, Nat.le_zero, FinMap.countP_eq_zero]

end SharedState

/-- What one step of the handler or of another task does. -/
inductive Act where
  | choose
  | register
  | timeout
  | reselect
  | op (op : Op)
  | notifyWaiters

/-! What the other tasks do to the pool, and which of them signal. -/
namespace Act

/-- A working proxy of a probe batch; only the first one found signals. -/
def probeFound (key : String) (latencyMs : F64) (tlsClean first : Bool) : List Act :=
  [.op (.recordSuccess key latencyMs), .op (.setTlsClean key tlsClean)] ++
    if first then [.notifyWaiters] else []

def probeDead (key : String) : List Act := [.op (.recordFail key)]

/-- A saved proxy that succeeded within the last hour. -/
def isRecent (now : Clock) (p : Proxy) : Bool :=
  p.lastSuccess.any fun t => numHours (now.utc - t) < 1

/-- The records of the state file are inserted; a signal follows if one is presumed alive. -/
def loadState (now : Clock) (proxies : List Proxy) : List Act :=
  (proxies.map fun p =>
      .op (.insertIfAbsent (if isRecent now p then p.markPresumedAlive else p))) ++
    if proxies.any (isRecent now) then [.notifyWaiters] else []

def refreshSource (proxies : List Proxy) : List Act := proxies.map fun p => .op (.insertIfAbsent p)

def addProxy (payload : AddProxyRequest) : List Act := [.op (.addProxy payload)]

def unbanProxy (proxyKey : String) : List Act := [.op (.unbanProxy proxyKey)]

end Act

/-- Where the handler is. `owed` is no part of the code: it records that since the registration
an operation has left a selectable proxy behind. -/
inductive Phase where
  | choosing
  | empty
  | registered (deadline : Instant) (owed : Bool)
  | woken
  | picked (proxy : Proxy)
  | abandoned

/-- The handler waits, or is about to. -/
def Phase.waits : Phase → Bool
  | .empty => true
  | .registered _ _ => true
  | _ => false

def Phase.afterOp (selectable : Bool) : Phase → Phase
  | .registered deadline owed => .registered deadline (owed || selectable)
  | phase => phase

/-- `notify_waiters` reaches a waiter that is registered, and no other. -/
def Phase.notified : Phase → Phase
  | .registered _ _ => .woken
  | phase => phase

structure Waiting where
  pool : SharedState
  now : Clock
  phase : Phase

namespace Waiting

/-- One step of the handler of `peer`, or of another task, at a time not before the last. -/
inductive Step (peer : SocketAddr) (targetPort : UInt16) (attempt : ℕ) :
    Waiting → Clock × Act → Waiting → Prop where
  | choose {w : Waiting} {now : Clock} (htime : w.now.instant ≤ now.instant)
      (hphase : w.phase = .choosing) (c : w.pool.Choice) (hc : c.now = now) (r : Option Proxy)
      (hr : w.pool.attemptChoice c peer targetPort attempt = some r) :
      Step peer targetPort attempt w (now, .choose)
        ⟨w.pool, now, r.elim .empty .picked⟩
  | register {w : Waiting} {now : Clock} (htime : w.now.instant ≤ now.instant)
      (hphase : w.phase = .empty) :
      Step peer targetPort attempt w (now, .register)
        ⟨w.pool, now, .registered (now.instant + fromSecs 10) false⟩
  | timeout {w : Waiting} {now : Clock} (htime : w.now.instant ≤ now.instant)
      (deadline : Instant) (owed : Bool) (hphase : w.phase = .registered deadline owed)
      (hdeadline : deadline ≤ now.instant) :
      Step peer targetPort attempt w (now, .timeout) ⟨w.pool, now, .abandoned⟩
  | reselect {w : Waiting} {now : Clock} (htime : w.now.instant ≤ now.instant)
      (hphase : w.phase = .woken) (c : w.pool.Choice) (hc : c.now = now) :
      Step peer targetPort attempt w (now, .reselect)
        ⟨w.pool, now, (w.pool.selectBest c).elim .abandoned .picked⟩
  | op {w : Waiting} {now : Clock} (htime : w.now.instant ≤ now.instant) (op : Op)
      (reply : Option ApiResponse) (pool : SharedState)
      (hop : w.pool.apply now op = some (reply, pool)) :
      Step peer targetPort attempt w (now, .op op)
        ⟨pool, now, w.phase.afterOp (pool.hasCandidate now)⟩
  | notifyWaiters {w : Waiting} {now : Clock} (htime : w.now.instant ≤ now.instant) :
      Step peer targetPort attempt w (now, .notifyWaiters) ⟨w.pool, now, w.phase.notified⟩

variable {peer : SocketAddr} {targetPort : UInt16} {attempt : ℕ}

/-- The conditions under which no wake-up is missed: a session key leads nowhere only when no
proxy is selectable, none becomes selectable before the registration or by the mere passing of
time, and one that becomes selectable later is signalled before the time is up. -/
def InTime (peer : SocketAddr) (targetPort : UInt16) (attempt : ℕ) (w : Waiting)
    (a : Clock × Act) : Prop :=
  (w.phase.waits → w.pool.hasCandidate w.now = false → w.pool.hasCandidate a.1 = false) ∧
  match a.2 with
  | .choose => w.pool.MustWait a.1 peer targetPort attempt → w.pool.hasCandidate a.1 = false
  | .op op => w.phase = .empty → ∀ reply pool, w.pool.apply a.1 op = some (reply, pool) →
      pool.hasCandidate a.1 = false
  | .timeout => ∀ deadline, w.phase ≠ .registered deadline true
  | _ => True

/-- While the handler waits and is owed no signal, there is nothing to select. -/
structure NothingMissed (w : Waiting) : Prop where
  empty : w.phase = .empty → w.pool.hasCandidate w.now = false
  registered : ∀ deadline, w.phase = .registered deadline false → w.pool.hasCandidate w.now = false

theorem NothingMissed.later {w : Waiting} {a : Clock × Act} (h : w.NothingMissed)
    (hg : InTime peer targetPort attempt w a) :
    (w.phase = .empty ∨ ∃ deadline, w.phase = .registered deadline false) →
      w.pool.hasCandidate a.1 = false := by
  rintro (hphase | ⟨deadline, hphase⟩)
  · exact hg.1 (by rw [hphase]; rfl) (h.empty hphase)
  · exact hg.1 (by rw [hphase]; rfl) (h.registered deadline hphase)

theorem NothingMissed.step {w w' : Waiting} {a : Clock × Act} (h : w.NothingMissed)
    (hs : Step peer targetPort attempt w a w') (hg : InTime peer targetPort attempt w a) :
    w'.NothingMissed := by
  have hlater := h.later hg
  cases hs with
  | choose htime hphase c hc r hr =>
    subst hc
    refine ⟨fun hempty => ?_, fun deadline hreg => ?_⟩
    · cases r with
      | none => exact hg.2 (SharedState.attemptChoice_eq_none.mp hr)
      | some p => cases hempty
    · cases r <;> cases hreg
  | register htime hphase =>
    exact ⟨nofun, fun _ _ => hlater (Or.inl hphase)⟩
  | timeout => exact ⟨nofun, nofun⟩
  | reselect htime hphase c hc =>
    cases hsel : w.pool.selectBest c with
    | none => exact ⟨nofun, nofun⟩
    | some p => exact ⟨nofun, nofun⟩
  | op htime op reply pool hop =>
    cases hphase : w.phase with
    | empty =>
      refine ⟨fun _ => hg.2 hphase reply pool hop, fun deadline hreg => ?_⟩
      simp [Phase.afterOp] at hreg
    | registered deadline owed =>
      refine ⟨fun hempty => ?_, fun deadline' hreg => ?_⟩
      · simp [Phase.afterOp] at hempty
      · simp only [Phase.afterOp, Phase.registered.injEq, Bool.or_eq_false_iff] at hreg
        exact hreg.2.2
    | _ => exact ⟨nofun, nofun⟩
  | notifyWaiters htime =>
    cases hphase : w.phase with
    | empty => exact ⟨fun _ => hlater (Or.inl hphase), nofun⟩
    | _ => exact ⟨nofun, nofun⟩

/-- In a run in time a connection is given up only in a state where selection finds nothing. -/
theorem abandoned_only_empty (peer : SocketAddr) (targetPort : UInt16) (attempt : ℕ)
    (pool : SharedState) (start : Clock) {acts : List (Clock × Act)} {w w' : Waiting}
    {now : Clock} {act : Act}
    (hrun : Runs.Run (Runs.Guarded (Step peer targetPort attempt) (InTime peer targetPort attempt))
      ⟨pool, start, .choosing⟩ acts w)
    (hstep : Runs.Guarded (Step peer targetPort attempt) (InTime peer targetPort attempt) w
      (now, act) w')
    (hbefore : w.phase ≠ .abandoned) (hafter : w'.phase = .abandoned) :
    ∀ c : w.pool.Choice, c.now = now → w.pool.selectBest c = none := by
  have hinit : NothingMissed ⟨pool, start, .choosing⟩ :=
    ⟨nofun, nofun⟩
  have hw := hrun.invariant (fun _ _ _ hi hs => hi.step hs.2 hs.1) hinit
  obtain ⟨hg, hs⟩ := hstep
  have hlater := hw.later hg
  intro c hc
  rw [SharedState.selectBest_eq_none, hc, ← SharedState.hasCandidate_eq_false]
  cases hs with
  | choose htime hphase c hc r hr => cases r <;> cases hafter
  | register => cases hafter
  | timeout htime deadline owed hphase _ =>
    cases owed with
    | true => exact absurd hphase (hg.2 deadline)
    | false => exact hlater (Or.inr ⟨deadline, hphase⟩)
  | reselect htime hphase c' hc' =>
    cases hsel : w.pool.selectBest c' with
    | none => rw [SharedState.hasCandidate_eq_false, ← hc', ← SharedState.selectBest_eq_none, hsel]
    | some p => rw [hsel] at hafter; cases hafter
  | op htime op reply pool hop => cases hphase : w.phase <;> simp_all [Phase.afterOp]
  | notifyWaiters htime => cases hphase : w.phase <;> simp_all [Phase.notified]

/-! A client that arrives at an empty pool. -/

def arrival : Waiting := ⟨.withConfig 300 5000 [], SharedState.epoch, .choosing⟩

def tenSecondsLater : Clock := ⟨fromSecs 10, 10000000000⟩

theorem arrival_chooses : Step SharedState.client 80 0 arrival (SharedState.epoch, .choose)
    { arrival with phase := .empty } := by
  obtain ⟨it⟩ := FinMap.Iteration.nonempty arrival.pool.proxies
  have hempty : ∀ k p, arrival.pool.proxies.get k = some p →
      ¬ arrival.pool.isCandidate SharedState.epoch p := by
    simp [arrival, SharedState.withConfig]
  refine .choose le_rfl rfl ⟨it, fun _ => none, SharedState.epoch⟩ rfl none ?_
  exact SharedState.attemptChoice_eq_none.mpr (Or.inr ⟨rfl, hempty⟩)

theorem arrival_hasCandidate (now : Clock) : arrival.pool.hasCandidate now = false :=
  SharedState.hasCandidate_eq_false.mpr (by simp [arrival, SharedState.withConfig])

theorem arrival_inTime (phase : Phase) (before now : Clock) {act : Act} (hop : ∀ op, act ≠ .op op)
    (hphase : ∀ deadline, phase ≠ .registered deadline true) :
    InTime SharedState.client 80 0 ⟨arrival.pool, before, phase⟩ (now, act) := by
  refine ⟨fun _ _ => arrival_hasCandidate now, ?_⟩
  cases act with
  | op op => exact absurd rfl (hop op)
  | timeout => exact hphase
  | choose => exact fun _ => arrival_hasCandidate now
  | _ => trivial

/-- The client of `arrival` once it has registered. -/
def registered : Waiting :=
  ⟨arrival.pool, SharedState.epoch, .registered (SharedState.epoch.instant + fromSecs 10) false⟩

theorem arrival_registers : Runs.Run
    (Runs.Guarded (Step SharedState.client 80 0) (InTime SharedState.client 80 0)) arrival
    [(SharedState.epoch, .choose), (SharedState.epoch, .register)] registered := by
  have hchoose : InTime SharedState.client 80 0 arrival (SharedState.epoch, .choose) :=
    arrival_inTime _ _ _ (by simp) (by simp)
  have hregister : InTime SharedState.client 80 0 { arrival with phase := .empty }
      (SharedState.epoch, .register) := arrival_inTime _ _ _ (by simp) (by simp)
  exact .cons ⟨hchoose, arrival_chooses⟩ (.single ⟨hregister, .register le_rfl rfl⟩)

/-- Nothing comes into the pool, and the client is given up after ten seconds. -/
theorem abandoned_arrival : ∃ c : registered.pool.Choice, c.now = tenSecondsLater ∧
    registered.pool.selectBest c = none := by
  have hguard : InTime SharedState.client 80 0 registered (tenSecondsLater, .timeout) :=
    arrival_inTime _ _ _ (by simp) (by simp)
  have htimeout : Step SharedState.client 80 0 registered (tenSecondsLater, .timeout)
      ⟨arrival.pool, tenSecondsLater, .abandoned⟩ :=
    .timeout (Nat.zero_le _) _ _ rfl (Nat.zero_add _).le
  obtain ⟨it⟩ := FinMap.Iteration.nonempty registered.pool.proxies
  exact ⟨⟨it, fun _ => none, tenSecondsLater⟩, rfl, abandoned_only_empty SharedState.client 80 0 _ _
    arrival_registers ⟨hguard, htimeout⟩ (by simp [registered]) rfl _ rfl⟩

/-- A probe finds a proxy and signals between the empty choice and the registration. -/
def lostSignalRun : List (Clock × Act) :=
  [(SharedState.epoch, .choose)] ++
    (Act.refreshSource [.new "1.1.1.1" 80 .http] ++
      Act.probeFound "1.1.1.1:80" (.finite 100) true true).map (SharedState.epoch, ·) ++
    [(SharedState.epoch, .register), (tenSecondsLater, .timeout)]

/-- A proxy is added by hand while the client waits; nothing signals. -/
def noSignalRun : List (Clock × Act) :=
  [(SharedState.epoch, .choose), (SharedState.epoch, .register)] ++
    (Act.addProxy ⟨"1.1.1.1", 80, none⟩).map (SharedState.epoch, ·) ++ [(tenSecondsLater, .timeout)]

theorem selects_of_get {s : SharedState} {k : String} {p : Proxy} (hp : s.proxies.get k = some p)
    (hclosed : p.circuitOpenUntil = none) (hexcl : s.isExcluded p = false)
    (hst : p.status = some .verified ∨ p.status = some .unchecked) (c : s.Choice) :
    ∃ q, s.selectBest c = some q := by
  refine (s.selectBest_spec c).1.mpr ⟨k, p, hp, Proxy.isAvailable_of_closed hclosed _, hexcl, ?_⟩
  rcases hst with hst | hst
  · exact Or.inl hst
  · exact Or.inr (Or.inr (Or.inl hst))

/-- In both runs the client is given up beside a proxy that selection would answer with. -/
theorem abandoned_beside_proxy :
    (∃ w, Runs.Run (Step SharedState.client 80 0) arrival lostSignalRun w ∧ w.phase = .abandoned ∧
      ∀ c : w.pool.Choice, ∃ p, w.pool.selectBest c = some p) ∧
    ∃ w, Runs.Run (Step SharedState.client 80 0) arrival noSignalRun w ∧ w.phase = .abandoned ∧
      ∀ c : w.pool.Choice, ∃ p, w.pool.selectBest c = some p := by
  constructor
  · refine ⟨_, .cons arrival_chooses (.cons (.op le_rfl _ _ _ rfl) (.cons (.op le_rfl _ _ _ rfl)
      (.cons (.op le_rfl _ _ _ rfl) (.cons (.notifyWaiters le_rfl) (.cons (.register le_rfl rfl)
        (.single (.timeout (Nat.zero_le _) _ _ rfl (Nat.zero_add _).le))))))), rfl, ?_⟩
    exact selects_of_get (k := "1.1.1.1:80") rfl rfl rfl (Or.inl rfl)
  · refine ⟨_, .cons arrival_chooses (.cons (.register le_rfl rfl) (.cons (.op le_rfl _ _ _ rfl)
      (.single (.timeout (Nat.zero_le _) _ _ rfl (Nat.zero_add _).le)))), rfl, ?_⟩
    exact selects_of_get (k := "1.1.1.1:80") rfl rfl rfl (Or.inr rfl)

end Waiting

end VpnGateway
