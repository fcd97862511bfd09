import VpnGateway.Pool.CheckFuture
import VpnGateway.Pool.GeoIndex

/-! What a stored TLS verdict says about the check behind it. Stage 3 ends in one of several ways,
`check_tls_validity` makes a bool of them, and `fast_probe` writes it into the record. -/
namespace VpnGateway

open Futures

/-- What the TLS handshake failed on. -/
inductive TlsError where
  | invalidCertificate
  | other
  deriving DecidableEq

/-- How stage 3 ended. -/
inductive Stage3 where
  | unreachable
  | noTunnel
  | valid
  | badCertificate
  | tlsError
  | elapsed
  deriving DecidableEq

/-- A check that has come to its result: what its operations met, the last of them, and the error
of the TLS handshake where it is the one that failed. -/
structure FinishedCheck where
  proxy : Proxy
  latencyMs : ℕ
  behaviour : ℕ → Met
  error : TlsError
  count : ℕ
  last : Awaited
  result : CheckResult
  awaits : checkAfter proxy.protocol latencyMs behaviour count = .inl last
  ends : checkPoll proxy.protocol latencyMs last (behaviour count) = .inr result

namespace FinishedCheck

/-- `check_single`. -/
def checkSingle (c : FinishedCheck) : String × CheckResult := (c.proxy.key, c.result)

/-- How its stage 3 ended; `none` for a check that does not come to it. -/
def stage3 (c : FinishedCheck) : Option Stage3 :=
  match c.last with
  | .tcpConnect | .httpConnect | .httpStatus => none
  | .tlsConnect => some .unreachable
  | .tlsHandshake =>
    match c.behaviour c.count with
    | .done _ => some .valid
    | .failed _ =>
      match c.error with
      | .invalidCertificate => some .badCertificate
      | .other => some .tlsError
    | .elapsed => some .elapsed
  | _ => some .noTunnel

/-- The TLS handshake said something about the certificate. -/
def Conclusive (c : FinishedCheck) : Prop :=
  c.stage3 = some .valid ∨ c.stage3 = some .badCertificate

/-- The result of a check is the bool that its stage 3 came to, if it came to one. -/
theorem result_cases (c : FinishedCheck) :
    c.stage3 = none ∧ c.result = .dead ∨
    c.stage3 = some .valid ∧ c.result = .ok c.latencyMs ∨
    ∃ o, o ≠ .valid ∧ c.stage3 = some o ∧ c.result = .okNoTls c.latencyMs := by
  obtain ⟨proxy, latencyMs, behaviour, error, count, last, result, -, ends⟩ := c
  cases last with
  | tcpConnect | httpConnect | httpStatus =>
    simp only [checkPoll] at ends
    split_ifs at ends
    exact Or.inl ⟨rfl, (Sum.inr.inj ends).symm⟩
  | tlsConnect =>
    simp only [checkPoll] at ends
    split_ifs at ends
    · split at ends <;> cases ends
    · exact Or.inr (Or.inr ⟨.unreachable, by decide, rfl, (Sum.inr.inj ends).symm⟩)
  | tunnelStatus =>
    simp only [checkPoll] at ends
    split_ifs at ends
    exact Or.inr (Or.inr ⟨.noTunnel, by decide, rfl, (Sum.inr.inj ends).symm⟩)
  | drain =>
    simp only [checkPoll] at ends
    split_ifs at ends
  | socksMethod | socksReply =>
    refine Or.inr (Or.inr ⟨.noTunnel, by decide, rfl, ?_⟩)
    simp only [checkPoll] at ends
    split at ends
    · split_ifs at ends <;> exact (Sum.inr.inj ends).symm
    · exact (Sum.inr.inj ends).symm
  | socksLen | socksSkip n => cases ends
  | tlsHandshake =>
    obtain rfl := Sum.inr.inj ends
    simp only [stage3]
    cases behaviour count with
    | done bytes => exact Or.inr (Or.inl ⟨rfl, rfl⟩)
    | elapsed => exact Or.inr (Or.inr ⟨.elapsed, by decide, rfl, rfl⟩)
    | failed bytes =>
      cases error with
      | invalidCertificate => exact Or.inr (Or.inr ⟨.badCertificate, by decide, rfl, rfl⟩)
      | other => exact Or.inr (Or.inr ⟨.tlsError, by decide, rfl, rfl⟩)

end FinishedCheck

/-- What `fast_probe` writes for a result. -/
def probeWrites : String × CheckResult → List Op
  | (key, .ok latencyMs) => [.recordSuccess key (.finite latencyMs), .setTlsClean key true]
  | (key, .okNoTls latencyMs) => [.recordSuccess key (.finite latencyMs), .setTlsClean key false]
  | (key, .dead) => [.recordFail key]

/-- The verdict that it writes. -/
theorem mem_probeWrites {c : FinishedCheck} {k : String} {clean : Bool} :
    .setTlsClean k clean ∈ probeWrites c.checkSingle ↔
      k = c.proxy.key ∧ ∃ o, c.stage3 = some o ∧ clean = decide (o = .valid) := by
  rcases c.result_cases with ⟨ho, hr⟩ | ⟨ho, hr⟩ | ⟨o, hne, ho, hr⟩
  · simp [FinishedCheck.checkSingle, probeWrites, ho, hr]
  · simp [FinishedCheck.checkSingle, probeWrites, ho, hr]
  · simp [FinishedCheck.checkSingle, probeWrites, ho, hr, hne]

theorem recordFail_mem_probeWrites {c : FinishedCheck} {k : String} :
    .recordFail k ∈ probeWrites c.checkSingle ↔ k = c.proxy.key ∧ c.stage3 = none := by
  rcases c.result_cases with ⟨ho, hr⟩ | ⟨ho, hr⟩ | ⟨o, -, ho, hr⟩ <;>
    simp [FinishedCheck.checkSingle, probeWrites, ho, hr]

/-- The pool, and how stage 3 of the latest check of each key ended. -/
structure Watched where
  state : SharedState
  latest : String → Option Stage3

/-- The last write of a check, which is its verdict or a failure, or an operation of any kind but
a verdict. -/
inductive WatchEvent where
  | op (e : Event)
  | verdict (c : FinishedCheck)
  | dead (c : FinishedCheck) (now : Clock)

namespace Watched

/-- `set_tls_clean` behind a stage 3 that ended so. -/
def setTlsClean (w : Watched) (key : String) (clean : Bool) (o : Option Stage3) : Watched :=
  ⟨w.state.setTlsClean key clean, Function.update w.latest key o⟩

/-- `record_fail` behind a check that does not come to stage 3, which is the latest check from
then on, or is none that counts. -/
def recordFail (deadCounts : Bool) (w : Watched) (now : Clock) (key : String) : Watched :=
  ⟨w.state.recordFail now key,
    if deadCounts then Function.update w.latest key none else w.latest⟩

/-- The operations of checks, clients and the API interleave one by one. -/
inductive WatchStep (deadCounts : Bool) (w : Watched) : WatchEvent → Watched → Prop where
  | op {e : Event} {t : SharedState} (hop : ∀ k clean, e.op ≠ .setTlsClean k clean)
      (h : w.state.Step e t) : WatchStep deadCounts w (.op e) ⟨t, w.latest⟩
  | verdict {c : FinishedCheck} {k : String} {clean : Bool}
      (h : .setTlsClean k clean ∈ probeWrites c.checkSingle) :
      WatchStep deadCounts w (.verdict c) (w.setTlsClean k clean c.stage3)
  | dead {c : FinishedCheck} {k : String} {now : Clock}
      (h : .recordFail k ∈ probeWrites c.checkSingle) :
      WatchStep deadCounts w (.dead c now) (w.recordFail deadCounts now k)

/-- A proxy with the verdict `false` presented a bad certificate in its latest stage 3. -/
def Sound (w : Watched) : Prop :=
  ∀ k p, w.state.proxies.get k = some p → p.tlsClean = some false →
    w.latest k = some .badCertificate

/-- An unknown verdict stays unknown, and a clean one clean. -/
def Keeps (w w' : Watched) : Prop :=
  ∀ k p, w.state.proxies.get k = some p → p.tlsClean ≠ some false →
    ∃ p', w'.state.proxies.get k = some p' ∧ p'.tlsClean = p.tlsClean

/-- A check whose proxy is in the pool came to a certificate, and a record that enters the pool
with the verdict `false` has it from one. Where a check that does not come to stage 3 counts, it
meets no record with this verdict. -/
def FromCertificate (deadCounts : Bool) (w : Watched) : WatchEvent → Prop
  | .op e => ∀ p, w.state.Enters p e.op → p.tlsClean = some false →
      w.latest p.key = some .badCertificate
  | .verdict c => c.proxy.key ∈ w.state.proxies → c.Conclusive
  | .dead c _ => deadCounts → ∀ p, w.state.proxies.get c.proxy.key = some p →
      p.tlsClean ≠ some false

variable {deadCounts : Bool} {w w' : Watched} {e : WatchEvent}

theorem get_setTlsClean (w : Watched) (key : String) (clean : Bool) (o : Option Stage3)
    (k : String) :
    (w.setTlsClean key clean o).state.proxies.get k =
      if k = key then (w.state.proxies.get k).map (·.setTlsClean clean)
      else w.state.proxies.get k :=
  FinMap.get_modify _ _ _ _

theorem latest_setTlsClean (w : Watched) (key : String) (clean : Bool) (o : Option Stage3)
    (k : String) :
    (w.setTlsClean key clean o).latest k = if k = key then o else w.latest k :=
  Function.update_apply _ _ _ _

theorem tlsClean_recordFail (p : Proxy) (now : Clock) :
    (p.recordFail now).tlsClean = p.tlsClean := by
  obtain ⟨deadline, status, h⟩ := p.exists_recordFail now
  rw [h]
  rfl

theorem get_recordFail (deadCounts : Bool) (w : Watched) (now : Clock) (key k : String) :
    (w.recordFail deadCounts now key).state.proxies.get k =
      if k = key then (w.state.proxies.get k).map (·.recordFail now)
      else w.state.proxies.get k :=
  FinMap.get_modify _ _ _ _

theorem latest_recordFail (w : Watched) (now : Clock) (key k : String) :
    (w.recordFail true now key).latest k = if k = key then none else w.latest k :=
  Function.update_apply _ _ _ _

/-- A failure leaves every record its verdict. -/
theorem exists_of_get_recordFail {now : Clock} {key k : String} {p' : Proxy}
    (h : (w.recordFail deadCounts now key).state.proxies.get k = some p') :
    ∃ p, w.state.proxies.get k = some p ∧ p'.tlsClean = p.tlsClean := by
  rw [get_recordFail] at h
  split_ifs at h
  · obtain ⟨p, hp, rfl⟩ := Option.map_eq_some_iff.mp h
    exact ⟨p, hp, tlsClean_recordFail p now⟩
  · exact ⟨p', h, rfl⟩

theorem WatchStep.unique (w : Watched) (e : WatchEvent) (t u : Watched)
    (h : w.WatchStep deadCounts e t) (h' : w.WatchStep deadCounts e u) : t = u := by
  cases h with
  | op hop h =>
    cases h' with
    | op _ h' => rw [SharedState.Step.unique _ _ _ _ h h']
  | verdict h =>
    cases h' with
    | verdict h' =>
      obtain ⟨rfl, o, ho, rfl⟩ := mem_probeWrites.mp h
      obtain ⟨rfl, o', ho', rfl⟩ := mem_probeWrites.mp h'
      obtain rfl := Option.some.inj (ho.symm.trans ho')
      rfl
  | dead h =>
    cases h' with
    | dead h' =>
      obtain ⟨rfl, -⟩ := recordFail_mem_probeWrites.mp h
      obtain ⟨rfl, -⟩ := recordFail_mem_probeWrites.mp h'
      rfl

/-- Only the write of a verdict changes one. -/
theorem tlsClean_of_update {op : Op} (hop : ∀ k clean, op ≠ .setTlsClean k clean) {k : String}
    {u : Update} (h : op.update = some (k, u)) (p : Proxy) (now : Clock) :
    (u.apply p now).tlsClean = p.tlsClean := by
  cases Op.updates h with
  | recordSuccess latencyMs => rfl
  | recordFail => exact tlsClean_recordFail p now
  | setTlsClean clean => exact absurd rfl (hop k clean)
  | geoipResult country => rfl

/-- An operation keeps the verdicts sound exactly when the records that it brings in have theirs
from a certificate. -/
theorem sound_op_iff {e : Event} {t : SharedState} (hw : w.Sound)
    (hop : ∀ k clean, e.op ≠ .setTlsClean k clean) (h : w.state.Step e t) :
    (Watched.mk t w.latest).Sound ↔ w.FromCertificate deadCounts (.op e) := by
  apply h.forall_live_iff hw
  intro k u p hu hold hfalse
  rw [tlsClean_of_update hop hu] at hfalse
  exact hold hfalse

/-- A verdict is sound exactly when its proxy is not in the pool or it has it from a
certificate. -/
theorem sound_verdict_iff {c : FinishedCheck} {k : String} {clean : Bool} (hw : w.Sound)
    (h : .setTlsClean k clean ∈ probeWrites c.checkSingle) :
    (w.setTlsClean k clean c.stage3).Sound ↔ w.FromCertificate deadCounts (.verdict c) := by
  obtain ⟨rfl, o, ho, rfl⟩ := mem_probeWrites.mp h
  constructor
  · intro hsound hin
    obtain ⟨p, hp⟩ := FinMap.mem_iff.mp hin
    by_cases hvalid : o = .valid
    · exact Or.inl (ho.trans (congrArg some hvalid))
    · have hstage := hsound c.proxy.key (p.setTlsClean (decide (o = .valid)))
        (by rw [get_setTlsClean, if_pos rfl, hp, Option.map_some])
        (congrArg some (decide_eq_false hvalid))
      rw [latest_setTlsClean, if_pos rfl] at hstage
      exact Or.inr hstage
  · intro hfrom j p' hp' hfalse
    rw [get_setTlsClean] at hp'
    rw [latest_setTlsClean]
    split_ifs at hp' ⊢ with hj
    · subst hj
      obtain ⟨p, hp, rfl⟩ := Option.map_eq_some_iff.mp hp'
      rcases hfrom (FinMap.mem_of_get hp) with hstage | hstage
      · obtain rfl := Option.some.inj (ho.symm.trans hstage)
        cases hfalse
      · exact hstage
    · exact hw j p' hp' hfalse

/-- A failure is sound exactly when it does not count or meets no verdict `false`. -/
theorem sound_dead_iff {c : FinishedCheck} {k : String} {now : Clock} (hw : w.Sound)
    (h : .recordFail k ∈ probeWrites c.checkSingle) :
    (w.recordFail deadCounts now k).Sound ↔ w.FromCertificate deadCounts (.dead c now) := by
  obtain ⟨rfl, -⟩ := recordFail_mem_probeWrites.mp h
  cases deadCounts with
  | false =>
    refine iff_of_true (fun j p' hp' hfalse => ?_) nofun
    obtain ⟨p, hp, htls⟩ := exists_of_get_recordFail hp'
    exact hw j p hp (htls.symm.trans hfalse)
  | true =>
    constructor
    · intro hsound _ p hp hfalse
      have hstage := hsound c.proxy.key (p.recordFail now)
        (by rw [get_recordFail, if_pos rfl, hp, Option.map_some])
        ((tlsClean_recordFail p now).trans hfalse)
      rw [latest_recordFail, if_pos rfl] at hstage
      cases hstage
    · intro hfrom j p' hp' hfalse
      obtain ⟨p, hp, htls⟩ := exists_of_get_recordFail hp'
      have hold := htls.symm.trans hfalse
      rw [latest_recordFail]
      split_ifs with hj
      · subst hj
        exact absurd hold (hfrom rfl p hp)
      · exact hw j p hp hold

theorem WatchStep.sound_iff (hw : w.Sound) (h : w.WatchStep deadCounts e w') :
    w'.Sound ↔ w.FromCertificate deadCounts e := by
  cases h with
  | op hop h => exact sound_op_iff hw hop h
  | verdict h => exact sound_verdict_iff hw h
  | dead h => exact sound_dead_iff hw h

/-- A verdict of a key that is not in the pool changes no record. -/
theorem WatchStep.keeps {c : FinishedCheck} (h : w.WatchStep deadCounts (.verdict c) w')
    (hfrom : w.FromCertificate deadCounts (.verdict c)) (hc : ¬c.Conclusive) : w.Keeps w' := by
  cases h with
  | verdict h =>
    obtain ⟨rfl, -⟩ := mem_probeWrites.mp h
    intro k p hp _
    have hk : k ≠ c.proxy.key := by
      rintro rfl
      exact hc (hfrom (FinMap.mem_of_get hp))
    exact ⟨p, by rw [get_setTlsClean, if_neg hk, hp], rfl⟩

/-- What `fast_probe` writes for a check, taken in order, is a run. -/
theorem exists_run_probeWrites (deadCounts : Bool) (w : Watched) (now : Clock) (c : FinishedCheck) :
    ∃ es t, Runs.Run (WatchStep deadCounts) w es t ∧
      SharedState.applyAll now w.state (probeWrites c.checkSingle) = some t.state := by
  have hverdict : ∀ {k clean}, .setTlsClean k clean ∈ probeWrites c.checkSingle →
      ∀ latencyMs, Runs.Run (WatchStep deadCounts) w
        [.op ⟨now, .recordSuccess k latencyMs, none⟩, .verdict c]
        (setTlsClean ⟨w.state.recordSuccess now k latencyMs, w.latest⟩ k clean c.stage3) :=
    fun hmem latencyMs => .cons (.op (by simp) rfl) (.single (.verdict hmem))
  rcases c.result_cases with ⟨-, hr⟩ | ⟨-, hr⟩ | ⟨o, -, -, hr⟩
  · have hwrites : probeWrites c.checkSingle = [.recordFail c.proxy.key] := by
      rw [FinishedCheck.checkSingle, hr, probeWrites]
    rw [hwrites]
    exact ⟨[.dead c now], _, .single (.dead (hwrites ▸ List.mem_singleton_self _)), rfl⟩
  · have hwrites : probeWrites c.checkSingle =
        [.recordSuccess c.proxy.key (.finite c.latencyMs), .setTlsClean c.proxy.key true] := by
      rw [FinishedCheck.checkSingle, hr, probeWrites]
    rw [hwrites]
    exact ⟨_, _, hverdict (by rw [hwrites]; simp) (.finite c.latencyMs), rfl⟩
  · have hwrites : probeWrites c.checkSingle =
        [.recordSuccess c.proxy.key (.finite c.latencyMs), .setTlsClean c.proxy.key false] := by
      rw [FinishedCheck.checkSingle, hr, probeWrites]
    rw [hwrites]
    exact ⟨_, _, hverdict (by rw [hwrites]; simp) (.finite c.latencyMs), rfl⟩

/-- Loading the state file is a run too. -/
theorem exists_run_load (deadCounts : Bool) (w : Watched) (time : TimeFormat) (now : Clock)
    (file : Option Json) :
    ∃ es, Runs.Run (WatchStep deadCounts) w es
      ⟨(w.state.loadStateFrom time now file).2, w.latest⟩ := by
  have hlift : ∀ (proxies : List Proxy) {s t : SharedState},
      Runs.Run SharedState.Step s (proxies.map fun p => ⟨now, .insertIfAbsent p, none⟩) t →
      Runs.Run (WatchStep deadCounts) ⟨s, w.latest⟩
        (proxies.map fun p => .op ⟨now, .insertIfAbsent p, none⟩) ⟨t, w.latest⟩ := by
    intro proxies
    induction proxies with
    | nil =>
      intro s t h
      cases h
      exact .nil _
    | cons p proxies ih =>
      intro s t h
      cases h with
      | cons head tail => exact .cons (.op (by simp) head) (ih tail)
  obtain ⟨proxies, hrun⟩ := w.state.run_load time now file
  exact ⟨_, hlift proxies hrun⟩

end Watched

/-- Whatever earlier processes saw, in every state of a run a verdict `false` comes from a bad
certificate in the latest check, and no other failure of stage 3 changes a verdict, exactly when
every verdict that is written into a record or brought in with one has it from a certificate, and
no check that counts and does not come to stage 3 meets a verdict `false`. -/
theorem verdicts_sound_iff (deadCounts : Bool) (ttl : UInt64) (maxProxies : ℕ)
    (countries : List String) (latest : String → Option Stage3) {es : List WatchEvent} {w : Watched}
    (h : Runs.Run (Watched.WatchStep deadCounts) ⟨.withConfig ttl maxProxies countries, latest⟩
      es w) :
    ((∀ before after t, es = before ++ after →
        Runs.Run (Watched.WatchStep deadCounts) ⟨.withConfig ttl maxProxies countries, latest⟩
          before t → t.Sound) ∧
      ∀ before c after t u, es = before ++ .verdict c :: after →
        Runs.Run (Watched.WatchStep deadCounts) ⟨.withConfig ttl maxProxies countries, latest⟩
          before t → t.WatchStep deadCounts (.verdict c) u → ¬c.Conclusive → t.Keeps u) ↔
      ∀ before e after t, es = before ++ e :: after →
        Runs.Run (Watched.WatchStep deadCounts) ⟨.withConfig ttl maxProxies countries, latest⟩
          before t → t.FromCertificate deadCounts e := by
  have hstart : (Watched.mk (.withConfig ttl maxProxies countries) latest).Sound := by
    intro k p hp
    simp [SharedState.withConfig] at hp
  have hgood : ∀ w e w', True → Watched.Sound w → Watched.WatchStep deadCounts w e w' →
      (Watched.Sound w' ↔ w.FromCertificate deadCounts e) := fun _ _ _ _ hw hstep =>
    hstep.sound_iff hw
  have hsound := h.forall_good_iff Watched.WatchStep.unique (fun _ _ _ _ _ => trivial) hgood
    trivial hstart
  constructor
  · exact fun hall => hsound.mp hall.1
  · intro hall
    refine ⟨hsound.mpr hall, fun before c after t u hes ht hstep hc => ?_⟩
    exact hstep.keeps (hall before (.verdict c) after t hes ht) hc

namespace Watched

/-! An HTTP proxy that is checked twice. -/

def checked : Proxy := .new "1.2.3.4" 8080 .http

/-- A clean check but for what its operation `n` meets. -/
def meets (n : ℕ) (m : Met) : ℕ → Met :=
  Function.update
    (fun i => .done (if i = 5 then [13, 10] else Utf8.encode "HTTP/1.1 200 OK\r\n")) n m

def cleanCheck : FinishedCheck :=
  ⟨checked, 100, meets 6 (.done []), .other, 6, .tlsHandshake, .ok 100, by decide, rfl⟩

/-- A certificate that does not validate. -/
def mitmCheck : FinishedCheck :=
  ⟨checked, 100, meets 6 (.failed []), .invalidCertificate, 6, .tlsHandshake, .okNoTls 100,
    by decide, rfl⟩

/-- Stages 1 and 2 pass, and the connection of stage 3 is refused. -/
def refusedCheck : FinishedCheck :=
  ⟨checked, 100, meets 3 (.failed []), .other, 3, .tlsConnect, .okNoTls 100, by decide, rfl⟩

def succeeded : WatchEvent := .op ⟨⟨0, 0⟩, .recordSuccess "1.2.3.4:8080" (.finite 100), none⟩

def cleanEvents : List WatchEvent :=
  [.op ⟨⟨0, 0⟩, .insertIfAbsent checked, none⟩, succeeded, .verdict cleanCheck]

theorem mem_probeWrites_cleanCheck :
    .setTlsClean "1.2.3.4:8080" true ∈ probeWrites cleanCheck.checkSingle :=
  List.mem_cons_of_mem _ (List.mem_singleton.mpr rfl)

/-- A proxy that is found clean and then presents a bad certificate. -/
theorem verdicts_sound_mitm : ∃ w,
    Runs.Run (WatchStep true) ⟨.withConfig 300 5000 [], fun _ => none⟩
      (cleanEvents ++ [succeeded, .verdict mitmCheck]) w ∧ w.Sound ∧
    ∃ p, w.state.proxies.get "1.2.3.4:8080" = some p ∧ p.tlsClean = some false := by
  have hguarded : ∃ w, Runs.Run (Runs.Guarded (WatchStep true) (FromCertificate true))
      ⟨.withConfig 300 5000 [], fun _ => none⟩
      (cleanEvents ++ [succeeded, .verdict mitmCheck]) w ∧
      ∃ p, w.state.proxies.get "1.2.3.4:8080" = some p ∧ p.tlsClean = some false := by
    have hsucceeded : ∀ w : Watched, w.FromCertificate true succeeded := fun w p hp =>
      absurd hp (SharedState.not_enters_of_update rfl)
    have hmitm : .setTlsClean "1.2.3.4:8080" false ∈ probeWrites mitmCheck.checkSingle :=
      List.mem_cons_of_mem _ (List.mem_singleton.mpr rfl)
    refine ⟨_, .cons ⟨?_, .op (by simp) rfl⟩ (.cons ⟨hsucceeded _, .op (by simp) rfl⟩
      (.cons ⟨fun _ => Or.inl rfl, .verdict mem_probeWrites_cleanCheck⟩
      (.cons ⟨hsucceeded _, .op (by simp) rfl⟩
      (.single ⟨fun _ => Or.inr rfl, .verdict hmitm⟩)))), _, rfl, rfl⟩
    rintro p (⟨rfl, -⟩ | ⟨_, hk, -⟩)
    · nofun
    · cases hk
  obtain ⟨w, hrun, hfalse⟩ := hguarded
  have hall := (verdicts_sound_iff true 300 5000 [] (fun _ => none) hrun.unguarded).mpr
    fun _ _ _ _ => hrun.guard WatchStep.unique
  exact ⟨w, hrun.unguarded, hall.1 _ [] w (List.append_nil _).symm hrun.unguarded, hfalse⟩

/-- A clean proxy whose next stage 3 is refused the connection is held to intercept TLS. -/
theorem refused_overwrites_clean : ∃ w w',
    Runs.Run (WatchStep false) ⟨.withConfig 300 5000 [], fun _ => none⟩
      (cleanEvents ++ [succeeded]) w ∧
    w.WatchStep false (.verdict refusedCheck) w' ∧
    refusedCheck.stage3 = some .unreachable ∧
    (∃ p, w.state.proxies.get "1.2.3.4:8080" = some p ∧ p.tlsClean = some true) ∧
    (∃ p, w'.state.proxies.get "1.2.3.4:8080" = some p ∧ p.tlsClean = some false) ∧
    ¬w'.Sound ∧ ¬w.Keeps w' := by
  have hoverwrite : .setTlsClean "1.2.3.4:8080" false ∈ probeWrites refusedCheck.checkSingle :=
    List.mem_cons_of_mem _ (List.mem_singleton.mpr rfl)
  refine ⟨_, _, .cons (.op (by simp) rfl) (.cons (.op (by simp) rfl)
    (.cons (.verdict mem_probeWrites_cleanCheck) (.single (.op (by simp) rfl)))),
    .verdict hoverwrite, rfl, ⟨_, rfl, rfl⟩, ⟨_, rfl, rfl⟩, fun hsound => ?_, fun hkeeps => ?_⟩
  · have hstage := hsound "1.2.3.4:8080" _ rfl rfl
    cases hstage
  · obtain ⟨p', hp', hclean⟩ := hkeeps "1.2.3.4:8080" _ rfl nofun
    obtain rfl := Option.some.inj hp'
    cases hclean

end Watched

end VpnGateway
