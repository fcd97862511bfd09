import VpnGateway.Core.MaximalRuns
import VpnGateway.Pool.Proxy

/-! The longest uptime of a proxy against the history of its calls. -/
namespace VpnGateway

open MaximalRuns

/-- What one check or connection reports about the proxy. -/
inductive CheckOutcome where
  | success (latencyMs : F64)
  | fail

structure CheckCall where
  outcome : CheckOutcome
  now : Clock

namespace CheckCall

def succeeded (c : CheckCall) : Bool :=
  match c.outcome with
  | .success _ => true
  | .fail => false

def apply (c : CheckCall) (p : Proxy) : Proxy :=
  match c.outcome with
  | .success latencyMs => p.recordSuccess c.now latencyMs
  | .fail => p.recordFail c.now

/-- Whole seconds between the first and the last of the calls. -/
def wholeSeconds (calls : List CheckCall) : ℕ :=
  match calls.head?, calls.getLast? with
  | some first, some last => first.now.instant.elapsedSecs last.now
  | _, _ => 0

/-- The clock never runs backwards between two of the calls. -/
def InOrder (calls : List CheckCall) : Prop :=
  calls.Pairwise fun c d => c.now.instant ≤ d.now.instant

end CheckCall

namespace Proxy

def recordAll (p : Proxy) (calls : List CheckCall) : Proxy := calls.foldl (fun p c => c.apply p) p

@[simp] theorem recordAll_nil (p : Proxy) : p.recordAll [] = p := rfl

theorem recordAll_concat (p : Proxy) (calls : List CheckCall) (c : CheckCall) :
    p.recordAll (calls ++ [c]) = c.apply (p.recordAll calls) := List.foldl_concat ..

@[simp] theorem uptimeMaxSecs_recordFail (p : Proxy) (now : Clock) :
    (p.recordFail now).uptimeMaxSecs = p.uptimeMaxSecs := by
  obtain ⟨deadline, status, h⟩ := p.exists_recordFail now
  rw [h]
  rfl

@[simp] theorem uptimeStreakStart_recordFail (p : Proxy) (now : Clock) :
    (p.recordFail now).uptimeStreakStart = none := by
  obtain ⟨deadline, status, h⟩ := p.exists_recordFail now
  rw [h]
  rfl

theorem uptimeMaxSecs_le_apply (p : Proxy) (c : CheckCall) :
    p.uptimeMaxSecs ≤ (c.apply p).uptimeMaxSecs := by
  unfold CheckCall.apply
  cases c.outcome with
  | fail => exact (p.uptimeMaxSecs_recordFail c.now).ge
  | success latencyMs =>
    simp only [recordSuccess]
    split_ifs
    · exact le_rfl
    · cases p.uptimeStreakStart with
      | none => exact le_rfl
      | some start => exact le_max_left _ _

theorem uptimeMaxSecs_le_recordAll (p : Proxy) (before after : List CheckCall) :
    (p.recordAll before).uptimeMaxSecs ≤ (p.recordAll (before ++ after)).uptimeMaxSecs := by
  induction after using List.reverseRecOn with
  | nil => rw [List.append_nil]
  | append_singleton after c ih =>
    rw [← List.append_assoc, recordAll_concat]
    exact ih.trans (uptimeMaxSecs_le_apply _ c)

/-- What the record keeps about its history: the running streak begins at the first success
since the last failure, a running streak has no failures, and the maximum is that of all runs. -/
structure TracksStreaks (p : Proxy) (calls : List CheckCall) : Prop where
  start : p.uptimeStreakStart =
    (calls.rtakeWhile CheckCall.succeeded).head?.map fun c => c.now.instant
  clear : p.uptimeStreakStart.isSome → p.consecutiveFails = 0
  greatest : IsGreatest (measures CheckCall.succeeded CheckCall.wholeSeconds calls) p.uptimeMaxSecs

theorem tracksStreaks_new (host : String) (port : UInt16) (protocol : Protocol) :
    (new host port protocol).TracksStreaks [] where
  start := rfl
  clear := by simp [new]
  greatest := by
    rw [measures_nil]
    exact isGreatest_singleton

variable {p : Proxy} {calls : List CheckCall} {now : Clock}

theorem TracksStreaks.recordFail (h : p.TracksStreaks calls) :
    (p.recordFail now).TracksStreaks (calls ++ [⟨.fail, now⟩]) where
  start := by
    rw [List.rtakeWhile_concat_neg _ _ _ (by simp [CheckCall.succeeded])]
    exact p.uptimeStreakStart_recordFail now
  clear := by simp
  greatest := by
    rw [measures_concat_neg (by simp [CheckCall.succeeded]), uptimeMaxSecs_recordFail]
    exact h.greatest

theorem wholeSeconds_concat (first c : CheckCall) (rest : List CheckCall) :
    CheckCall.wholeSeconds (first :: rest ++ [c]) = first.now.instant.elapsedSecs c.now := by
  unfold CheckCall.wholeSeconds
  rw [List.getLast?_concat]
  rfl

/-- With a later call at its end, a run is not measured shorter. -/
theorem wholeSeconds_le_concat {run : List CheckCall} {c : CheckCall}
    (h : ∀ d ∈ run, d.now.instant ≤ c.now.instant) :
    CheckCall.wholeSeconds run ≤ CheckCall.wholeSeconds (run ++ [c]) := by
  cases run with
  | nil => exact Nat.zero_le _
  | cons first rest =>
    have hlast : ∃ last, (first :: rest).getLast? = some last ∧ last ∈ first :: rest :=
      ⟨_, List.getLast?_eq_some_getLast (by simp), List.getLast_mem (by simp)⟩
    obtain ⟨last, hget, hmem⟩ := hlast
    rw [wholeSeconds_concat]
    simp only [CheckCall.wholeSeconds, hget, List.head?_cons]
    exact Nat.div_le_div_right (Nat.sub_le_sub_right (h last hmem) _)

theorem TracksStreaks.recordSuccess (h : p.TracksStreaks calls) (latencyMs : F64)
    (horder : ∀ c ∈ calls, c.now.instant ≤ now.instant) :
    (p.recordSuccess now latencyMs).TracksStreaks (calls ++ [⟨.success latencyMs, now⟩]) := by
  set c : CheckCall := ⟨.success latencyMs, now⟩
  have hc : CheckCall.succeeded c := rfl
  have hrun : ∀ d ∈ calls.rtakeWhile CheckCall.succeeded, d.now.instant ≤ now.instant :=
    fun d hd => horder d ((List.rtakeWhile_suffix _ _).subset hd)
  have hgreatest := isGreatest_concat_pos hc h.greatest (wholeSeconds_le_concat hrun)
  have hstart := h.start
  cases hlast : calls.rtakeWhile CheckCall.succeeded with
  | nil =>
    -- the first success, or the first one after a failure
    rw [hlast] at hstart hgreatest
    have hnone : p.uptimeStreakStart = none := hstart
    refine ⟨?_, fun _ => rfl, ?_⟩
    · rw [List.rtakeWhile_concat_pos _ _ _ hc, hlast]
      simp [Proxy.recordSuccess, hnone, c]
    · simpa [Proxy.recordSuccess, hnone, CheckCall.wholeSeconds, Instant.elapsedSecs]
        using hgreatest
  | cons first rest =>
    rw [hlast] at hstart hgreatest
    rw [wholeSeconds_concat] at hgreatest
    have hsome : p.uptimeStreakStart = some first.now.instant := hstart
    have hclear : p.consecutiveFails = 0 := h.clear (by simp [hsome])
    refine ⟨?_, fun _ => rfl, ?_⟩
    · rw [List.rtakeWhile_concat_pos _ _ _ hc, hlast]
      simp [Proxy.recordSuccess, hsome, hclear]
    · simpa [Proxy.recordSuccess, hsome, hclear] using hgreatest

theorem tracksStreaks_recordAll (host : String) (port : UInt16) (protocol : Protocol)
    (horder : CheckCall.InOrder calls) :
    ((new host port protocol).recordAll calls).TracksStreaks calls := by
  induction calls using List.reverseRecOn with
  | nil => exact tracksStreaks_new host port protocol
  | append_singleton calls c ih =>
    obtain ⟨hcalls, -, hlast⟩ := List.pairwise_append.mp horder
    rw [recordAll_concat]
    obtain ⟨outcome, now⟩ := c
    cases outcome with
    | fail => exact (ih hcalls).recordFail
    | success latencyMs =>
      exact (ih hcalls).recordSuccess latencyMs fun d hd => hlast d hd _ (by simp)

/-- The recorded maximum is the whole seconds of the longest maximal run of successes, zero
where there is none, and no later call lowers it. -/
theorem uptimeMaxSecs_longest_streak (host : String) (port : UInt16) (protocol : Protocol)
    (calls : List CheckCall) (horder : CheckCall.InOrder calls) :
    IsGreatest (insert 0
      (CheckCall.wholeSeconds '' {run | IsMaximalRun CheckCall.succeeded calls run}))
      ((new host port protocol).recordAll calls).uptimeMaxSecs ∧
    ∀ before after, calls = before ++ after →
      ((new host port protocol).recordAll before).uptimeMaxSecs ≤
        ((new host port protocol).recordAll calls).uptimeMaxSecs := by
  refine ⟨(tracksStreaks_recordAll host port protocol horder).greatest, ?_⟩
  rintro before after rfl
  exact uptimeMaxSecs_le_recordAll _ before after

/-- Two runs of ten and of three seconds around a failure. -/
def twoStreaks : List CheckCall :=
  [⟨.success (.finite 20), ⟨fromSecs 5, 0⟩⟩, ⟨.success .nan, ⟨fromSecs 15, 0⟩⟩,
    ⟨.fail, ⟨fromSecs 16, 0⟩⟩, ⟨.success (.finite 30), ⟨fromSecs 20, 0⟩⟩,
    ⟨.success (.finite 30), ⟨fromSecs 23, 0⟩⟩]

theorem uptimeMaxSecs_twoStreaks :
    ((new "10.0.0.1" 1080 .socks5).recordAll twoStreaks).uptimeMaxSecs = 10 ∧
      IsGreatest (insert 0
        (CheckCall.wholeSeconds '' {run | IsMaximalRun CheckCall.succeeded twoStreaks run})) 10 :=
  ⟨rfl, (uptimeMaxSecs_longest_streak "10.0.0.1" 1080 .socks5 twoStreaks
    (by unfold CheckCall.InOrder twoStreaks; decide)).1⟩

end Proxy

end VpnGateway
