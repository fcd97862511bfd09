import VpnGateway.Pool.CheckQueue
import VpnGateway.Pool.HealthChecker

/-! A batch of checks that end in any order. What they leave behind is what the plain loop over
the batch would leave. -/
namespace FinMap

variable {κ ν : Type*} [DecidableEq κ]

theorem modify_modify (m : FinMap κ ν) (k : κ) (f g : ν → ν) :
    (m.modify k f).modify k g = m.modify k (g ∘ f) := FinMap.ext fun j => by
  rw [get_modify, get_modify, get_modify]
  split_ifs
  · rw [Option.map_map]
  · rfl

/-- Updates under different keys can change places. -/
theorem modify_comm (m : FinMap κ ν) {k k' : κ} (h : k ≠ k') (f g : ν → ν) :
    (m.modify k f).modify k' g = (m.modify k' g).modify k f := FinMap.ext fun j => by
  rw [get_modify, get_modify, get_modify, get_modify]
  split_ifs with hk' hk
  · exact absurd (hk.symm.trans hk') h
  · rfl
  · rfl
  · rfl

end FinMap

namespace VpnGateway

open Runs

/-- A check as it comes back, with the time at which the loop takes it up. -/
structure ProbeReport where
  now : Clock
  key : String
  result : CheckResult

def CheckResult.works : CheckResult → Bool
  | .ok _ | .okNoTls _ => true
  | .dead => false

def CheckResult.isClean : CheckResult → Bool
  | .ok _ => true
  | .okNoTls _ | .dead => false

/-- A clean proxy is one that works. -/
theorem CheckResult.countP_split (results : List CheckResult) :
    results.countP isClean + results.countP (fun r => r.works && !r.isClean) =
      results.countP works := by
  induction results with
  | nil => rfl
  | cons r results ih =>
    rw [List.countP_cons, List.countP_cons, List.countP_cons, ← ih]
    cases r with
    | ok latencyMs => exact Nat.add_right_comm _ 1 _
    | okNoTls latencyMs | dead => rfl

/-- The shared state, the counters of `fast_probe`, the keys for which it has spawned a lookup and
how often it has notified the waiters. -/
structure ProbeLoop where
  pool : SharedState
  found : ℕ
  tlsCleanCount : ℕ
  mitmCount : ℕ
  lookups : Multiset String
  notified : ℕ

namespace ProbeLoop

def start (s : SharedState) : ProbeLoop := ⟨s, 0, 0, 0, 0, 0⟩

/-- Both branches of a proxy that works. -/
def working (l : ProbeLoop) (now : Clock) (key : String) (latencyMs : ℕ) (clean : Bool) :
    ProbeLoop where
  pool := (l.pool.recordSuccess now key (.finite latencyMs)).setTlsClean key clean
  found := l.found + 1
  tlsCleanCount := if clean then l.tlsCleanCount + 1 else l.tlsCleanCount
  mitmCount := if clean then l.mitmCount else l.mitmCount + 1
  lookups := key ::ₘ l.lookups
  notified := if l.found + 1 = 1 then l.notified + 1 else l.notified

def handle (l : ProbeLoop) (r : ProbeReport) : ProbeLoop :=
  match r.result with
  | .ok latencyMs => l.working r.now r.key latencyMs true
  | .okNoTls latencyMs => l.working r.now r.key latencyMs false
  | .dead => { l with pool := l.pool.recordFail r.now r.key }

/-- The loop over the results in the order in which they come. -/
def fastProbe (s : SharedState) (reports : List ProbeReport) : ProbeLoop :=
  reports.foldl handle (start s)

end ProbeLoop

namespace ProbeReport

/-- What a report does to the record of its proxy. -/
def update (r : ProbeReport) (p : Proxy) : Proxy :=
  match r.result with
  | .ok latencyMs => (p.recordSuccess r.now (.finite latencyMs)).setTlsClean true
  | .okNoTls latencyMs => (p.recordSuccess r.now (.finite latencyMs)).setTlsClean false
  | .dead => p.recordFail r.now

end ProbeReport

namespace ProbeLoop

/-- What a report does, field by field. -/
theorem handle_eq (l : ProbeLoop) (r : ProbeReport) : l.handle r =
    { pool := { l.pool with
        proxies := l.pool.proxies.modify r.key r.update
        proxyRotations := l.pool.proxyRotations + if r.result.works then 0 else 1 }
      found := l.found + if r.result.works then 1 else 0
      tlsCleanCount := l.tlsCleanCount + if r.result.isClean then 1 else 0
      mitmCount := l.mitmCount + if r.result.works && !r.result.isClean then 1 else 0
      lookups := l.lookups + if r.result.works then {r.key} else 0
      notified := l.notified + if r.result.works && l.found == 0 then 1 else 0 } := by
  obtain ⟨now, key, result⟩ := r
  cases result with
  | ok latencyMs =>
    have hmodify := l.pool.proxies.modify_modify key (·.recordSuccess now (.finite latencyMs))
      (·.setTlsClean true)
    simp only [handle, working, SharedState.recordSuccess, SharedState.setTlsClean, hmodify,
      CheckResult.works, CheckResult.isClean]
    have hlookups : key ::ₘ l.lookups = l.lookups + {key} := by
      rw [add_comm, Multiset.singleton_add]
    by_cases hfound : l.found = 0 <;> simp [hfound, hlookups] <;> rfl
  | okNoTls latencyMs =>
    have hmodify := l.pool.proxies.modify_modify key (·.recordSuccess now (.finite latencyMs))
      (·.setTlsClean false)
    simp only [handle, working, SharedState.recordSuccess, SharedState.setTlsClean, hmodify,
      CheckResult.works, CheckResult.isClean]
    have hlookups : key ::ₘ l.lookups = l.lookups + {key} := by
      rw [add_comm, Multiset.singleton_add]
    by_cases hfound : l.found = 0 <;> simp [hfound, hlookups] <;> rfl
  | dead =>
    simp [handle, CheckResult.works, CheckResult.isClean, SharedState.recordFail]
    rfl

/-- Reports about different proxies can change places. -/
theorem handle_comm (l : ProbeLoop) {r r' : ProbeReport} (h : r.key ≠ r'.key) :
    (l.handle r).handle r' = (l.handle r').handle r := by
  have hproxies := l.pool.proxies.modify_comm h r.update r'.update
  rw [handle_eq, handle_eq l r, handle_eq, handle_eq l r']
  simp only [mk.injEq]
  refine ⟨?_, ?_, ?_, ?_, ?_, ?_⟩
  · simp only [hproxies, add_right_comm]
  · exact add_right_comm _ _ _
  · exact add_right_comm _ _ _
  · exact add_right_comm _ _ _
  · exact add_right_comm _ _ _
  · cases r.result.works <;> cases r'.result.works <;> simp

theorem foldl_handle_perm {reports order : List ProbeReport}
    (hnodup : (reports.map ProbeReport.key).Nodup) (h : order.Perm reports) (l : ProbeLoop) :
    order.foldl handle l = reports.foldl handle l := by
  refine (h.symm.foldl_eq' (fun r hr r' hr' l => ?_) l).symm
  by_cases heq : r = r'
  · rw [heq]
  · have hkeys : r.key ≠ r'.key := fun hkey => heq (List.inj_on_of_nodup_map hnodup hr hr' hkey)
    exact l.handle_comm hkeys

/-- What the loop has counted, on top of what was counted before. -/
theorem foldl_handle_counts (reports : List ProbeReport) (l : ProbeLoop) :
    (reports.foldl handle l).found = l.found + reports.countP (·.result.works) ∧
    (reports.foldl handle l).tlsCleanCount = l.tlsCleanCount + reports.countP (·.result.isClean) ∧
    (reports.foldl handle l).mitmCount =
      l.mitmCount + reports.countP (fun r => r.result.works && !r.result.isClean) ∧
    (reports.foldl handle l).lookups =
      l.lookups + ((reports.filter (·.result.works)).map ProbeReport.key : Multiset String) := by
  induction reports generalizing l with
  | nil => simp
  | cons r reports ih =>
    obtain ⟨hfound, hclean, hmitm, hlookups⟩ := ih (l.handle r)
    rw [List.foldl_cons, hfound, hclean, hmitm, hlookups, handle_eq]
    cases hworks : r.result.works <;> cases hisClean : r.result.isClean <;>
      simp [hworks, hisClean, add_assoc, add_comm 1]

/-- The waiters are notified with the first working proxy and not again. -/
theorem foldl_handle_notified (reports : List ProbeReport) (l : ProbeLoop)
    (h : l.notified = min l.found 1) :
    (reports.foldl handle l).notified = min (reports.foldl handle l).found 1 := by
  induction reports generalizing l with
  | nil => exact h
  | cons r reports ih =>
    refine ih (l.handle r) ?_
    rw [handle_eq]
    dsimp only
    by_cases hfound : l.found = 0
    · cases r.result.works <;> simp [h, hfound]
    · cases r.result.works <;> simp [h, hfound]
      omega

/-- The records that the loop rewrites. -/
theorem get_foldl_handle {reports : List ProbeReport}
    (hnodup : (reports.map ProbeReport.key).Nodup) (l : ProbeLoop) :
    (∀ r ∈ reports, (reports.foldl handle l).pool.proxies.get r.key =
      (l.pool.proxies.get r.key).map r.update) ∧
    ∀ k, k ∉ reports.map ProbeReport.key →
      (reports.foldl handle l).pool.proxies.get k = l.pool.proxies.get k := by
  induction reports generalizing l with
  | nil => exact ⟨by simp, fun _ _ => rfl⟩
  | cons r reports ih =>
    rw [List.map_cons, List.nodup_cons] at hnodup
    obtain ⟨hin, hout⟩ := ih hnodup.2 (l.handle r)
    have hhandle : ∀ k, (l.handle r).pool.proxies.get k =
        if k = r.key then (l.pool.proxies.get k).map r.update else l.pool.proxies.get k := by
      intro k
      rw [handle_eq]
      exact FinMap.get_modify _ _ _ _
    refine ⟨fun r' hr' => ?_, fun k hk => ?_⟩
    · rcases List.mem_cons.mp hr' with rfl | hr'
      · exact (hout _ hnodup.1).trans ((hhandle _).trans (if_pos rfl))
      · have hne : r'.key ≠ r.key := fun hkey =>
          hnodup.1 (hkey ▸ List.mem_map_of_mem hr')
        rw [List.foldl_cons, hin r' hr', hhandle, if_neg hne]
    · rw [List.map_cons, List.mem_cons, not_or] at hk
      exact (hout k hk.2).trans ((hhandle k).trans (if_neg hk.1))

/-- Beside the records, only the counter of the rotations moves: by one for each failure. -/
theorem pool_foldl_handle (reports : List ProbeReport) (l : ProbeLoop) :
    (reports.foldl handle l).pool = { l.pool with
      proxies := (reports.foldl handle l).pool.proxies
      proxyRotations := l.pool.proxyRotations + reports.countP fun r => !r.result.works } := by
  induction reports generalizing l with
  | nil => simp
  | cons r reports ih =>
    rw [List.foldl_cons, ih (l.handle r), handle_eq]
    cases hworks : r.result.works
    · simp [hworks, add_assoc, add_comm 1]
    · simp [hworks]

end ProbeLoop

/-- Whatever came before, and whichever batch a scan makes, the checks of the batch can end in any
order: the loop counts the working proxies once each, splits them by their TLS verdict, looks each
of them up once and notifies the waiters at most once; every record of the batch has had its own
report and no other record has changed. -/
theorem fastProbe_any_order (ttl : UInt64) (maxProxies : ℕ) (countries : List String)
    {history : List SharedState.StoreEvent} {s : SharedState}
    (hs : Run SharedState.StoreStep (.withConfig ttl maxProxies countries) history s)
    (it : s.proxies.Iteration) (now : Clock) (limit : ℕ) {reports : List ProbeReport}
    (hreports : (reports.map ProbeReport.key).Perm
      ((s.proxiesNeedingCheck it now limit).map Proxy.key)) :
    (∀ order : List ProbeReport, order.Perm reports →
      ProbeLoop.fastProbe s order = ProbeLoop.fastProbe s reports) ∧
    (ProbeLoop.fastProbe s reports).found = reports.countP (·.result.works) ∧
    (ProbeLoop.fastProbe s reports).tlsCleanCount = reports.countP (·.result.isClean) ∧
    (ProbeLoop.fastProbe s reports).tlsCleanCount + (ProbeLoop.fastProbe s reports).mitmCount =
      (ProbeLoop.fastProbe s reports).found ∧
    (ProbeLoop.fastProbe s reports).lookups =
      ((reports.filter (·.result.works)).map ProbeReport.key : Multiset String) ∧
    (ProbeLoop.fastProbe s reports).lookups.Nodup ∧
    (ProbeLoop.fastProbe s reports).notified =
      (if (ProbeLoop.fastProbe s reports).found = 0 then 0 else 1) ∧
    (∀ r ∈ reports, ∃ p ∈ s.proxiesNeedingCheck it now limit, s.proxies.get r.key = some p ∧
      (ProbeLoop.fastProbe s reports).pool.proxies.get r.key = some (r.update p)) ∧
    (∀ k, k ∉ reports.map ProbeReport.key →
      (ProbeLoop.fastProbe s reports).pool.proxies.get k = s.proxies.get k) ∧
    (ProbeLoop.fastProbe s reports).pool = { s with
      proxies := (ProbeLoop.fastProbe s reports).pool.proxies
      proxyRotations := s.proxyRotations + reports.countP fun r => !r.result.works } := by
  have hkeyed := hs.invariant (fun _ _ _ hi hs => hi.storeStep hs)
    (SharedState.allKeyed_withConfig ttl maxProxies countries)
  have hnodup : (reports.map ProbeReport.key).Nodup :=
    hreports.nodup_iff.mpr (hkeyed.nodup_proxiesNeedingCheck it now limit)
  obtain ⟨hfound, hclean, hmitm, hlookups⟩ :=
    ProbeLoop.foldl_handle_counts reports (ProbeLoop.start s)
  obtain ⟨hin, hout⟩ := ProbeLoop.get_foldl_handle hnodup (ProbeLoop.start s)
  have hnotified := ProbeLoop.foldl_handle_notified reports (ProbeLoop.start s) rfl
  refine ⟨fun order horder => ProbeLoop.foldl_handle_perm hnodup horder _,
    hfound.trans (zero_add _), hclean.trans (zero_add _), ?_, hlookups.trans (zero_add _), ?_, ?_,
    fun r hr => ?_, hout, ProbeLoop.pool_foldl_handle reports _⟩
  · have hsplit := CheckResult.countP_split (reports.map ProbeReport.result)
    rw [List.countP_map, List.countP_map, List.countP_map] at hsplit
    rw [ProbeLoop.fastProbe, hclean, hmitm, hfound]
    calc 0 + _ + (0 + _) = reports.countP (·.result.isClean) + reports.countP
          (fun r => r.result.works && !r.result.isClean) := by rw [zero_add, zero_add]
      _ = reports.countP (·.result.works) := hsplit
      _ = 0 + reports.countP (·.result.works) := (zero_add _).symm
  · have hsublist : ((reports.filter (·.result.works)).map ProbeReport.key).Nodup :=
      hnodup.sublist (List.filter_sublist.map ProbeReport.key)
    rw [ProbeLoop.fastProbe, hlookups]
    exact (zero_add (_ : Multiset String)).symm ▸ Multiset.coe_nodup.mpr hsublist
  · rw [ProbeLoop.fastProbe, hnotified]
    split_ifs with h
    · rw [h, Nat.zero_min]
    · exact min_eq_right (Nat.one_le_iff_ne_zero.mpr h)
  · obtain ⟨p, hp, hkey⟩ := List.mem_map.mp (hreports.subset (List.mem_map_of_mem hr))
    obtain ⟨⟨k, hk⟩, -⟩ := SharedState.mem_proxiesNeedingCheck hp
    have hget : s.proxies.get r.key = some p := by
      rw [← hkey, ← hkeyed.live k p hk]
      exact hk
    exact ⟨p, hp, hget, (hin r hr).trans (congrArg (Option.map r.update) hget)⟩

namespace ProbeLoop

open SharedState

def twoQueued : SharedState :=
  (((withConfig 300 5000 []).insertIfAbsent (.new "1.2.3.4" 8080 .http)).2.insertIfAbsent
    (.new "5.6.7.8" 3128 .socks5)).2

def scanOfTwo : twoQueued.proxies.Iteration where
  order := ["1.2.3.4:8080", "5.6.7.8:3128"]
  nodup := by decide
  complete k := by
    show k ∈ ["1.2.3.4:8080", "5.6.7.8:3128"] ↔
      k ∈ (insert "5.6.7.8:3128" (insert "1.2.3.4:8080" ∅) : Finset String)
    simp [or_comm]

theorem keys_batchOfTwo :
    (twoQueued.proxiesNeedingCheck scanOfTwo ⟨0, 0⟩ 300).map Proxy.key =
      ["1.2.3.4:8080", "5.6.7.8:3128"] := by
  have hvalues : scanOfTwo.values.filter (needsCheck ⟨0, 0⟩) =
      [.new "1.2.3.4" 8080 .http, .new "5.6.7.8" 3128 .socks5] := rfl
  rw [proxiesNeedingCheck, hvalues, List.mergeSort_of_pairwise (by decide)]
  decide

/-- The second proxy of the batch answers first. -/
def secondFirst : List ProbeReport :=
  [⟨⟨1, 1⟩, "5.6.7.8:3128", .okNoTls 40⟩, ⟨⟨2, 2⟩, "1.2.3.4:8080", .dead⟩]

theorem fastProbe_any_order_secondFirst :
    fastProbe twoQueued secondFirst.reverse = fastProbe twoQueued secondFirst ∧
    (fastProbe twoQueued secondFirst).found = 1 ∧
    (fastProbe twoQueued secondFirst).mitmCount = 1 ∧
    (fastProbe twoQueued secondFirst).lookups = {"5.6.7.8:3128"} ∧
    (fastProbe twoQueued secondFirst).notified = 1 := by
  have hhistory : Run StoreStep (withConfig 300 5000 [])
      [.op ⟨⟨0, 0⟩, .insertIfAbsent (.new "1.2.3.4" 8080 .http), none⟩,
        .op ⟨⟨0, 0⟩, .insertIfAbsent (.new "5.6.7.8" 3128 .socks5), none⟩] twoQueued :=
    .cons (.op rfl) (.single (.op rfl))
  have hreports : (secondFirst.map ProbeReport.key).Perm
      ((twoQueued.proxiesNeedingCheck scanOfTwo ⟨0, 0⟩ 300).map Proxy.key) := by
    rw [keys_batchOfTwo]
    exact .swap _ _ _
  obtain ⟨horder, hfound, hclean, hsum, hlookups, -, hnotified, -⟩ :=
    fastProbe_any_order 300 5000 [] hhistory scanOfTwo ⟨0, 0⟩ 300 hreports
  have hone : (fastProbe twoQueued secondFirst).found = 1 := hfound
  refine ⟨horder _ (List.reverse_perm _), hone, ?_, hlookups, ?_⟩
  · rw [hclean, hone] at hsum
    exact (zero_add _).symm.trans hsum
  · rw [hnotified, hone]
    rfl

end ProbeLoop

end VpnGateway
