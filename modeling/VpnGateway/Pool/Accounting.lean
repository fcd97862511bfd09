import VpnGateway.Core.Ledger
import VpnGateway.Core.Totals
import VpnGateway.Pool.Operations

/-! The result counters of the pool over a run: each recorded result is counted once, and what
leaves the pool takes its own results with it. -/
namespace VpnGateway

open Runs

/-- Successes and failures. -/
abbrev Tally := ℕ × ℕ

def Proxy.tally (p : Proxy) : Tally := (p.successCount, p.failCount)

/-- What an update of a record counts. -/
def Update.result : Update → Tally
  | .recordSuccess _ => (1, 0)
  | .recordFail => (0, 1)
  | _ => 0

theorem Proxy.tally_recordFail (p : Proxy) (now : Clock) :
    (p.recordFail now).tally = p.tally + (0, 1) := by
  unfold recordFail
  split
  · rfl
  · split_ifs <;> rfl

theorem Proxy.tally_apply (u : Update) (p : Proxy) (now : Clock) :
    (u.apply p now).tally = p.tally + u.result := by
  cases u with
  | recordFail => exact p.tally_recordFail now
  | _ => rfl

/-- The columns of the book: the results recorded, those that records bring along when they are
inserted, those of records that another one takes the place of, and those that the clean-up
drops. -/
inductive Column where
  | recorded | brought | overwritten | swept
  deriving DecidableEq

namespace SharedState

/-- What the pool and the ban list count together. -/
def tally (s : SharedState) : Tally := s.proxies.total Proxy.tally + s.banned.total Proxy.tally

/-- What is filed under a key of a map. -/
def filed (m : FinMap String Proxy) (k : String) : Tally := (m.get k).elim 0 Proxy.tally

/-- What an operation books, from the state it runs in. -/
def booking (s : SharedState) (e : Event) : Column → Tally
  | .recorded => match e.op with
    | .recordSuccess key _ => if key ∈ s.proxies then (1, 0) else 0
    | .recordFail key => if key ∈ s.proxies then (0, 1) else 0
    | _ => 0
  | .brought => match e.op with
    | .insertIfAbsent proxy => if (s.insertIfAbsent proxy).1 then proxy.tally else 0
    | .addVerified proxy => proxy.tally
    | _ => 0
  | .overwritten => match e.op with
    | .addVerified proxy => filed s.proxies proxy.key
    | .banProxy key => if (s.banProxy key).1.success then filed s.banned key else 0
    | .unbanProxy key => (s.banned.get key).elim 0 fun p => filed s.proxies p.key
    | _ => 0
  | .swept => match e.op with
    | .cleanupStale => (s.proxies.retain (!keepsStale e.now ·)).total Proxy.tally
    | _ => 0

def column (c : Column) : (Column → Tally) →+ Tally := Pi.evalAddMonoidHom (fun _ => Tally) c

def earned : (Column → Tally) →+ Tally := column .recorded + column .brought

def spent : (Column → Tally) →+ Tally := column .overwritten + column .swept

variable {s t : SharedState} {e : Event} {k : String} {p : Proxy} {u : Update}

/-- An update under a key moves the tally of the pool by its result, if the key is there. -/
theorem total_update (m : FinMap String Proxy) (k : String) (u : Update) (now : Clock) :
    (m.modify k (u.apply · now)).total Proxy.tally =
      m.total Proxy.tally + if k ∈ m then u.result else 0 := by
  split_ifs with hk
  · obtain ⟨p, hp⟩ := FinMap.mem_iff.mp hk
    have hmodify := FinMap.total_modify hp (u.apply · now) Proxy.tally
    rw [Proxy.tally_apply, add_comm p.tally, ← add_assoc] at hmodify
    exact add_right_cancel hmodify
  · have hsame : m.modify k (u.apply · now) = m := FinMap.ext fun j => by
      rw [FinMap.get_modify]
      split_ifs with hj
      · subst hj
        rw [FinMap.notMem_iff.mp hk, Option.map_none]
      · rfl
    rw [hsame, add_zero]

/-- The new record of a key takes the place of the old one. -/
theorem total_file (m : FinMap String Proxy) (k : String) (p : Proxy) :
    (m.insert k p).total Proxy.tally + filed m k = m.total Proxy.tally + p.tally :=
  FinMap.total_insert m k p Proxy.tally

theorem total_take {m : FinMap String Proxy} (h : m.get k = some p) :
    (m.remove k).total Proxy.tally + p.tally = m.total Proxy.tally :=
  FinMap.total_remove h Proxy.tally

/-- The balance of an operation from those of the two maps. -/
theorem tally_moved {b : Column → Tally} {outPool inPool outBan inBan : Tally}
    (hpool : t.proxies.total Proxy.tally + outPool = s.proxies.total Proxy.tally + inPool)
    (hban : t.banned.total Proxy.tally + outBan = s.banned.total Proxy.tally + inBan)
    (hbook : inPool + inBan + spent b = earned b + (outPool + outBan)) :
    t.tally + spent b = s.tally + earned b := by
  have hsum : t.tally + spent b + (outPool + outBan) = s.tally + earned b + (outPool + outBan) :=
    calc t.tally + spent b + (outPool + outBan)
        = t.proxies.total Proxy.tally + outPool + (t.banned.total Proxy.tally + outBan) +
            spent b := by unfold tally; abel
      _ = s.tally + (inPool + inBan + spent b) := by rw [hpool, hban]; unfold tally; abel
      _ = s.tally + earned b + (outPool + outBan) := by rw [hbook]; abel
  exact add_right_cancel hsum

theorem tally_pool {b : Column → Tally} {outPool inPool : Tally}
    (hpool : t.proxies.total Proxy.tally + outPool = s.proxies.total Proxy.tally + inPool)
    (hban : t.banned = s.banned) (hbook : inPool + spent b = earned b + outPool) :
    t.tally + spent b = s.tally + earned b := by
  have hban' : t.banned.total Proxy.tally + 0 = s.banned.total Proxy.tally + 0 := by rw [hban]
  exact tally_moved hpool hban' (by rw [add_zero, add_zero, hbook])

/-- An operation that leaves both maps alone books nothing. -/
theorem tally_same (hproxies : t.proxies = s.proxies) (hbanned : t.banned = s.banned)
    (hnone : s.booking e = 0) : t.tally + spent (s.booking e) = s.tally + earned (s.booking e) := by
  rw [hnone, map_zero, map_zero, tally, tally, hproxies, hbanned]

theorem Step.tally_update (h : s.Step e t) (hop : e.op.update = some (k, u)) :
    t.tally + spent (s.booking e) = s.tally + earned (s.booking e) := by
  have hbook : t.banned = s.banned ∧
      s.booking e = Pi.single .recorded (if k ∈ s.proxies then u.result else 0) := by
    obtain ⟨now, op, reply⟩ := e
    cases Op.updates hop with
    | recordSuccess latencyMs | recordFail =>
      obtain ⟨rfl, rfl⟩ := Prod.mk.inj (Option.some.inj h)
      exact ⟨rfl, funext fun c => by cases c <;> rfl⟩
    | setTlsClean clean | geoipResult country =>
      obtain ⟨rfl, rfl⟩ := Prod.mk.inj (Option.some.inj h)
      exact ⟨rfl, funext fun c => by cases c <;> simp [booking, Update.result]⟩
  obtain ⟨hbanned, hbook⟩ := hbook
  have hpool := total_update s.proxies k u e.now
  rw [← h.proxies_of_update hop, ← add_zero (t.proxies.total _)] at hpool
  refine tally_pool hpool hbanned ?_
  rw [hbook]
  simp [earned, spent, column]

theorem tally_insertIfAbsent (s : SharedState) (proxy : Proxy) (now : Clock)
    (reply : Option ApiResponse) :
    (s.insertIfAbsent proxy).2.tally + spent (s.booking ⟨now, .insertIfAbsent proxy, reply⟩) =
      s.tally + earned (s.booking ⟨now, .insertIfAbsent proxy, reply⟩) := by
  by_cases hnew : ¬ s.IsFull ∧ proxy.key ∉ s.proxies
  · have hins : s.insertIfAbsent proxy =
        (true, { s with proxies := s.proxies.insert proxy.key proxy }) := by
      rw [insertIfAbsent, if_neg hnew.1, if_neg hnew.2]
    have hfile := FinMap.total_insert_of_notMem hnew.2 proxy Proxy.tally
    rw [add_comm, ← add_zero (FinMap.total _ _)] at hfile
    refine tally_pool (by rw [hins]; exact hfile) (by rw [hins]) ?_
    simp [earned, spent, column, booking, hins]
  · have hins : s.insertIfAbsent proxy = (false, s) := by
      unfold insertIfAbsent
      split_ifs with hfull hin
      · rfl
      · rfl
      · exact absurd ⟨hfull, hin⟩ hnew
    refine tally_same (by rw [hins]) (by rw [hins]) (funext fun c => ?_)
    cases c <;> simp [booking, hins]

/-- What an operation records or brings in is counted in the pool and in the ban list, less what
it overwrites or drops. -/
theorem Step.tally (h : s.Step e t) :
    t.tally + spent (s.booking e) = s.tally + earned (s.booking e) := by
  have h' := h
  obtain ⟨now, op, reply⟩ := e
  cases op with
  | insertIfAbsent proxy =>
    obtain ⟨rfl, rfl⟩ := Prod.mk.inj (Option.some.inj h)
    exact s.tally_insertIfAbsent proxy now none
  | addVerified proxy =>
    obtain ⟨rfl, rfl⟩ := Prod.mk.inj (Option.some.inj h)
    refine tally_pool (total_file s.proxies proxy.key _) rfl ?_
    simp [earned, spent, column, booking, Proxy.tally, add_comm]
  | addProxy payload =>
    obtain ⟨rfl, rfl⟩ := Prod.mk.inj (Option.some.inj h)
    rcases s.addProxy_cases payload with ⟨m, hm⟩ | ⟨hin, m, hm⟩
    · exact tally_same (by rw [hm]) (by rw [hm]) (funext fun c => by cases c <;> rfl)
    · have hfile := FinMap.total_insert_of_notMem hin payload.proxy Proxy.tally
      rw [add_comm, ← add_zero (FinMap.total _ _)] at hfile
      refine tally_pool (by rw [hm]; exact hfile) (by rw [hm]) ?_
      rfl
  | banProxy k =>
    obtain ⟨rfl, rfl⟩ := Prod.mk.inj (Option.some.inj h)
    rcases s.banProxy_cases k with ⟨m, hm⟩ | ⟨p, m, hp, hm⟩
    · exact tally_same (by rw [hm]) (by rw [hm])
        (funext fun c => by cases c <;> simp [booking, hm])
    · have htake := (total_take hp).trans (add_zero _).symm
      refine tally_moved (by rw [hm]; exact htake) (by rw [hm]; exact total_file s.banned k p) ?_
      simp [earned, spent, column, booking, hm]
  | unbanProxy k =>
    obtain ⟨rfl, rfl⟩ := Prod.mk.inj (Option.some.inj h)
    rcases s.unbanProxy_cases k with ⟨hnone, m, hm⟩ | ⟨p, m, hp, hm⟩
    · exact tally_same (by rw [hm]) (by rw [hm])
        (funext fun c => by cases c <;> simp [booking, hnone])
    · have htake := (total_take hp).trans (add_zero _).symm
      refine tally_moved (by rw [hm]; exact total_file s.proxies p.key p)
        (by rw [hm]; exact htake) ?_
      simp [earned, spent, column, booking, hp, add_comm]
  | recordSuccess key latencyMs => exact h'.tally_update rfl
  | recordFail key => exact h'.tally_update rfl
  | setTlsClean key clean => exact h'.tally_update rfl
  | geoipResult key country => exact h'.tally_update rfl
  | cleanupStale =>
    obtain ⟨rfl, rfl⟩ := Prod.mk.inj (Option.some.inj h)
    have hsplit := FinMap.total_retain_add s.proxies (keepsStale now) Proxy.tally
    refine tally_pool (hsplit.trans (add_zero _).symm) rfl ?_
    simp [earned, spent, column, booking]
  | reloadConfig ttl countries =>
    obtain ⟨rfl, rfl⟩ := Prod.mk.inj (Option.some.inj h)
    exact tally_same rfl rfl (funext fun c => by cases c <;> rfl)
  | stickyGet peer =>
    obtain ⟨r, hr, hrt⟩ := Option.map_eq_some_iff.mp h
    obtain ⟨rfl, rfl⟩ := Prod.mk.inj hrt
    obtain ⟨q, -, rfl⟩ := Option.map_eq_some_iff.mp hr
    exact tally_same rfl rfl (funext fun c => by cases c <;> rfl)
  | setOrTouch peer key =>
    obtain ⟨rfl, rfl⟩ := Prod.mk.inj (Option.some.inj h)
    exact tally_same rfl rfl (funext fun c => by cases c <;> rfl)
  | cleanupSessions =>
    obtain ⟨r, hr, hrt⟩ := Option.map_eq_some_iff.mp h
    obtain ⟨rfl, rfl⟩ := Prod.mk.inj hrt
    obtain ⟨q, -, rfl⟩ := Option.map_eq_some_iff.mp hr
    exact tally_same rfl rfl (funext fun c => by cases c <;> rfl)

/-- The clean-up never drops a success: it keeps whatever has ever worked. -/
theorem swept_fst (s : SharedState) (e : Event) : (s.booking e .swept).1 = 0 := by
  obtain ⟨now, op, reply⟩ := e
  cases op with
  | cleanupStale =>
    show ((s.proxies.retain (!keepsStale now ·)).total Proxy.tally).1 = 0
    rw [FinMap.total, Prod.fst_sum]
    refine Finset.sum_eq_zero fun k _ => ?_
    cases hk : (s.proxies.retain (!keepsStale now ·)).get k with
    | none => rfl
    | some p =>
      have hstale := (FinMap.get_retain_some.mp hk).2
      simp [keepsStale] at hstale
      exact hstale.1
  | _ => rfl

def bannedAndBack : List Event :=
  [⟨⟨0, 0⟩, .addProxy ⟨"5.6.7.8", 3128, none⟩, some ⟨true, "Proxy 5.6.7.8:3128 added"⟩⟩,
    ⟨⟨0, 0⟩, .recordSuccess "5.6.7.8:3128" (.finite 100), none⟩,
    ⟨⟨0, 0⟩, .banProxy "5.6.7.8:3128", some ⟨true, "Proxy 5.6.7.8:3128 banned"⟩⟩,
    ⟨⟨0, 0⟩, .insertIfAbsent (.new "5.6.7.8" 3128 .socks5), none⟩,
    ⟨⟨0, 0⟩, .recordFail "5.6.7.8:3128", none⟩,
    ⟨⟨0, 0⟩, .unbanProxy "5.6.7.8:3128", some ⟨true, "Proxy 5.6.7.8:3128 unbanned"⟩⟩]

end SharedState

end VpnGateway
