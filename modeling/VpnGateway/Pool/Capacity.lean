import VpnGateway.Pool.Operations

/-! The size limit of the pool when operations interleave: `insert_if_absent` compares the
length first and inserts later. -/
namespace VpnGateway

/-- The pool, and the proxies whose `insert_if_absent` has passed the length check and has not
inserted yet. -/
structure Filling where
  pool : SharedState
  admitted : List Proxy

inductive FillOp where
  | checkLen (proxy : Proxy)
  | enter (proxy : Proxy)
  | other (op : Op)

/-- Whether the gateway runs the operation as one step here. An insertion takes two, and
`add_verified` has no caller. -/
def Op.isWhole : Op → Bool
  | .insertIfAbsent _ => false
  | .addVerified _ => false
  | _ => true

namespace SharedState

/-- The second step of `insert_if_absent`: the map's entry for the key. -/
def enter (s : SharedState) (proxy : Proxy) : SharedState :=
  if proxy.key ∈ s.proxies then s
  else { s with proxies := s.proxies.insert proxy.key proxy }

/-- Without an operation in between, the two steps are the whole insertion. -/
theorem insertIfAbsent_eq_enter (s : SharedState) (proxy : Proxy) :
    (s.insertIfAbsent proxy).2 = if s.IsFull then s else s.enter proxy := by
  unfold insertIfAbsent enter
  split_ifs <;> rfl

/-- Whether the operation, run as one step, adds a key to the pool. -/
def AddsKey (s : SharedState) : Op → Prop
  | .addProxy payload => payload.key ∉ s.proxies
  | .unbanProxy k => ∃ p, s.banned.get k = some p ∧ p.key ∉ s.proxies
  | _ => False

theorem Step.len_of_addsKey {s t : SharedState} {e : Event} (h : s.Step e t)
    (hadds : s.AddsKey e.op) : t.proxies.len = s.proxies.len + 1 := by
  obtain ⟨now, op, reply⟩ := e
  cases op with
  | addProxy payload =>
    obtain ⟨rfl, rfl⟩ := Prod.mk.inj (Option.some.inj h)
    have hnew : payload.key ∉ s.proxies := hadds
    show (s.addProxy payload).2.proxies.len = _
    rw [addProxy, if_neg hnew]
    exact FinMap.len_insert_of_notMem hnew payload.proxy
  | unbanProxy k =>
    obtain ⟨rfl, rfl⟩ := Prod.mk.inj (Option.some.inj h)
    obtain ⟨p, hp, hnew⟩ := hadds
    show (s.unbanProxy k).2.proxies.len = _
    rw [unbanProxy, hp]
    exact FinMap.len_insert_of_notMem hnew p
  | _ => exact False.elim hadds

theorem Step.len_le {s t : SharedState} {e : Event} (h : s.Step e t) (hwhole : e.op.isWhole)
    (hadds : ¬s.AddsKey e.op) : t.proxies.len ≤ s.proxies.len := by
  cases h.effect with
  | kept hp _ _ =>
    apply FinMap.len_le_of_subset
    intro k hk
    obtain ⟨p', hk⟩ := FinMap.mem_iff.mp hk
    obtain ⟨p, hget, -⟩ := hp k p' hk
    exact FinMap.mem_of_get hget
  | inserted p hop hp _ =>
    obtain ⟨now, op, reply⟩ := e
    cases op with
    | addProxy payload =>
      obtain ⟨rfl, hnew⟩ := hop
      exact absurd hnew hadds
    | insertIfAbsent proxy => cases hwhole
    | addVerified proxy => cases hwhole
    | _ => exact False.elim hop
  | ban k p _ _ hp _ =>
    rw [hp]
    apply FinMap.len_le_of_subset
    intro j hj
    exact (FinMap.mem_remove.mp hj).2
  | unban k p hop _ hget hp _ =>
    rw [hop] at hadds
    have hin : p.key ∈ s.proxies := by
      by_contra hnew
      exact hadds ⟨p, hget, hnew⟩
    rw [hp, FinMap.len_insert_of_mem hin]

end SharedState

namespace Filling

def start (stickyTtlSecs : UInt64) (maxProxies : ℕ) (excludeCountries : List String) : Filling :=
  ⟨.withConfig stickyTtlSecs maxProxies excludeCountries, []⟩

/-- The state after one step; `none` where the call has not passed its check, where the
operation takes two steps, and where it panics. -/
def apply (f : Filling) (now : Clock) : FillOp → Option Filling
  | .checkLen proxy =>
    some (if f.pool.IsFull then f else { f with admitted := proxy :: f.admitted })
  | .enter proxy =>
    if proxy ∈ f.admitted then some ⟨f.pool.enter proxy, f.admitted.erase proxy⟩ else none
  | .other op =>
    if op.isWhole then (f.pool.apply now op).map fun r => { f with pool := r.2 } else none

def Step (f : Filling) (e : Clock × FillOp) (f' : Filling) : Prop := f.apply e.1 e.2 = some f'

/-- Whether the step, taken now, adds a key to the pool. -/
def AddsKey (f : Filling) : FillOp → Prop
  | .checkLen _ => False
  | .enter proxy => proxy.key ∉ f.pool.proxies
  | .other op => f.pool.AddsKey op

/-- A step that adds a key finds the pool below its limit. -/
def HasRoom (f : Filling) (e : Clock × FillOp) : Prop := f.AddsKey e.2 → ¬f.pool.IsFull

/-- What one step does to the limit and to the number of entries. -/
theorem Step.size {f f' : Filling} {e : Clock × FillOp} (h : f.Step e f') :
    f'.pool.maxProxies = f.pool.maxProxies ∧
      (f.AddsKey e.2 → f'.pool.proxies.len = f.pool.proxies.len + 1) ∧
      (¬f.AddsKey e.2 → f'.pool.proxies.len ≤ f.pool.proxies.len) := by
  obtain ⟨now, op⟩ := e
  cases op with
  | checkLen proxy =>
    obtain rfl := Option.some.inj h
    split_ifs
    · exact ⟨rfl, False.elim, fun _ => le_rfl⟩
    · exact ⟨rfl, False.elim, fun _ => le_rfl⟩
  | enter proxy =>
    obtain ⟨-, hf'⟩ := Option.ite_none_right_eq_some.mp h
    obtain rfl := Option.some.inj hf'
    by_cases hin : proxy.key ∈ f.pool.proxies
    · have hsame : f.pool.enter proxy = f.pool := if_pos hin
      rw [hsame]
      exact ⟨rfl, fun hnew => absurd hin hnew, fun _ => le_rfl⟩
    · have hnew : f.pool.enter proxy =
          { f.pool with proxies := f.pool.proxies.insert proxy.key proxy } := if_neg hin
      rw [hnew]
      exact ⟨rfl, fun _ => FinMap.len_insert_of_notMem hin proxy, fun h => absurd hin h⟩
  | other op =>
    obtain ⟨hwhole, hop⟩ := Option.ite_none_right_eq_some.mp h
    obtain ⟨⟨reply, t⟩, ht, rfl⟩ := Option.map_eq_some_iff.mp hop
    have hstep : f.pool.Step ⟨now, op, reply⟩ t := ht
    exact ⟨hstep.maxProxies, hstep.len_of_addsKey, hstep.len_le hwhole⟩

/-- After a step from a state within the limit, the limit holds exactly when there was room. -/
theorem Step.len_le_iff {f f' : Filling} {e : Clock × FillOp} (h : f.Step e f')
    (hm : 0 < f.pool.maxProxies) (hle : f.pool.proxies.len ≤ f.pool.maxProxies) :
    f'.pool.proxies.len ≤ f.pool.maxProxies ↔ f.HasRoom e := by
  obtain ⟨-, hadd, hkeep⟩ := h.size
  unfold HasRoom SharedState.IsFull
  by_cases hadds : f.AddsKey e.2
  · rw [hadd hadds]
    constructor
    · intro hlt _ hfull
      omega
    · intro hroom
      have := hroom hadds
      omega
  · exact iff_of_true ((hkeep hadds).trans hle) fun h => absurd h hadds

theorem Step.unique (f : Filling) (e : Clock × FillOp) (g g' : Filling) (h : f.Step e g)
    (h' : f.Step e g') : g = g' := Option.some.inj (h.symm.trans h')

/-- In a run from the empty pool the limit is never exceeded exactly when every step that adds a
key finds room for it. -/
theorem limit_holds_iff (ttl : UInt64) {maxProxies : ℕ} (countries : List String)
    (hm : 0 < maxProxies) {es : List (Clock × FillOp)} {f : Filling}
    (h : Runs.Run Step (start ttl maxProxies countries) es f) :
    (∀ before after g, es = before ++ after →
        Runs.Run Step (start ttl maxProxies countries) before g →
        g.pool.proxies.len ≤ maxProxies) ↔
      ∀ before e after g, es = before ++ e :: after →
        Runs.Run Step (start ttl maxProxies countries) before g → g.HasRoom e := by
  have hfixed : ∀ g e g', g.pool.maxProxies = maxProxies → Step g e g' →
      g'.pool.maxProxies = maxProxies := fun g e g' hg hstep => hstep.size.1.trans hg
  have hgood : ∀ g e g', g.pool.maxProxies = maxProxies → g.pool.proxies.len ≤ maxProxies →
      Step g e g' → (g'.pool.proxies.len ≤ maxProxies ↔ g.HasRoom e) := by
    rintro g e g' rfl hle hstep
    exact hstep.len_le_iff hm hle
  exact h.forall_good_iff Step.unique hfixed hgood rfl (Nat.zero_le _)

/-! A limit of one, and two proxies. -/

def checkFirst : Clock × FillOp := (⟨0, 0⟩, .checkLen (.new "1.1.1.1" 80 .http))

def checkSecond : Clock × FillOp := (⟨0, 0⟩, .checkLen (.new "2.2.2.2" 80 .http))

def enterFirst : Clock × FillOp := (⟨0, 0⟩, .enter (.new "1.1.1.1" 80 .http))

def enterSecond : Clock × FillOp := (⟨0, 0⟩, .enter (.new "2.2.2.2" 80 .http))

def addSecond : Clock × FillOp := (⟨0, 0⟩, .other (.addProxy ⟨"2.2.2.2", 80, none⟩))

/-- One insertion, both of its steps, stays within the limit. -/
theorem limit_holds_one : ∃ f, Runs.Run Step (start 300 1 []) [checkFirst, enterFirst] f ∧
    ∀ before after g, [checkFirst, enterFirst] = before ++ after →
      Runs.Run Step (start 300 1 []) before g → g.pool.proxies.len ≤ 1 := by
  have hrun : ∃ f, Runs.Run Step (start 300 1 []) [checkFirst, enterFirst] f :=
    ⟨_, .cons rfl (.single rfl)⟩
  obtain ⟨f, hrun⟩ := hrun
  refine ⟨f, hrun, (limit_holds_iff 300 [] Nat.one_pos hrun).mpr ?_⟩
  intro before e after g heq hg hadds
  match before with
  | [] =>
    obtain ⟨rfl, -⟩ := List.cons.inj heq
    exact False.elim hadds
  | [_] =>
    obtain ⟨rfl, -⟩ := List.cons.inj heq
    have hg' : g = ⟨.withConfig 300 1 [], [.new "1.1.1.1" 80 .http]⟩ :=
      hg.unique Step.unique (.single rfl)
    rw [hg']
    decide
  | _ :: _ :: _ => simp at heq

/-- Two sources that both compare the length before either inserts, and an addition by hand,
which compares nothing: each leaves two proxies in a pool for one. -/
theorem limit_exceeded :
    (∃ f, Runs.Run Step (start 300 1 []) [checkFirst, checkSecond, enterFirst, enterSecond] f ∧
      f.pool.proxies.len = 2) ∧
    ∃ f, Runs.Run Step (start 300 1 []) [checkFirst, enterFirst, addSecond] f ∧
      f.pool.proxies.len = 2 := by
  constructor
  · exact ⟨_, .cons rfl (.cons rfl (.cons rfl (.single rfl))), by decide⟩
  · exact ⟨_, .cons rfl (.cons rfl (.single rfl)), by decide⟩

end Filling

end VpnGateway
