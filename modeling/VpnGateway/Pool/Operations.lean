import VpnGateway.Api.Web
import VpnGateway.Core.Runs

/-! The gateway as a step relation: every operation that source refreshes, health checks,
client connections, the web API and the config loop run on the shared state. -/
namespace VpnGateway

inductive Op where
  | insertIfAbsent (proxy : Proxy)
  | addVerified (proxy : Proxy)
  | addProxy (payload : AddProxyRequest)
  | banProxy (proxyKey : String)
  | unbanProxy (proxyKey : String)
  | recordSuccess (key : String) (latencyMs : F64)
  | recordFail (key : String)
  | setTlsClean (key : String) (clean : Bool)
  | geoipResult (key country : String)
  | cleanupStale
  | reloadConfig (stickyTtlSecs : UInt64) (excludeCountries : List String)
  | stickyGet (peer : SocketAddr)
  | setOrTouch (peer : SocketAddr) (key : String)
  | cleanupSessions

/-- The record update an operation makes, and the key it makes it under. -/
def Op.update : Op → Option (String × Update)
  | .recordSuccess key latencyMs => some (key, .recordSuccess latencyMs)
  | .recordFail key => some (key, .recordFail)
  | .setTlsClean key clean => some (key, .setTlsClean clean)
  | .geoipResult key country => some (key, .setCountry country)
  | _ => none

/-- The operations that update the record under a key, each with its update. -/
inductive Op.Updates (k : String) : Op → Update → Prop where
  | recordSuccess (latencyMs : F64) :
      Updates k (.recordSuccess k latencyMs) (.recordSuccess latencyMs)
  | recordFail : Updates k (.recordFail k) .recordFail
  | setTlsClean (clean : Bool) : Updates k (.setTlsClean k clean) (.setTlsClean clean)
  | geoipResult (country : String) : Updates k (.geoipResult k country) (.setCountry country)

theorem Op.updates {op : Op} {k : String} {u : Update} (h : op.update = some (k, u)) :
    op.Updates k u := by
  cases op with
  | recordSuccess key latencyMs =>
    obtain ⟨rfl, rfl⟩ := Prod.mk.inj (Option.some.inj h)
    exact .recordSuccess latencyMs
  | recordFail key =>
    obtain ⟨rfl, rfl⟩ := Prod.mk.inj (Option.some.inj h)
    exact .recordFail
  | setTlsClean key clean =>
    obtain ⟨rfl, rfl⟩ := Prod.mk.inj (Option.some.inj h)
    exact .setTlsClean clean
  | geoipResult key country =>
    obtain ⟨rfl, rfl⟩ := Prod.mk.inj (Option.some.inj h)
    exact .geoipResult country
  | _ => cases h

/-- One operation with the clocks it reads and what the API answers. -/
structure Event where
  now : Clock
  op : Op
  reply : Option ApiResponse

/-- Whether the API reported that it did what was asked. -/
def Event.Succeeds (e : Event) : Prop := ∃ message, e.reply = some ⟨true, message⟩

namespace SharedState

/-- The state after an operation; `none` where it panics. -/
def apply (s : SharedState) (now : Clock) : Op → Option (Option ApiResponse × SharedState)
  | .insertIfAbsent proxy => some (none, (s.insertIfAbsent proxy).2)
  | .addVerified proxy => some (none, s.addVerified proxy)
  | .addProxy payload => some (some (s.addProxy payload).1, (s.addProxy payload).2)
  | .banProxy proxyKey => some (some (s.banProxy proxyKey).1, (s.banProxy proxyKey).2)
  | .unbanProxy proxyKey => some (some (s.unbanProxy proxyKey).1, (s.unbanProxy proxyKey).2)
  | .recordSuccess key latencyMs => some (none, s.recordSuccess now key latencyMs)
  | .recordFail key => some (none, s.recordFail now key)
  | .setTlsClean key clean => some (none, s.setTlsClean key clean)
  | .geoipResult key country => some (none, s.geoipResult key country)
  | .cleanupStale => some (none, s.cleanupStale now)
  | .reloadConfig ttl countries => some (none, s.reloadConfig ttl countries)
  | .stickyGet peer => (s.stickyGet now peer).map fun r => (none, r.2)
  | .setOrTouch peer key => some (none, s.setOrTouch now peer key)
  | .cleanupSessions => (s.cleanupSessions now).map fun t => (none, t)

def Step (s : SharedState) (e : Event) (t : SharedState) : Prop :=
  s.apply e.now e.op = some (e.reply, t)

/-- Run operations in order, all at one time. -/
def applyAll (now : Clock) : SharedState → List Op → Option SharedState
  | s, [] => some s
  | s, op :: ops => (s.apply now op).bind fun r => applyAll now r.2 ops

theorem run_of_applyAll {now : Clock} {s t : SharedState} {ops : List Op}
    (h : applyAll now s ops = some t) :
    ∃ es : List Event, es.map (·.op) = ops ∧ Runs.Run Step s es t := by
  induction ops generalizing s with
  | nil =>
    obtain rfl := Option.some.inj h
    exact ⟨[], rfl, .nil s⟩
  | cons op ops ih =>
    obtain ⟨⟨reply, u⟩, hu, hrest⟩ := Option.bind_eq_some_iff.mp h
    obtain ⟨es, hes, hrun⟩ := ih hrest
    exact ⟨⟨now, op, reply⟩ :: es, by rw [List.map_cons, hes], .cons hu hrun⟩

/-- Whether the operation, run now, puts this record into the pool under its own key. -/
def Inserts (s : SharedState) (proxy : Proxy) : Op → Prop
  | .insertIfAbsent p => p = proxy ∧ ¬ s.IsFull ∧ proxy.key ∉ s.proxies
  | .addVerified p => { p with status := some .verified } = proxy
  | .addProxy payload => payload.proxy = proxy ∧ proxy.key ∉ s.proxies
  | _ => False

/-- What one operation can do to the pool and to the ban list. -/
inductive PoolEffect (s : SharedState) (e : Event) (t : SharedState) : Prop where
  | kept
      (hproxies : ∀ k p', t.proxies.get k = some p' → ∃ p, s.proxies.get k = some p ∧
        (p' = p ∨ ∃ u, e.op.update = some (k, u) ∧ p' = u.apply p e.now))
      (hbanned : t.banned = s.banned)
      (hreply : ∀ k, e.op = .banProxy k ∨ e.op = .unbanProxy k → ¬ e.Succeeds)
  | inserted (p : Proxy) (hop : s.Inserts p e.op)
      (hproxies : t.proxies = s.proxies.insert p.key p) (hbanned : t.banned = s.banned)
  | ban (k : String) (p : Proxy) (hop : e.op = .banProxy k) (hp : s.proxies.get k = some p)
      (hproxies : t.proxies = s.proxies.remove k) (hbanned : t.banned = s.banned.insert k p)
  | unban (k : String) (p : Proxy) (hop : e.op = .unbanProxy k) (hreply : e.Succeeds)
      (hp : s.banned.get k = some p) (hproxies : t.proxies = s.proxies.insert p.key p)
      (hbanned : t.banned = s.banned.remove k)

theorem PoolEffect.of_eq {s t : SharedState} {e : Event} (hproxies : t.proxies = s.proxies)
    (hbanned : t.banned = s.banned)
    (hreply : ∀ k, e.op = .banProxy k ∨ e.op = .unbanProxy k → ¬ e.Succeeds) :
    s.PoolEffect e t :=
  .kept (fun _ p' hp => ⟨p', hproxies ▸ hp, Or.inl rfl⟩) hbanned hreply

theorem PoolEffect.of_modify {s t : SharedState} {e : Event} {key : String} {u : Update}
    (hproxies : t.proxies = s.proxies.modify key (u.apply · e.now))
    (hop : e.op.update = some (key, u)) (hbanned : t.banned = s.banned)
    (hreply : ∀ k, e.op = .banProxy k ∨ e.op = .unbanProxy k → ¬ e.Succeeds) :
    s.PoolEffect e t := by
  refine .kept (fun k p' hp => ?_) hbanned hreply
  rw [hproxies] at hp
  obtain ⟨p, hget, rfl | ⟨rfl, rfl⟩⟩ := FinMap.get_modify_some hp
  · exact ⟨p', hget, Or.inl rfl⟩
  · exact ⟨p, hget, Or.inr ⟨u, hop, rfl⟩⟩

/-- Every operation has one of these effects. -/
theorem Step.effect {s t : SharedState} {e : Event} (h : s.Step e t) : s.PoolEffect e t := by
  obtain ⟨now, op, reply⟩ := e
  cases op with
  | insertIfAbsent proxy =>
    obtain ⟨rfl, rfl⟩ := Prod.mk.inj (Option.some.inj h)
    by_cases hfull : s.IsFull
    · exact .of_eq (by simp [insertIfAbsent, hfull]) (insertIfAbsent_banned s proxy) (by simp)
    by_cases hin : proxy.key ∈ s.proxies
    · exact .of_eq (by simp [insertIfAbsent, hin]) (insertIfAbsent_banned s proxy) (by simp)
    · exact .inserted proxy ⟨rfl, hfull, hin⟩ (by simp [insertIfAbsent, hfull, hin])
        (insertIfAbsent_banned s proxy)
  | addVerified proxy =>
    obtain ⟨rfl, rfl⟩ := Prod.mk.inj (Option.some.inj h)
    exact .inserted _ rfl rfl rfl
  | addProxy payload =>
    obtain ⟨rfl, rfl⟩ := Prod.mk.inj (Option.some.inj h)
    rcases s.addProxy_cases payload with ⟨m, hm⟩ | ⟨hin, m, hm⟩
    · exact .of_eq (by rw [hm]) (by rw [hm]) (by simp)
    · exact .inserted payload.proxy ⟨rfl, hin⟩ (by rw [hm]; rfl) (by rw [hm])
  | banProxy k =>
    obtain ⟨rfl, rfl⟩ := Prod.mk.inj (Option.some.inj h)
    rcases s.banProxy_cases k with ⟨m, hm⟩ | ⟨p, m, hp, hm⟩
    · exact .of_eq (by rw [hm]) (by rw [hm]) (by simp [Event.Succeeds, hm])
    · exact .ban k p rfl hp (by rw [hm]) (by rw [hm])
  | unbanProxy k =>
    obtain ⟨rfl, rfl⟩ := Prod.mk.inj (Option.some.inj h)
    rcases s.unbanProxy_cases k with ⟨-, m, hm⟩ | ⟨p, m, hp, hm⟩
    · exact .of_eq (by rw [hm]) (by rw [hm]) (by simp [Event.Succeeds, hm])
    · exact .unban k p rfl ⟨m, by rw [hm]⟩ hp (by rw [hm]) (by rw [hm])
  | recordSuccess key latencyMs =>
    obtain ⟨rfl, rfl⟩ := Prod.mk.inj (Option.some.inj h)
    exact .of_modify rfl rfl rfl (by simp)
  | recordFail key =>
    obtain ⟨rfl, rfl⟩ := Prod.mk.inj (Option.some.inj h)
    exact .of_modify rfl rfl rfl (by simp)
  | setTlsClean key clean =>
    obtain ⟨rfl, rfl⟩ := Prod.mk.inj (Option.some.inj h)
    exact .of_modify rfl rfl rfl (by simp)
  | geoipResult key country =>
    obtain ⟨rfl, rfl⟩ := Prod.mk.inj (Option.some.inj h)
    exact .of_modify rfl rfl rfl (by simp)
  | cleanupStale =>
    obtain ⟨rfl, rfl⟩ := Prod.mk.inj (Option.some.inj h)
    exact .kept (fun k p hp => ⟨p, (FinMap.get_retain_some.mp hp).1, Or.inl rfl⟩) rfl (by simp)
  | reloadConfig ttl countries =>
    obtain ⟨rfl, rfl⟩ := Prod.mk.inj (Option.some.inj h)
    exact .of_eq rfl rfl (by simp)
  | stickyGet peer =>
    obtain ⟨r, hr, hrt⟩ := Option.map_eq_some_iff.mp h
    obtain ⟨rfl, rfl⟩ := Prod.mk.inj hrt
    obtain ⟨q, -, rfl⟩ := Option.map_eq_some_iff.mp hr
    exact .of_eq rfl rfl (by simp)
  | setOrTouch peer key =>
    obtain ⟨rfl, rfl⟩ := Prod.mk.inj (Option.some.inj h)
    exact .of_eq rfl rfl (by simp)
  | cleanupSessions =>
    obtain ⟨r, hr, hrt⟩ := Option.map_eq_some_iff.mp h
    obtain ⟨rfl, rfl⟩ := Prod.mk.inj hrt
    obtain ⟨q, -, rfl⟩ := Option.map_eq_some_iff.mp hr
    exact .of_eq rfl rfl (by simp)

/-- No operation changes the limit, and only a lookup writes the country index. -/
theorem Step.frame {s t : SharedState} {e : Event} (h : s.Step e t) :
    t.maxProxies = s.maxProxies ∧
      ((∀ k country, e.op ≠ .geoipResult k country) → t.geoIndex = s.geoIndex) := by
  obtain ⟨now, op, reply⟩ := e
  cases op with
  | insertIfAbsent proxy =>
    obtain ⟨rfl, rfl⟩ := Prod.mk.inj (Option.some.inj h)
    unfold insertIfAbsent
    split_ifs <;> exact ⟨rfl, fun _ => rfl⟩
  | addProxy payload =>
    obtain ⟨rfl, rfl⟩ := Prod.mk.inj (Option.some.inj h)
    rcases s.addProxy_cases payload with ⟨m, hm⟩ | ⟨-, m, hm⟩ <;> simp [hm]
  | banProxy k =>
    obtain ⟨rfl, rfl⟩ := Prod.mk.inj (Option.some.inj h)
    rcases s.banProxy_cases k with ⟨m, hm⟩ | ⟨p, m, -, hm⟩ <;> simp [hm]
  | unbanProxy k =>
    obtain ⟨rfl, rfl⟩ := Prod.mk.inj (Option.some.inj h)
    rcases s.unbanProxy_cases k with ⟨-, m, hm⟩ | ⟨p, m, -, hm⟩ <;> simp [hm]
  | geoipResult k country =>
    obtain ⟨rfl, rfl⟩ := Prod.mk.inj (Option.some.inj h)
    exact ⟨rfl, fun hop => absurd rfl (hop k country)⟩
  | stickyGet peer =>
    obtain ⟨r, hr, hrt⟩ := Option.map_eq_some_iff.mp h
    obtain ⟨rfl, rfl⟩ := Prod.mk.inj hrt
    obtain ⟨q, -, rfl⟩ := Option.map_eq_some_iff.mp hr
    exact ⟨rfl, fun _ => rfl⟩
  | cleanupSessions =>
    obtain ⟨r, hr, hrt⟩ := Option.map_eq_some_iff.mp h
    obtain ⟨rfl, rfl⟩ := Prod.mk.inj hrt
    obtain ⟨q, -, rfl⟩ := Option.map_eq_some_iff.mp hr
    exact ⟨rfl, fun _ => rfl⟩
  | _ =>
    obtain ⟨rfl, rfl⟩ := Prod.mk.inj (Option.some.inj h)
    exact ⟨rfl, fun _ => rfl⟩

theorem Step.maxProxies {s t : SharedState} {e : Event} (h : s.Step e t) :
    t.maxProxies = s.maxProxies :=
  h.frame.1

theorem Step.geoIndex {s t : SharedState} {e : Event} (h : s.Step e t)
    (hop : ∀ k country, e.op ≠ .geoipResult k country) : t.geoIndex = s.geoIndex :=
  h.frame.2 hop

/-- What one operation can do to the session table. -/
inductive TableEffect (s : SharedState) (e : Event) (t : SharedState) : Prop where
  | kept (hop : ∀ peer key, e.op ≠ .setOrTouch peer key)
      (htable : t.stickySessions.sessions = s.stickySessions.sessions)
  | lookup (peer : SocketAddr) (answer : Option String) (hop : e.op = .stickyGet peer)
      (htable : s.stickySessions.get e.now peer = some (answer, t.stickySessions))
  | touch (peer : SocketAddr) (key : String) (hop : e.op = .setOrTouch peer key)
      (htable : t.stickySessions = s.stickySessions.setOrTouch e.now peer key)
  | sweep (hop : e.op = .cleanupSessions)
      (htable : s.stickySessions.cleanup e.now = some t.stickySessions)

/-- Lookups, successes and the clean-up change the table, and nothing else does. -/
theorem Step.tableEffect {s t : SharedState} {e : Event} (h : s.Step e t) : s.TableEffect e t := by
  obtain ⟨now, op, reply⟩ := e
  cases op with
  | insertIfAbsent proxy =>
    obtain ⟨rfl, rfl⟩ := Prod.mk.inj (Option.some.inj h)
    exact .kept (by simp) (by unfold insertIfAbsent; split_ifs <;> rfl)
  | addProxy payload =>
    obtain ⟨rfl, rfl⟩ := Prod.mk.inj (Option.some.inj h)
    rcases s.addProxy_cases payload with ⟨m, hm⟩ | ⟨-, m, hm⟩ <;>
      exact .kept (by simp) (by rw [hm])
  | banProxy k =>
    obtain ⟨rfl, rfl⟩ := Prod.mk.inj (Option.some.inj h)
    rcases s.banProxy_cases k with ⟨m, hm⟩ | ⟨p, m, -, hm⟩ <;> exact .kept (by simp) (by rw [hm])
  | unbanProxy k =>
    obtain ⟨rfl, rfl⟩ := Prod.mk.inj (Option.some.inj h)
    rcases s.unbanProxy_cases k with ⟨-, m, hm⟩ | ⟨p, m, -, hm⟩ <;>
      exact .kept (by simp) (by rw [hm])
  | stickyGet peer =>
    obtain ⟨r, hr, hrt⟩ := Option.map_eq_some_iff.mp h
    obtain ⟨rfl, rfl⟩ := Prod.mk.inj hrt
    obtain ⟨⟨answer, m⟩, hm, rfl⟩ := Option.map_eq_some_iff.mp hr
    exact .lookup peer answer rfl hm
  | setOrTouch peer key =>
    obtain ⟨rfl, rfl⟩ := Prod.mk.inj (Option.some.inj h)
    exact .touch peer key rfl rfl
  | cleanupSessions =>
    obtain ⟨r, hr, hrt⟩ := Option.map_eq_some_iff.mp h
    obtain ⟨rfl, rfl⟩ := Prod.mk.inj hrt
    obtain ⟨m, hm, rfl⟩ := Option.map_eq_some_iff.mp hr
    exact .sweep rfl hm
  | _ =>
    obtain ⟨rfl, rfl⟩ := Prod.mk.inj (Option.some.inj h)
    exact .kept (by simp) rfl

/-- An operation that updates a record changes nothing else in the pool. -/
theorem Step.proxies_of_update {s t : SharedState} {e : Event} {k : String} {u : Update}
    (h : s.Step e t) (hop : e.op.update = some (k, u)) :
    t.proxies = s.proxies.modify k (u.apply · e.now) := by
  obtain ⟨now, op, reply⟩ := e
  cases Op.updates hop with
  | recordSuccess latencyMs | recordFail | setTlsClean clean | geoipResult country =>
    obtain ⟨rfl, rfl⟩ := Prod.mk.inj (Option.some.inj h)
    rfl

/-- What holds of every stored record: updates keep it, inserted records have it, and a record
that is unbanned has it under its own key. -/
theorem Step.forall_records {s t : SharedState} {e : Event} {P : String → Proxy → Prop}
    (h : s.Step e t)
    (hupdate : ∀ k u p, e.op.update = some (k, u) → s.proxies.get k = some p → P k p →
      P k (u.apply p e.now))
    (hinsert : ∀ p, s.Inserts p e.op → P p.key p) (hrekey : ∀ k p, P k p → P p.key p)
    (hlive : ∀ k p, s.proxies.get k = some p → P k p)
    (hbanned : ∀ k p, s.banned.get k = some p → P k p) :
    (∀ k p, t.proxies.get k = some p → P k p) ∧ ∀ k p, t.banned.get k = some p → P k p := by
  cases h.effect with
  | kept hp hb _ =>
    refine ⟨fun k p' hk => ?_, by rwa [hb]⟩
    obtain ⟨p, hget, rfl | ⟨u, hu, rfl⟩⟩ := hp k p' hk
    · exact hlive k p' hget
    · exact hupdate k u p hu hget (hlive k p hget)
  | inserted p hop hp hb =>
    rw [hp, hb]
    exact ⟨FinMap.forall_insert hlive (hinsert p hop), hbanned⟩
  | ban k p _ hget hp hb =>
    rw [hp, hb]
    exact ⟨FinMap.forall_remove hlive, FinMap.forall_insert hbanned (hlive k p hget)⟩
  | unban k p _ _ hget hp hb =>
    rw [hp, hb]
    exact ⟨FinMap.forall_insert hlive (hrekey k p (hbanned k p hget)),
      FinMap.forall_remove hbanned⟩

end SharedState

end VpnGateway
