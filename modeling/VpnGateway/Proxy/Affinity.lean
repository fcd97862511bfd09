import VpnGateway.Proxy.Transparent

/-! Affinity between two connections of one client: the session of the first one, what keeps
it until the second one, and which second connections find it. -/
namespace VpnGateway

namespace StickySessionManager

/-- The session answers a lookup at this time. -/
def Live (m : StickySessionManager) (now : Clock) (session : StickySession) : Prop :=
  ∃ ttl oldest, effectiveTtl m.ttlSecs session.successCount = some ttl ∧
    DateTime.sub now.utc ttl = some oldest ∧ ¬ session.lastAccess < oldest

/-- The session is younger than its effective TTL. -/
def Young (m : StickySessionManager) (now : Clock) (session : StickySession) : Prop :=
  ∃ ttl, effectiveTtl m.ttlSecs session.successCount = some ttl ∧
    now.utc - session.lastAccess < ttl

/-- The dates that a lookup of the session computes can be represented. -/
def DatesFit (m : StickySessionManager) (now : Clock) (session : StickySession) : Prop :=
  ∃ ttl oldest, effectiveTtl m.ttlSecs session.successCount = some ttl ∧
    DateTime.sub now.utc ttl = some oldest

theorem live_of_young {m : StickySessionManager} {now : Clock} {session : StickySession}
    (hy : m.Young now session) (hd : m.DatesFit now session) : m.Live now session := by
  obtain ⟨ttl, httl, hlt⟩ := hy
  obtain ⟨ttl', oldest, httl', hsub⟩ := hd
  obtain rfl : ttl = ttl' := Option.some.inj (httl.symm.trans httl')
  exact ⟨ttl, oldest, httl, hsub, DateTime.not_lt_of_sub hsub hlt⟩

/-- A lookup answers with a key exactly when a live session names it. -/
theorem get_eq_some_iff {m : StickySessionManager} {now : Clock} {peer : SocketAddr}
    {key : String} : (∃ m', m.get now peer = some (some key, m')) ↔
      ∃ session, m.sessions.get peer = some session ∧ session.proxyKey = key ∧
        m.Live now session := by
  unfold get Live
  cases hs : m.sessions.get peer with
  | none => simp
  | some session =>
    simp only [Option.bind_eq_some_iff, Option.some.injEq]
    constructor
    · rintro ⟨m', ttl, httl, oldest, hsub, h⟩
      split_ifs at h with hold
      · simp at h
      · simp only [Option.some.injEq, Prod.mk.injEq] at h
        exact ⟨session, rfl, h.1, ttl, oldest, httl, hsub, hold⟩
    · rintro ⟨_, rfl, rfl, ttl, oldest, httl, hsub, hold⟩
      exact ⟨m, ttl, httl, oldest, hsub, if_neg hold⟩

end StickySessionManager

namespace SharedState

/-- The state after a connection from `peer` succeeded through the proxy under `key`. -/
def connected (s : SharedState) (now : Clock) (peer : SocketAddr) (key : String)
    (latencyMs : F64) : SharedState :=
  (s.recordSuccess now key latencyMs).setOrTouch now peer key

/-- No connection of this IP, and the session of `peer` has not run out yet. -/
def Quiet (peer : SocketAddr) (s : SharedState) (e : Event) : Prop :=
  (∀ q, e.op = .stickyGet q → q.ip ≠ peer.ip) ∧
    (∀ q key, e.op = .setOrTouch q key → q.ip ≠ peer.ip) ∧
    ∀ session, s.stickySessions.sessions.get peer = some session →
      s.stickySessions.Young e.now session

/-- Other clients' connections, clean-ups and everything else leave the session alone. -/
theorem Step.keeps_session {s t : SharedState} {e : Event} {peer : SocketAddr}
    {session : StickySession} (h : s.Step e t) (hq : Quiet peer s e)
    (hs : s.stickySessions.sessions.get peer = some session) :
    t.stickySessions.sessions.get peer = some session := by
  obtain ⟨hget, htouch, hyoung⟩ := hq
  cases h.tableEffect with
  | kept _ htable => rw [htable, hs]
  | lookup q answer hop htable =>
    have hne : peer ≠ q := fun heq => hget q hop (heq ▸ rfl)
    exact (StickySessionManager.get_sessions_of_ne htable hne).trans hs
  | touch q key hop htable =>
    have hne : peer ≠ q := fun heq => htouch q key hop (heq ▸ rfl)
    rw [htable]
    exact (StickySessionManager.get_setOrTouch_of_ne _ e.now key hne).trans hs
  | sweep _ htable =>
    obtain ⟨ttl, httl, hlt⟩ := hyoung session hs
    exact StickySessionManager.cleanup_get_of_young htable hs httl hlt

theorem run_keeps_session {s t : SharedState} {es : List Event} {peer : SocketAddr}
    {session : StickySession} (h : Runs.Run (Runs.Guarded Step (Quiet peer)) s es t)
    (hs : s.stickySessions.sessions.get peer = some session) :
    t.stickySessions.sessions.get peer = some session := by
  let Kept : SharedState → Prop := fun u => u.stickySessions.sessions.get peer = some session
  have hstep : ∀ u e v, Kept u → Runs.Guarded Step (Quiet peer) u e v → Kept v :=
    fun _ _ _ hu hstep => hstep.2.keeps_session hstep.1 hu
  exact h.invariant hstep hs

/-- The first attempt goes through the live session's proxy, if the pool still has it and it is
clean where that matters. -/
theorem attemptChoice_of_live {s : SharedState} {c : s.Choice} {peer : SocketAddr}
    {targetPort : UInt16} {session : StickySession} {p : Proxy}
    (hs : s.stickySessions.sessions.get peer = some session)
    (hlive : s.stickySessions.Live c.now session) (hp : s.proxies.get session.proxyKey = some p)
    (htls : targetPort = 443 → p.tlsClean = some true) :
    s.attemptChoice c peer targetPort 0 = some (some p) := by
  obtain ⟨m', hm'⟩ := StickySessionManager.get_eq_some_iff.mpr ⟨session, hs, rfl, hlive⟩
  refine attemptChoice_eq_some.mpr (Or.inl ⟨session.proxyKey, ?_, hp⟩)
  by_cases h443 : targetPort = 443 <;> simp [storedKey, stickyKey, hm', hp, isHttps, h443, htls]

/-- Two proxies are in the pool, both verified, clean and usable; the session table is that of
`s`. -/
def twoProxyPool (s : SharedState) (p q : Proxy) : SharedState :=
  { s with
    proxies := (FinMap.empty.insert p.key p).insert q.key q
    excludeCountries := [] }

theorem key_of_twoProxyPool {s : SharedState} {p q r : Proxy} {k : String}
    (h : (s.twoProxyPool p q).proxies.get k = some r) : r.key = k := by
  have hp : ∀ j w, (FinMap.empty.insert p.key p).get j = some w → w.key = j :=
    FinMap.forall_insert (by simp) rfl
  exact FinMap.forall_insert hp rfl k r h

def healthy (host : String) (port : UInt16) : Proxy :=
  { Proxy.new host port .http with status := some .verified, tlsClean := some true }

theorem key_ne_of_append (host : String) (port : UInt16) :
    (healthy host port).key ≠ (healthy (host ++ "x") port).key := by
  intro h
  have hlen := congrArg String.length h
  simp [Proxy.key, healthy, Proxy.new, String.length_append, toString] at hlen

/-- Without a live session that names the proxy, some attempt passes it over. -/
theorem exists_other_choice {s : SharedState} {now : Clock} {peer : SocketAddr}
    (targetPort : UInt16) {host : String} {port : UInt16}
    (hnot : ¬ ∃ session, s.stickySessions.sessions.get peer = some session ∧
      session.proxyKey = (healthy host port).key ∧ s.stickySessions.Live now session) :
    ∃ c : (s.twoProxyPool (healthy host port) (healthy (host ++ "x") port)).Choice, c.now = now ∧
      (s.twoProxyPool (healthy host port) (healthy (host ++ "x") port)).attemptChoice c peer
        targetPort 0 ≠ some (some (healthy host port)) := by
  have hne := key_ne_of_append host port
  generalize hother : healthy (host ++ "x") port = other at hne ⊢
  generalize hp : healthy host port = p at hne hnot ⊢
  let u := s.twoProxyPool p other
  have hget : u.proxies.get other.key = some other := FinMap.get_insert_self _ _ _
  have hdiff : other ≠ p := fun h => hne (h ▸ rfl)
  have hlen : u.proxies.len < 10 := by
    have h₁ := FinMap.len_insert_le (FinMap.empty.insert p.key p) other.key other
    have h₂ := FinMap.len_insert_le FinMap.empty p.key p
    have h₀ : (FinMap.empty : FinMap String Proxy).len = 0 := rfl
    exact (h₁.trans (Nat.add_le_add_right h₂ 1)).trans_lt (by rw [h₀]; norm_num)
  have husable : u.isUsable now other := by
    subst hother
    rfl
  obtain ⟨c, hc, hfresh⟩ := exists_freshSelection_eq targetPort hlen hget husable
    (by subst hother; rfl) (by subst hother; rfl)
  refine ⟨c, hc, fun hchoice => ?_⟩
  rcases attemptChoice_eq_some.mp hchoice with ⟨key, hkey, hkp⟩ | ⟨-, hp'⟩
  · -- the session key leads to `p` only if it is the key of `p`
    have hkeyp : key = p.key := by
      by_contra hkp'
      by_cases hko : key = other.key
      · rw [hko, hget, Option.some.injEq] at hkp
        exact hdiff hkp
      · have : u.proxies.get key = none := by
          simp [u, twoProxyPool, FinMap.get_insert, hkp', hko]
        rw [this] at hkp
        cases hkp
    obtain ⟨⟨answer, m'⟩, hm', hans⟩ := Option.map_eq_some_iff.mp hkey
    obtain rfl : answer = some key := (Option.filter_eq_some_iff.mp hans).1
    rw [hkeyp, hc] at hm'
    exact hnot (StickySessionManager.get_eq_some_iff.mp ⟨m', hm'⟩)
  · rw [hfresh, Option.some.injEq] at hp'
    exact hdiff hp'

/-- After a connection from port `p₁` that succeeded through a proxy, and before its session
runs out, a connection of the same IP from port `p₂` goes through that proxy first, whatever
the pool and the draw, exactly when the port is the same and the dates fit, or the other port
has a live session of its own that names the proxy. -/
theorem affinity_iff (a : IpAddr) (p₁ p₂ : UInt16) (host : String) (port targetPort : UInt16)
    (s : SharedState) (now₁ now₂ : Clock) (latencyMs : F64) (es : List Event) (s₂ : SharedState)
    (hrun : Runs.Run (Runs.Guarded Step (Quiet ⟨a, p₁⟩))
      (s.connected now₁ ⟨a, p₁⟩ s!"{host}:{port}" latencyMs) es s₂)
    (hyoung : ∀ session, s₂.stickySessions.sessions.get ⟨a, p₁⟩ = some session →
      s₂.stickySessions.Young now₂ session) :
    (∀ (u : SharedState) (c : u.Choice) (q : Proxy), u.stickySessions = s₂.stickySessions →
      c.now = now₂ → (∀ k p, u.proxies.get k = some p → p.key = k) →
      u.proxies.get s!"{host}:{port}" = some q → (targetPort = 443 → q.tlsClean = some true) →
      u.attemptChoice c ⟨a, p₂⟩ targetPort 0 = some (some q)) ↔
    (p₂ = p₁ ∧ ∃ session, s₂.stickySessions.sessions.get ⟨a, p₁⟩ = some session ∧
      s₂.stickySessions.DatesFit now₂ session) ∨
    ∃ session, s₂.stickySessions.sessions.get ⟨a, p₂⟩ = some session ∧
      session.proxyKey = s!"{host}:{port}" ∧ s₂.stickySessions.Live now₂ session := by
  constructor
  · intro h
    by_contra hnot
    obtain ⟨-, hnot⟩ := not_or.mp hnot
    obtain ⟨c, hc, hne⟩ := exists_other_choice targetPort hnot
    refine hne (h _ c (healthy host port) rfl hc (fun _ _ => key_of_twoProxyPool) ?_ fun _ => rfl)
    show (s₂.twoProxyPool _ _).proxies.get (healthy host port).key = some (healthy host port)
    rw [twoProxyPool, FinMap.get_insert_of_ne _ _ (key_ne_of_append host port)]
    exact FinMap.get_insert_self _ _ _
  · intro h u c q hu hc _ hq htls
    obtain ⟨session, hs, hkey, hlive⟩ : ∃ session,
        s₂.stickySessions.sessions.get ⟨a, p₂⟩ = some session ∧
          session.proxyKey = s!"{host}:{port}" ∧ s₂.stickySessions.Live now₂ session := by
      rcases h with ⟨rfl, session, hs, hfit⟩ | h
      · obtain ⟨first, hfirst, hkey, -⟩ := StickySessionManager.get_setOrTouch_self
          (s.recordSuccess now₁ s!"{host}:{port}" latencyMs).stickySessions now₁ ⟨a, p₂⟩
          s!"{host}:{port}"
        have hkept := run_keeps_session hrun hfirst
        obtain rfl : first = session := Option.some.inj (hkept.symm.trans hs)
        exact ⟨first, hs, hkey, StickySessionManager.live_of_young (hyoung first hs) hfit⟩
      · exact h
    rw [← hu] at hs hlive
    exact attemptChoice_of_live hs (hc ▸ hlive) (hkey ▸ hq) htls

/-- A minute after the first connection. -/
def minuteLater : Clock := ⟨fromSecs 60, 60000000000⟩

theorem young_first {s : SharedState} (hs : s.stickySessions.ttlSecs = 300) :
    s.stickySessions.Young minuteLater ⟨client, "1.1.1.1:80", none, 0, 0, 1⟩ :=
  ⟨300000000000, by rw [hs]; decide, by decide⟩

/-- Two healthy proxies, and a client that was just served by the first one. -/
def served : SharedState :=
  ((withConfig 300 5000 []).twoProxyPool (healthy "1.1.1.1" 80) (healthy "2.2.2.2" 80)).connected
    epoch client "1.1.1.1:80" (.finite 100)

/-- A second connection from the same port goes through the first one's proxy again. -/
theorem affinity_same_port : ∃ (c : served.Choice) (q : Proxy),
    served.proxies.get "1.1.1.1:80" = some q ∧
      served.attemptChoice c client 443 0 = some (some q) := by
  have hyoung : ∀ session, served.stickySessions.sessions.get client = some session →
      served.stickySessions.Young minuteLater session := by
    intro session hs
    obtain rfl := Option.some.inj hs
    exact young_first rfl
  have hfit : ∃ session, served.stickySessions.sessions.get client = some session ∧
      served.stickySessions.DatesFit minuteLater session :=
    ⟨_, rfl, 300000000000, -240000000000, by decide, by decide⟩
  have hkeyed : ∀ k p, served.proxies.get k = some p → p.key = k := by
    intro k p hp
    obtain ⟨q, hq, rfl | ⟨rfl, rfl⟩⟩ := FinMap.get_modify_some hp
    · exact key_of_twoProxyPool hq
    · exact (Update.key_apply (.recordSuccess (.finite 100)) q epoch).trans (key_of_twoProxyPool hq)
  obtain ⟨q, hq, hclean⟩ : ∃ q, served.proxies.get "1.1.1.1:80" = some q ∧
      q.tlsClean = some true := ⟨_, rfl, rfl⟩
  obtain ⟨it⟩ := FinMap.Iteration.nonempty served.proxies
  have haffinity := (affinity_iff client.ip 50001 50001 "1.1.1.1" 80 443 _ epoch minuteLater
    (.finite 100) [] served (.nil _) hyoung).mpr (Or.inl ⟨rfl, hfit⟩)
  exact ⟨⟨it, fun _ => none, minuteLater⟩, q, hq,
    haffinity served _ q rfl rfl hkeyed hq fun _ => hclean⟩

/-- Two verified and clean proxies; a client connects through the first one. -/
def firstConnectionRun : List Op :=
  [.addProxy ⟨"1.1.1.1", 80, none⟩, .addProxy ⟨"2.2.2.2", 80, none⟩,
    .recordSuccess "1.1.1.1:80" (.finite 100), .setTlsClean "1.1.1.1:80" true,
    .recordSuccess "2.2.2.2:80" (.finite 100), .setTlsClean "2.2.2.2:80" true,
    .stickyGet client, .recordSuccess "1.1.1.1:80" (.finite 100), .setOrTouch client "1.1.1.1:80"]

/-- A minute after that connection the client's next one, from another port, goes through the
other proxy, although the first one is still there and clean. -/
theorem other_port_other_proxy : ∃ es s, es.map Event.op = firstConnectionRun ∧
    Runs.Run Step (withConfig 300 5000 []) es s ∧
    s.stickySessions.sessions.get client = some ⟨client, "1.1.1.1:80", none, 0, 0, 1⟩ ∧
    s.stickySessions.Young minuteLater ⟨client, "1.1.1.1:80", none, 0, 0, 1⟩ ∧
    (s.proxies.get "1.1.1.1:80").map (·.tlsClean) = some (some true) ∧
    ∃ p, AttemptUses ⟨client.ip, 50002⟩ 443 0 s minuteLater s minuteLater s minuteLater p ∧
      p.key = "2.2.2.2:80" := by
  have hrun : ∃ s, applyAll epoch (withConfig 300 5000 []) firstConnectionRun = some s ∧
      s.proxies.len < 10 ∧ s.stickySessions.ttlSecs = 300 ∧
      s.stickySessions.sessions.get client = some ⟨client, "1.1.1.1:80", none, 0, 0, 1⟩ ∧
      s.stickySessions.get minuteLater ⟨client.ip, 50002⟩ = some (none, s.stickySessions) ∧
      (s.proxies.get "1.1.1.1:80").map (·.tlsClean) = some (some true) ∧
      ∃ p, s.proxies.get "2.2.2.2:80" = some p ∧ s.isUsable minuteLater p ∧
        p.status = some .verified ∧ p.tlsClean = some true ∧ p.key = "2.2.2.2:80" :=
    ⟨_, rfl, by decide, rfl, rfl, rfl, by decide, _, rfl, rfl, rfl, rfl, by decide⟩
  obtain ⟨s, hs, hlen, httl, hsession, hget, hclean, p, hp, hu, hst, htls, hkey⟩ := hrun
  obtain ⟨es, hes, hrun⟩ := run_of_applyAll hs
  obtain ⟨c, hc, hfresh⟩ :=
    exists_freshSelection_eq 443 hlen hp hu hst htls
  have hnone : s.storedKey c.now ⟨client.ip, 50002⟩ 443 0 = some none := by
    simp [storedKey, stickyKey, hc, hget]
  exact ⟨es, s, hes, hrun, hsession, young_first httl, hclean, p,
    .atOnce c hc p (attemptChoice_eq_some.mpr (Or.inr ⟨hnone, hfresh⟩)), hkey⟩

end SharedState

end VpnGateway
