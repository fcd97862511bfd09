import VpnGateway.Pool.Operations
import VpnGateway.Pool.Selection

/-! Bans over whole runs: while no operation inserts a banned key, a banned proxy stays out of
the pool until it is unbanned. Nothing in the code keeps such an insertion from happening. -/
namespace VpnGateway

/-- The history contains a successful ban of `k` and no successful unban after it. -/
def BannedSince (es : List Event) (k : String) : Prop :=
  ∃ before ban after, es = before ++ ban :: after ∧ ban.op = .banProxy k ∧ ban.Succeeds ∧
    ∀ e ∈ after, e.op = .unbanProxy k → ¬ e.Succeeds

namespace SharedState

/-- No selection and no health batch can answer with the key. -/
structure Unreachable (s : SharedState) (k : String) : Prop where
  absent : k ∉ s.proxies
  best : ∀ (c : s.Choice) p, s.selectBest c = some p → p.key ≠ k
  tls : ∀ (c : s.Choice) p, s.selectBestForTls c = some p → p.key ≠ k
  country : ∀ draw now country p, s.selectBestByCountry draw now country = some p → p.key ≠ k
  stable : ∀ (it : s.proxies.Iteration) now n, ∀ e ∈ s.topStableProxies it now n, e.1 ≠ k
  health : ∀ (it : s.proxies.Iteration) now limit,
    ∀ p ∈ s.proxiesNeedingCheck it now limit, p.key ≠ k

/-- Both maps file every record under its own key, and no key is in both. -/
structure BanInv (s : SharedState) : Prop where
  live : ∀ k p, s.proxies.get k = some p → p.key = k
  banned : ∀ k p, s.banned.get k = some p → p.key = k
  disjoint : ∀ k ∈ s.proxies, k ∉ s.banned

/-- The operation does not insert a record whose key is banned. -/
def RespectsBans (s : SharedState) (e : Event) : Prop := ∀ p, s.Inserts p e.op → p.key ∉ s.banned

theorem banInv_withConfig (ttl : UInt64) (maxProxies : ℕ) (countries : List String) :
    (withConfig ttl maxProxies countries).BanInv :=
  ⟨by simp [withConfig], by simp [withConfig], by simp [withConfig]⟩

theorem BanInv.step {s t : SharedState} {e : Event} (hi : s.BanInv) (h : s.Step e t)
    (hg : s.RespectsBans e) : t.BanInv := by
  have hupdate : ∀ k u p, e.op.update = some (k, u) → s.proxies.get k = some p → p.key = k →
      (u.apply p e.now).key = k := fun k u p _ _ hkey => (u.key_apply p e.now).trans hkey
  obtain ⟨hlive, hbanned⟩ := h.forall_records hupdate (fun _ _ => rfl) (fun _ _ _ => rfl)
    hi.live hi.banned
  refine ⟨hlive, hbanned, fun k hk => ?_⟩
  cases h.effect with
  | kept hp hb _ =>
    obtain ⟨p', hk⟩ := FinMap.mem_iff.mp hk
    obtain ⟨p, hget, -⟩ := hp k p' hk
    rw [hb]
    exact hi.disjoint k (FinMap.mem_of_get hget)
  | inserted p hop hp hb =>
    rw [hp, FinMap.mem_insert] at hk
    rw [hb]
    rcases hk with rfl | hk
    · exact hg p hop
    · exact hi.disjoint k hk
  | ban j p _ hget hp hb =>
    rw [hp, FinMap.mem_remove] at hk
    rw [hb, FinMap.mem_insert, not_or]
    exact ⟨hk.1, hi.disjoint k hk.2⟩
  | unban j p _ _ hget hp hb =>
    rw [hp, FinMap.mem_insert] at hk
    rw [hb, FinMap.mem_remove, not_and]
    rcases hk with rfl | hk
    · exact fun hne => absurd (hi.banned j p hget) hne
    · exact fun _ => hi.disjoint k hk

/-- A banned key stays banned until it is unbanned. -/
theorem Step.mem_banned {s t : SharedState} {e : Event} {k : String} (h : s.Step e t)
    (hk : k ∈ s.banned) (hnot : e.op = .unbanProxy k → ¬ e.Succeeds) : k ∈ t.banned := by
  cases h.effect with
  | kept _ hb _ => rwa [hb]
  | inserted _ _ _ hb => rwa [hb]
  | ban j p _ _ _ hb =>
    rw [hb, FinMap.mem_insert]
    exact Or.inr hk
  | unban j p hop hreply _ _ hb =>
    rw [hb, FinMap.mem_remove]
    refine ⟨?_, hk⟩
    rintro rfl
    exact hnot hop hreply

theorem Step.mem_banned_of_ban {s t : SharedState} {e : Event} {k : String} (h : s.Step e t)
    (hop : e.op = .banProxy k) (hs : e.Succeeds) : k ∈ t.banned := by
  cases h.effect with
  | kept _ _ hreply => exact absurd hs (hreply k (Or.inl hop))
  | inserted p hins => simp [hop, Inserts] at hins
  | ban j p hop' _ _ hb =>
    obtain rfl : k = j := by simpa [hop] using hop'
    rw [hb, FinMap.mem_insert]
    exact Or.inl rfl
  | unban j p hop' => simp [hop] at hop'

theorem run_mem_banned {s t : SharedState} {es : List Event} {k : String}
    (h : Runs.Run Step s es t) (hk : k ∈ s.banned)
    (hnot : ∀ e ∈ es, e.op = .unbanProxy k → ¬ e.Succeeds) : k ∈ t.banned := by
  induction h with
  | nil => exact hk
  | cons head _ ih =>
    obtain ⟨he, hes⟩ := List.forall_mem_cons.mp hnot
    exact ih (head.mem_banned hk he) hes

theorem mem_banned_of_bannedSince {s t : SharedState} {es : List Event} {k : String}
    (h : Runs.Run Step s es t) (hk : BannedSince es k) : k ∈ t.banned := by
  obtain ⟨before, ban, after, rfl, hop, hs, hnot⟩ := hk
  obtain ⟨u, -, hrest⟩ := Runs.run_append.mp h
  cases hrest with
  | cons head tail => exact run_mem_banned tail (head.mem_banned_of_ban hop hs) hnot

theorem BanInv.unreachable {s : SharedState} (hi : s.BanInv) {k : String} (hk : k ∉ s.proxies) :
    s.Unreachable k := by
  have hne : ∀ p : Proxy, (∃ j, s.proxies.get j = some p) → p.key ≠ k := by
    rintro p ⟨j, hj⟩ rfl
    rw [hi.live j p hj] at hk
    exact hk (FinMap.mem_of_get hj)
  refine ⟨hk, fun c p hp => hne p (selectBest_ranked hp).stored,
    fun c p hp => hne p (selectBestForTls_spec hp).1,
    fun _ _ _ p hp => hne p (selectBestByCountry_stored hp), fun it now n e he => ?_,
    fun it now limit p hp => hne p (mem_proxiesNeedingCheck hp).1⟩
  obtain ⟨j, p, hj, rfl⟩ := topStableProxies_stored he
  exact hne p ⟨j, hj⟩

theorem BanInv.unban_keeps {s : SharedState} (hi : s.BanInv) {j k : String} {p : Proxy}
    (hp : s.proxies.get k = some p) : (s.unbanProxy j).2.proxies.get k = some p := by
  rcases s.unbanProxy_cases j with ⟨-, m, hm⟩ | ⟨q, m, hq, hm⟩
  · rwa [hm]
  · rw [hm]
    have hne : k ≠ q.key := by
      rintro rfl
      rw [hi.banned j q hq] at hp
      exact hi.disjoint j (FinMap.mem_of_get hp) (FinMap.mem_of_get hq)
    rwa [FinMap.get_insert_of_ne _ _ hne]

/-- In a run that respects bans the two maps never share a key, a banned proxy can be neither
selected nor probed until it is unbanned, and unbanning overwrites no live record. -/
theorem bans_hold (ttl : UInt64) (maxProxies : ℕ) (countries : List String) {es : List Event}
    {t : SharedState}
    (h : Runs.Run (Runs.Guarded Step RespectsBans) (withConfig ttl maxProxies countries) es t) :
    (∀ k ∈ t.proxies, k ∉ t.banned) ∧ (∀ k, BannedSince es k → t.Unreachable k) ∧
      ∀ j k p, t.proxies.get k = some p → (t.unbanProxy j).2.proxies.get k = some p := by
  have hi : t.BanInv :=
    h.invariant (fun _ _ _ hi hs => hi.step hs.2 hs.1) (banInv_withConfig ttl maxProxies countries)
  refine ⟨hi.disjoint, fun k hk => hi.unreachable fun hlive => ?_, fun j k p => hi.unban_keeps⟩
  exact hi.disjoint k hlive (mem_banned_of_bannedSince h.unguarded hk)

/-! A ban, the next source refresh and a health check of the proxy. -/

def addRequest : AddProxyRequest := ⟨"5.6.7.8", 3128, none⟩

def addEvent : Event :=
  ⟨⟨0, 0⟩, .addProxy addRequest, some ⟨true, "Proxy 5.6.7.8:3128 added"⟩⟩

def banEvent : Event :=
  ⟨⟨0, 0⟩, .banProxy "5.6.7.8:3128", some ⟨true, "Proxy 5.6.7.8:3128 banned"⟩⟩

def afterBan : SharedState :=
  (((withConfig 300 5000 []).addProxy addRequest).2.banProxy "5.6.7.8:3128").2

private theorem bannedSince_banEvent {after : List Event} (h : ∀ e ∈ after, e.reply = none) :
    BannedSince (addEvent :: banEvent :: after) "5.6.7.8:3128" := by
  refine ⟨[addEvent], banEvent, after, rfl, rfl, ⟨_, rfl⟩, fun e he _ hs => ?_⟩
  obtain ⟨m, hm⟩ := hs
  rw [h e he] at hm
  cases hm

/-- After a ban and nothing else the promise holds. -/
theorem bans_hold_after_ban : afterBan.Unreachable "5.6.7.8:3128" := by
  have hadd : RespectsBans (withConfig 300 5000 []) addEvent := fun p _ => by simp [withConfig]
  have hban : RespectsBans ((withConfig 300 5000 []).addProxy addRequest).2 banEvent :=
    fun p hp => False.elim hp
  have hrun : Runs.Run (Runs.Guarded Step RespectsBans) (withConfig 300 5000 [])
      [addEvent, banEvent] afterBan := .cons ⟨hadd, rfl⟩ (.single ⟨hban, rfl⟩)
  exact (bans_hold 300 5000 [] hrun).2.1 _ (bannedSince_banEvent (by simp))

def refreshEvent : Event := ⟨⟨0, 0⟩, .insertIfAbsent (.new "5.6.7.8" 3128 .http), none⟩

def probeEvent : Event := ⟨⟨0, 0⟩, .recordSuccess "5.6.7.8:3128" (.finite 100), none⟩

def afterProbe : SharedState :=
  (afterBan.insertIfAbsent (.new "5.6.7.8" 3128 .http)).2.recordSuccess ⟨0, 0⟩ "5.6.7.8:3128"
    (.finite 100)

/-- A source list that still carries the banned proxy puts it back into the pool, where it is
verified and selected; a later unban then overwrites the live record with the old one. -/
theorem refresh_revives_banned :
    Runs.Run Step (withConfig 300 5000 []) [addEvent, banEvent, refreshEvent, probeEvent]
      afterProbe ∧
    BannedSince [addEvent, banEvent, refreshEvent, probeEvent] "5.6.7.8:3128" ∧
    "5.6.7.8:3128" ∈ afterProbe.proxies ∧ "5.6.7.8:3128" ∈ afterProbe.banned ∧
    (∀ c : afterProbe.Choice, ∃ p, afterProbe.selectBest c = some p) ∧
    (afterProbe.proxies.get "5.6.7.8:3128").map (·.successCount) = some 1 ∧
    ((afterProbe.unbanProxy "5.6.7.8:3128").2.proxies.get "5.6.7.8:3128").map (·.successCount) =
      some 0 := by
  refine ⟨.cons rfl (.cons rfl (.cons rfl (.single rfl))), bannedSince_banEvent ?_, by decide,
    by decide, fun c => ?_, by decide, by decide⟩
  · simp [refreshEvent, probeEvent]
  · have hp : ∃ p, afterProbe.proxies.get "5.6.7.8:3128" = some p :=
      FinMap.mem_iff.mp (by decide)
    obtain ⟨p, hp⟩ := hp
    refine (selectBest_spec afterProbe c).1.mpr ⟨_, p, hp, ?_⟩
    obtain rfl := Option.some.inj hp
    exact ⟨rfl, rfl, Or.inl rfl⟩

end SharedState

end VpnGateway
