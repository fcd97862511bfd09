import VpnGateway.Pool.Persistence

/-! Under which key a record is filed: the text `host:port` of its own endpoint, in the pool and
in the ban list, whatever the host looks like. -/
namespace VpnGateway

namespace Proxy

theorem toList_key (p : Proxy) :
    p.key.toList = p.host.toList ++ ':' :: (toString p.port.toNat).toList := by
  have hport : toString p.port = toString p.port.toNat := rfl
  have hself (text : String) : toString text = text := rfl
  have hcolon : ":".toList = [':'] := rfl
  rw [key, hport, hself, hself, String.toList_append, String.toList_append, hcolon,
    List.append_assoc, List.singleton_append]

/-- The last colon of a key separates host and port, so the key determines both. -/
theorem key_inj {p q : Proxy} : p.key = q.key ↔ p.host = q.host ∧ p.port = q.port := by
  constructor
  · intro h
    have hcolon : ∀ n : ℕ, ':' ∉ (toString n).toList := Text.notMem_toString rfl
    have hlist := congrArg String.toList h
    rw [toList_key, toList_key] at hlist
    obtain ⟨hhost, hport⟩ := Text.append_cons_inj (hcolon _) (hcolon _) hlist
    have hnat := Text.toString_nat_injective (String.toList_inj.mp hport)
    exact ⟨String.toList_inj.mp hhost, UInt16.toNat_inj.mp hnat⟩
  · rintro ⟨hhost, hport⟩
    rw [key, key, hhost, hport]

end Proxy

/-- Every record is filed under its own key. -/
def Keyed (m : FinMap String Proxy) : Prop := ∀ k p, m.get k = some p → k = p.key

/-- No endpoint has two entries. -/
def OnePerEndpoint (m : FinMap String Proxy) : Prop :=
  ∀ k k' p p', m.get k = some p → m.get k' = some p' → p.host = p'.host → p.port = p'.port → k = k'

theorem Keyed.onePerEndpoint {m : FinMap String Proxy} (h : Keyed m) : OnePerEndpoint m := by
  intro k k' p p' hp hp' hhost hport
  rw [h k p hp, h k' p' hp']
  exact Proxy.key_inj.mpr ⟨hhost, hport⟩

namespace SharedState

/-- An operation, or a load of the state file. -/
inductive StoreEvent where
  | op (e : Event)
  | load (time : TimeFormat) (now : Clock) (file : Option Json)

inductive StoreStep (s : SharedState) : StoreEvent → SharedState → Prop where
  | op {e : Event} {t : SharedState} (h : s.Step e t) : StoreStep s (.op e) t
  | load (time : TimeFormat) (now : Clock) (file : Option Json) :
      StoreStep s (.load time now file) (s.loadStateFrom time now file).2

theorem run_insertAll (now : Clock) (s : SharedState) (proxies : List Proxy) :
    Runs.Run Step s (proxies.map fun p => ⟨now, .insertIfAbsent p, none⟩)
      (proxies.foldl (fun s p => (s.insertIfAbsent p).2) s) := by
  induction proxies generalizing s with
  | nil => exact .nil s
  | cons p proxies ih => exact .cons rfl (ih _)

/-- Loading the state file is a run of insertions. -/
theorem run_load (s : SharedState) (time : TimeFormat) (now : Clock) (file : Option Json) :
    ∃ proxies : List Proxy,
      Runs.Run Step s (proxies.map fun p => ⟨now, .insertIfAbsent p, none⟩)
        (s.loadStateFrom time now file).2 := by
  unfold loadStateFrom
  split
  next proxies _ =>
    refine ⟨proxies.map (restored now), ?_⟩
    have hrun := run_insertAll now s (proxies.map (restored now))
    rwa [List.foldl_map] at hrun
  next => exact ⟨[], .nil s⟩

/-- The records of the pool and of the ban list are filed under their own keys. -/
structure AllKeyed (s : SharedState) : Prop where
  live : Keyed s.proxies
  banned : Keyed s.banned

theorem allKeyed_withConfig (ttl : UInt64) (maxProxies : ℕ) (countries : List String) :
    (withConfig ttl maxProxies countries).AllKeyed :=
  ⟨by simp [Keyed, withConfig], by simp [Keyed, withConfig]⟩

theorem AllKeyed.step {s t : SharedState} {e : Event} (hs : s.AllKeyed) (h : s.Step e t) :
    t.AllKeyed := by
  have hupdate : ∀ k u p, e.op.update = some (k, u) → s.proxies.get k = some p → k = p.key →
      k = (u.apply p e.now).key := fun k u p _ _ hk => hk.trans (u.key_apply p e.now).symm
  obtain ⟨hlive, hbanned⟩ :=
    h.forall_records hupdate (fun _ _ => rfl) (fun _ _ _ => rfl) hs.live hs.banned
  exact ⟨hlive, hbanned⟩

theorem AllKeyed.storeStep {s t : SharedState} {e : StoreEvent} (hs : s.AllKeyed)
    (h : s.StoreStep e t) : t.AllKeyed := by
  cases h with
  | op h => exact hs.step h
  | load time now file =>
    obtain ⟨proxies, hrun⟩ := s.run_load time now file
    exact hrun.invariant (fun _ _ _ hi hs => hi.step hs) hs

/-- What an update addressed by a record's key changes: the record of that endpoint, and no
other. -/
theorem Step.get_of_update {s t : SharedState} {e : Event} {p : Proxy} {u : Update}
    (hs : Keyed s.proxies) (h : s.Step e t) (hop : e.op.update = some (p.key, u)) {k : String}
    {q : Proxy} (hq : s.proxies.get k = some q) :
    t.proxies.get k =
      some (if q.host = p.host ∧ q.port = p.port then u.apply q e.now else q) := by
  have hk : k = p.key ↔ q.host = p.host ∧ q.port = p.port := by
    rw [hs k q hq]
    exact Proxy.key_inj
  rw [h.proxies_of_update hop, FinMap.get_modify, hq]
  simp only [hk]
  split_ifs <;> rfl

end SharedState

/-- In every reachable state the records of both maps are filed under their own keys, no endpoint
has two entries in a map, and an update addressed by a record's key reaches that endpoint only. -/
theorem keys_coherent (ttl : UInt64) (maxProxies : ℕ) (countries : List String)
    {es : List SharedState.StoreEvent} {s : SharedState}
    (h : Runs.Run SharedState.StoreStep (.withConfig ttl maxProxies countries) es s) :
    (Keyed s.proxies ∧ OnePerEndpoint s.proxies) ∧ (Keyed s.banned ∧ OnePerEndpoint s.banned) ∧
    ∀ (p : Proxy) (u : Update) (e : Event) (t : SharedState),
      e.op.update = some (p.key, u) → s.Step e t → ∀ k q, s.proxies.get k = some q →
        t.proxies.get k =
          some (if q.host = p.host ∧ q.port = p.port then u.apply q e.now else q) := by
  have hs := h.invariant (fun _ _ _ hi hs => hi.storeStep hs)
    (SharedState.allKeyed_withConfig ttl maxProxies countries)
  exact ⟨⟨hs.live, hs.live.onePerEndpoint⟩, ⟨hs.banned, hs.banned.onePerEndpoint⟩,
    fun p u e t hop hstep k q hq => hstep.get_of_update hs.live hop hq⟩

namespace SharedState

def loopback : AddProxyRequest := ⟨"::1", 8080, none⟩

def loopbackEvents : List StoreEvent :=
  [.op ⟨⟨0, 0⟩, .addProxy loopback, some ⟨true, "Proxy ::1:8080 added"⟩⟩,
    .op ⟨⟨0, 0⟩, .insertIfAbsent (.new ":" 18080 .http), none⟩, .load epochFormat ⟨0, 0⟩ none]

def loopbackPool : SharedState :=
  (((withConfig 300 5000 []).addProxy loopback).2.insertIfAbsent (.new ":" 18080 .http)).2

/-- Two hosts made of colons: a failure of the one leaves the record of the other as it was. -/
theorem keys_coherent_loopback :
    Runs.Run StoreStep (withConfig 300 5000 []) loopbackEvents loopbackPool ∧
    Keyed loopbackPool.proxies ∧
    (loopbackPool.recordFail ⟨0, 0⟩ "::1:8080").proxies.get "::18080" =
      some (.new ":" 18080 .http) := by
  have hrun : Runs.Run StoreStep (withConfig 300 5000 []) loopbackEvents loopbackPool :=
    .cons (.op rfl) (.cons (.op rfl) (.single (.load _ _ _)))
  obtain ⟨⟨hkeyed, -⟩, -, hupdate⟩ := keys_coherent 300 5000 [] hrun
  refine ⟨hrun, hkeyed, ?_⟩
  exact hupdate loopback.proxy .recordFail ⟨⟨0, 0⟩, .recordFail "::1:8080", none⟩ _ rfl rfl
    "::18080" (.new ":" 18080 .http) rfl

end SharedState

end VpnGateway
