import VpnGateway.Core.Json
import VpnGateway.Core.Permits
import VpnGateway.Pool.GeoIndex

/-! The GeoIP lookups that probes spawn, step by step: the permits of each probe, the cache, the
request, and the two writes at the end, while the pool changes under them. -/
namespace VpnGateway

open Runs

structure GeoIpInfo where
  countryCode : Option String
  countryName : Option String
  city : Option String
  deriving DecidableEq

namespace GeoIpInfo

/-- The visitor of the derived `Deserialize` of `ApiResponse`; an `Option` may be missing. -/
def decodeMembers (j : Json) : Option GeoIpInfo := do
  let countryName ← j.field "country" (Json.decodeOption Json.decodeString) (some none)
  let countryCode ← j.field "countryCode" (Json.decodeOption Json.decodeString) (some none)
  let city ← j.field "city" (Json.decodeOption Json.decodeString) (some none)
  pure { countryCode, countryName, city }

/-- An array gives all three fields by position. -/
def decode : Json → Option GeoIpInfo
  | .obj members => decodeMembers (.obj members)
  | .arr items =>
    if items.length = 3 then decodeMembers (.obj (["country", "countryCode", "city"].zip items))
    else none
  | _ => none

end GeoIpInfo

/-- Where a spawned lookup is: it waits for a permit, has one, has read the host from the pool and
parsed it, waits for the answer, has one, has a country, or has put it into the record. -/
inductive LookupTask where
  | idle
  | queued (key : String)
  | admitted (key : String)
  | located (key : String) (ip : IpAddr)
  | requesting (key : String) (ip : IpAddr)
  | answered (key : String) (ip : IpAddr) (info : GeoIpInfo)
  | known (key country : String)
  | written (key country : String)
  | finished

/-- From the permit to the end of the task. -/
def LookupTask.Admitted : LookupTask → Prop
  | .idle | .queued _ | .finished => False
  | _ => True

/-- `MAX_GEOIP_CONCURRENT`. -/
def maxGeoipConcurrent : ℕ := 20

/-- `free` counts the permits of each probe's semaphore. -/
structure Lookups (β ι : Type*) where
  state : SharedState
  cache : FinMap IpAddr GeoIpInfo
  task : ι → LookupTask
  free : β → ℕ

inductive LookupEvent (ι : Type*) where
  | spawn (i : ι) (key : String)
  | acquire (i : ι)
  | locate (i : ι)
  | hit (i : ι)
  | request (i : ι)
  | respond (i : ι) (ip : IpAddr) (body : Option Json)
  | store (i : ι)
  | setCountry (i : ι)
  | updateIndex (i : ι)
  | pool (e : SharedState.StoreEvent)

namespace Lookups

variable {β ι : Type*} [DecidableEq β] [DecidableEq ι]

def start (s : SharedState) : Lookups β ι :=
  ⟨s, .empty, fun _ => .idle, fun _ => maxGeoipConcurrent⟩

def move (s : Lookups β ι) (i : ι) (task : LookupTask) : Lookups β ι :=
  { s with task := Function.update s.task i task }

/-- The task ends and its permit is dropped. -/
def finish (s : Lookups β ι) (probe : ι → β) (i : ι) : Lookups β ι :=
  { s with
    task := Function.update s.task i .finished
    free := Function.update s.free (probe i) (s.free (probe i) + 1) }

/-- `lookup(ip).await?.country_code`: without a country code the task is over. -/
def knows (s : Lookups β ι) (probe : ι → β) (i : ι) (key : String) (info : GeoIpInfo) :
    Lookups β ι :=
  match info.countryCode with
  | some country => s.move i (.known key country)
  | none => s.finish probe i

/-- What the host in the record gives; the task is over if the record is gone or its host is no
address. -/
def locates (s : Lookups β ι) (parseIp : String → Option IpAddr) (probe : ι → β) (i : ι)
    (key : String) : Lookups β ι :=
  match (s.state.proxies.get key).bind fun p => parseIp p.host with
  | some ip => s.move i (.located key ip)
  | none => s.finish probe i

/-- The steps of all lookups and of the gateway. Only a lookup writes the index, so that
`geoip_result` is not among the gateway's own operations. -/
inductive Step (parseIp : String → Option IpAddr) (probe : ι → β) (s : Lookups β ι) :
    LookupEvent ι → Lookups β ι → Prop where
  | spawn {i : ι} (key : String) (htask : s.task i = .idle) :
      Step parseIp probe s (.spawn i key) (s.move i (.queued key))
  | acquire {i : ι} {key : String} {n : ℕ} (htask : s.task i = .queued key)
      (hfree : s.free (probe i) = n + 1) :
      Step parseIp probe s (.acquire i)
        { s.move i (.admitted key) with free := Function.update s.free (probe i) n }
  | locate {i : ι} {key : String} (htask : s.task i = .admitted key) :
      Step parseIp probe s (.locate i) (s.locates parseIp probe i key)
  | hit {i : ι} {key : String} {ip : IpAddr} {info : GeoIpInfo} (htask : s.task i = .located key ip)
      (hcache : s.cache.get ip = some info) :
      Step parseIp probe s (.hit i) (s.knows probe i key info)
  | request {i : ι} {key : String} {ip : IpAddr} (htask : s.task i = .located key ip)
      (hcache : s.cache.get ip = none) :
      Step parseIp probe s (.request i) (s.move i (.requesting key ip))
  | respond {i : ι} {key : String} {ip : IpAddr} (body : Option Json)
      (htask : s.task i = .requesting key ip) :
      Step parseIp probe s (.respond i ip body)
        (match body.bind GeoIpInfo.decode with
        | some info => s.move i (.answered key ip info)
        | none => s.finish probe i)
  | store {i : ι} {key : String} {ip : IpAddr} {info : GeoIpInfo}
      (htask : s.task i = .answered key ip info) :
      Step parseIp probe s (.store i)
        ({ s with cache := s.cache.insert ip info }.knows probe i key info)
  | setCountry {i : ι} {key country : String} (htask : s.task i = .known key country) :
      Step parseIp probe s (.setCountry i)
        ({ s with state := { s.state with
            proxies := s.state.proxies.modify key (·.setCountry country) } }.move i
          (.written key country))
  | updateIndex {i : ι} {key country : String} (htask : s.task i = .written key country) :
      Step parseIp probe s (.updateIndex i)
        ({ s with state := s.state.updateGeoIndex key country }.finish probe i)
  | pool {e : SharedState.StoreEvent} {t : SharedState}
      (hop : ∀ e', e = .op e' → ∀ key country, e'.op ≠ .geoipResult key country)
      (h : s.state.StoreStep e t) : Step parseIp probe s (.pool e) { s with state := t }

variable {parseIp : String → Option IpAddr} {probe : ι → β} {s t : Lookups β ι}
  {e : LookupEvent ι}

/-- The address is the one that the endpoint with this key is written with. -/
def Names (parseIp : String → Option IpAddr) (key : String) (ip : IpAddr) : Prop :=
  ∃ p : Proxy, p.key = key ∧ parseIp p.host = some ip

/-- The API has said so about the address. -/
def Answers (es : List (LookupEvent ι)) : Set (IpAddr × GeoIpInfo) :=
  {a | ∃ i body, .respond i a.1 body ∈ es ∧ body.bind GeoIpInfo.decode = some a.2}

/-- The API has placed the endpoint with this key in the country. -/
def Placed (parseIp : String → Option IpAddr) (A : Set (IpAddr × GeoIpInfo))
    (key country : String) : Prop :=
  ∃ ip info, Names parseIp key ip ∧ (ip, info) ∈ A ∧ info.countryCode = some country

/-- What a lookup carries is right, at each of its stages. -/
def Sound (parseIp : String → Option IpAddr) (A : Set (IpAddr × GeoIpInfo)) : LookupTask → Prop
  | .located key ip | .requesting key ip => Names parseIp key ip
  | .answered key ip info => Names parseIp key ip ∧ (ip, info) ∈ A
  | .known key country | .written key country => Placed parseIp A key country
  | _ => True

structure Inv (parseIp : String → Option IpAddr) (probe : ι → β) (A : Set (IpAddr × GeoIpInfo))
    (s : Lookups β ι) : Prop where
  keyed : s.state.AllKeyed
  cache : ∀ ip info, s.cache.get ip = some info → (ip, info) ∈ A
  tasks : ∀ i, Sound parseIp A (s.task i)
  index : ∀ k country, k ∈ s.state.getKeys country → Placed parseIp A k country
  permits : ∀ b, Permits.Balanced maxGeoipConcurrent (fun i task => probe i = b ∧ task.Admitted)
    s.task (s.free b)

variable {A : Set (IpAddr × GeoIpInfo)} {i : ι} {key country : String} {ip : IpAddr}
  {info : GeoIpInfo} {x : LookupTask}

omit [DecidableEq β] in
theorem sound_update (h : ∀ i, Sound parseIp A (s.task i)) (hx : Sound parseIp A x) :
    ∀ j, Sound parseIp A (Function.update s.task i x j) := by
  intro j
  by_cases hj : j = i
  · subst hj
    rwa [Function.update_self]
  · rw [Function.update_of_ne hj]
    exact h j

omit [DecidableEq β] in
theorem Inv.move (h : s.Inv parseIp probe A) (hx : Sound parseIp A x)
    (hadmitted : x.Admitted ↔ (s.task i).Admitted) : (s.move i x).Inv parseIp probe A :=
  { h with
    tasks := sound_update h.tasks hx
    permits := fun b => (h.permits b).keep (and_congr_right fun _ => hadmitted) }

theorem Inv.finish (h : s.Inv parseIp probe A) (hadmitted : (s.task i).Admitted) :
    (s.finish probe i).Inv parseIp probe A := by
  refine { h with tasks := sound_update h.tasks trivial, permits := fun b => ?_ }
  by_cases hb : probe i = b
  · subst hb
    show Permits.Balanced _ _ _ (Function.update s.free (probe i) _ (probe i))
    rw [Function.update_self]
    exact (h.permits _).give ⟨rfl, hadmitted⟩ fun hfin => hfin.2
  · show Permits.Balanced _ _ _ (Function.update s.free (probe i) _ b)
    rw [Function.update_of_ne (Ne.symm hb)]
    exact (h.permits b).keep (iff_of_false (fun hp => hb hp.1) fun hp => hb hp.1)

theorem Inv.acquire {n : ℕ} (h : s.Inv parseIp probe A) (htask : s.task i = .queued key)
    (hfree : s.free (probe i) = n + 1) :
    { s.move i (.admitted key) with free := Function.update s.free (probe i) n }.Inv
      parseIp probe A := by
  refine { h with tasks := sound_update h.tasks trivial, permits := fun b => ?_ }
  by_cases hb : probe i = b
  · subst hb
    show Permits.Balanced _ _ _ (Function.update s.free (probe i) _ (probe i))
    rw [Function.update_self]
    have hbefore := h.permits (probe i)
    rw [hfree] at hbefore
    exact hbefore.take (fun hp => by simp [htask, LookupTask.Admitted] at hp) ⟨rfl, trivial⟩
  · show Permits.Balanced _ _ _ (Function.update s.free (probe i) _ b)
    rw [Function.update_of_ne (Ne.symm hb)]
    exact (h.permits b).keep (iff_of_false (fun hp => hb hp.1) fun hp => hb hp.1)

theorem Inv.knows (h : s.Inv parseIp probe A) (hadmitted : (s.task i).Admitted)
    (hnames : Names parseIp key ip) (hinfo : (ip, info) ∈ A) :
    (s.knows probe i key info).Inv parseIp probe A := by
  unfold Lookups.knows
  cases hcode : info.countryCode with
  | some country =>
    exact h.move ⟨ip, info, hnames, hinfo, hcode⟩ (iff_of_true trivial hadmitted)
  | none => exact h.finish hadmitted

theorem Inv.locates (h : s.Inv parseIp probe A) (htask : s.task i = .admitted key) :
    (s.locates parseIp probe i key).Inv parseIp probe A := by
  have hadmitted : (s.task i).Admitted := by rw [htask]; trivial
  unfold Lookups.locates
  cases hhost : (s.state.proxies.get key).bind fun p => parseIp p.host with
  | some ip =>
    obtain ⟨p, hp, hparse⟩ := Option.bind_eq_some_iff.mp hhost
    exact h.move ⟨p, (h.keyed.live key p hp).symm, hparse⟩ (iff_of_true trivial hadmitted)
  | none => exact h.finish hadmitted

omit [DecidableEq β] in
theorem Inv.setCountry (h : s.Inv parseIp probe A) (htask : s.task i = .known key country) :
    ({ s with state := { s.state with
        proxies := s.state.proxies.modify key (·.setCountry country) } }.move i
      (.written key country)).Inv parseIp probe A := by
  have hsound := h.tasks i
  rw [htask] at hsound
  have hkeyed : Keyed (s.state.proxies.modify key (·.setCountry country)) := by
    intro k p' hp'
    obtain ⟨p, hp, rfl | ⟨-, rfl⟩⟩ := FinMap.get_modify_some hp'
    · exact h.keyed.live k p' hp
    · exact h.keyed.live k p hp
  have hstate : { s with state := { s.state with
      proxies := s.state.proxies.modify key (·.setCountry country) } }.Inv parseIp probe A :=
    { h with keyed := ⟨hkeyed, h.keyed.banned⟩ }
  exact hstate.move hsound (iff_of_true trivial (by rw [htask]; trivial))

theorem Inv.updateIndex (h : s.Inv parseIp probe A) (htask : s.task i = .written key country) :
    ({ s with state := s.state.updateGeoIndex key country }.finish probe i).Inv parseIp probe
      A := by
  have hsound := h.tasks i
  rw [htask] at hsound
  have hstate : { s with state := s.state.updateGeoIndex key country }.Inv parseIp probe A := by
    refine { h with keyed := ⟨h.keyed.live, h.keyed.banned⟩, index := fun k c hk => ?_ }
    rcases SharedState.mem_getKeys_updateGeoIndex.mp hk with hold | ⟨rfl, rfl⟩
    · exact h.index k c hold
    · exact hsound
  exact hstate.finish (by rw [htask]; trivial)

theorem geoIndex_inserts {a b : SharedState} {now : Clock} {proxies : List Proxy}
    (h : Run SharedState.Step a (proxies.map fun p => ⟨now, .insertIfAbsent p, none⟩) b) :
    b.geoIndex = a.geoIndex := by
  induction proxies generalizing a with
  | nil =>
    cases h
    rfl
  | cons p proxies ih =>
    cases h with
    | cons head tail => exact (ih tail).trans (head.geoIndex (by simp))

/-- The gateway's own operations leave the index alone. -/
theorem geoIndex_storeStep {a b : SharedState} {e : SharedState.StoreEvent}
    (h : a.StoreStep e b)
    (hop : ∀ e', e = .op e' → ∀ key country, e'.op ≠ .geoipResult key country) :
    b.geoIndex = a.geoIndex := by
  cases h with
  | op h => exact h.geoIndex (hop _ rfl)
  | load time now file =>
    obtain ⟨proxies, hrun⟩ := a.run_load time now file
    exact geoIndex_inserts hrun

theorem Inv.step (h : s.Inv parseIp probe A) (hstep : Step parseIp probe s e t)
    (hanswer : ∀ i ip body info, e = .respond i ip body → body.bind GeoIpInfo.decode = some info →
      (ip, info) ∈ A) : t.Inv parseIp probe A := by
  cases hstep with
  | spawn key htask =>
    exact h.move trivial (iff_of_false (fun hx => hx) (by rw [htask]; exact fun hx => hx))
  | acquire htask hfree => exact h.acquire htask hfree
  | locate htask => exact h.locates htask
  | @hit i key ip info htask hcache =>
    have hsound := h.tasks i
    rw [htask] at hsound
    exact h.knows (by rw [htask]; trivial) hsound (h.cache ip info hcache)
  | @request i key ip htask hcache =>
    have hsound := h.tasks i
    rw [htask] at hsound
    exact h.move hsound (iff_of_true trivial (by rw [htask]; trivial))
  | @respond i key ip body htask =>
    have hsound := h.tasks i
    have hadmitted : (s.task i).Admitted := by rw [htask]; trivial
    rw [htask] at hsound
    cases hbody : body.bind GeoIpInfo.decode with
    | some info =>
      exact h.move ⟨hsound, hanswer i ip body info rfl hbody⟩ (iff_of_true trivial hadmitted)
    | none => exact h.finish hadmitted
  | @store i key ip info htask =>
    have hsound := h.tasks i
    rw [htask] at hsound
    have hstate : { s with cache := s.cache.insert ip info }.Inv parseIp probe A :=
      { h with cache := FinMap.forall_insert (P := fun ip info => (ip, info) ∈ A) h.cache hsound.2 }
    exact hstate.knows (by show (s.task i).Admitted; rw [htask]; trivial) hsound.1 hsound.2
  | setCountry htask => exact h.setCountry htask
  | updateIndex htask => exact h.updateIndex htask
  | pool hop hpool =>
    refine { h with keyed := h.keyed.storeStep hpool, index := fun k c hk => h.index k c ?_ }
    rwa [SharedState.getKeys, ← geoIndex_storeStep hpool hop]

omit [DecidableEq β] [DecidableEq ι] in
theorem inv_start (A : Set (IpAddr × GeoIpInfo)) (ttl : UInt64) (maxProxies : ℕ)
    (countries : List String) :
    (start (.withConfig ttl maxProxies countries) : Lookups β ι).Inv parseIp probe A where
  keyed := SharedState.allKeyed_withConfig ttl maxProxies countries
  cache := by simp [start]
  tasks _ := trivial
  index k country hk := by
    have hempty : (SharedState.withConfig ttl maxProxies countries).getKeys country = [] := rfl
    rw [start, hempty] at hk
    cases hk
  permits _ := Permits.balanced_of_idle fun _ hp => hp.2

theorem inv_run {es all : List (LookupEvent ι)} (h : Run (Step parseIp probe) s es t)
    (hs : s.Inv parseIp probe (Answers all)) (hsub : ∀ e ∈ es, e ∈ all) :
    t.Inv parseIp probe (Answers all) := by
  induction h with
  | nil => exact hs
  | @cons s u t e es head _ ih =>
    refine ih (hs.step head fun i ip body info he hbody => ⟨i, body, ?_, hbody⟩)
      fun e he => hsub e (List.mem_cons_of_mem _ he)
    exact he ▸ hsub e List.mem_cons_self

section Witness

def parseOne (host : String) : Option IpAddr :=
  if host = "1.2.3.4" then some (.v4 16909060) else none

/-- One lookup, from the probe that spawns it to the index. -/
def oneLookup : List (LookupEvent ℕ) :=
  [.pool (.op ⟨⟨0, 0⟩, .insertIfAbsent (.new "1.2.3.4" 8080 .http), none⟩),
    .spawn 0 "1.2.3.4:8080", .acquire 0, .locate 0, .request 0,
    .respond 0 (.v4 16909060) (some (.obj [("countryCode", .str "NL"), ("city", .null)])),
    .store 0, .setCountry 0, .updateIndex 0]

theorem exists_run_oneLookup : ∃ s : Lookups Unit ℕ,
    Run (Step parseOne fun _ => ()) (start (.withConfig 300 5000 [])) oneLookup s ∧
      "1.2.3.4:8080" ∈ s.state.getKeys "NL" := by
  refine ⟨_, .cons (.pool (by simp) (.op rfl)) <| .cons (.spawn _ rfl) <|
    .cons (.acquire rfl rfl) <| .cons (.locate rfl) <| .cons (.request rfl rfl) <|
    .cons (.respond _ rfl) <| .cons (.store rfl) <| .cons (.setCountry rfl) <|
    .single (.updateIndex rfl), ?_⟩
  decide

end Witness

end Lookups

end VpnGateway
