import VpnGateway.Pool.Keys

/-! The country index against the records: which operations keep them in step, and what selection
by country finds then. Only the end of a GeoIP lookup writes the index. -/
namespace VpnGateway

namespace SharedState

/-- `GeoIndex::get_keys`. -/
def getKeys (s : SharedState) (country : String) : List String :=
  (s.geoIndex.get country).getD []

/-- The index lists the key under the record's country and under no other. -/
def Indexed (s : SharedState) (k : String) (p : Proxy) : Prop :=
  ∀ country, k ∈ s.getKeys country ↔ p.country = some country

/-- The keys that the index lists under a country and that are in the pool are exactly those of
the records with this country. -/
def IndexAgrees (s : SharedState) : Prop := ∀ k p, s.proxies.get k = some p → s.Indexed k p

/-- Selection by country agrees with a scan of the whole pool. -/
def SelectsByCountry (s : SharedState) : Prop :=
  ∀ draw now country,
    ((∃ p, s.selectBestByCountry draw now country = some p) ↔
      ∃ k p, s.proxies.get k = some p ∧ p.isAvailable now ∧ p.status = some .verified ∧
        p.country = some country) ∧
    ∀ p, s.selectBestByCountry draw now country = some p → p.country = some country

/-- Whether the operation, run now, puts the record into the pool. -/
def Enters (s : SharedState) (p : Proxy) (op : Op) : Prop :=
  s.Inserts p op ∨ ∃ k, op = .unbanProxy k ∧ s.banned.get k = some p

/-- A record that enters is listed under its own country only, and a lookup brings in no second
country for a record. -/
def KeepsIndex (s : SharedState) (e : Event) : Prop :=
  (∀ p, s.Enters p e.op → s.Indexed p.key p) ∧
    ∀ k country p, e.op = .geoipResult k country → s.proxies.get k = some p →
      p.country = none ∨ p.country = some country

variable {s t : SharedState} {e : Event}

theorem IndexAgrees.selects (h : s.IndexAgrees) : s.SelectsByCountry := by
  intro draw now country
  have hcountry : ∀ p, s.selectBestByCountry draw now country = some p →
      ∃ k, s.proxies.get k = some p ∧ p.isAvailable now ∧ p.status = some .verified ∧
        p.country = some country := by
    intro p hp
    obtain ⟨k, hk, hget, havail, hst⟩ := selectBestByCountry_spec hp
    exact ⟨k, hget, havail, hst, (h k p hget country).mp hk⟩
  refine ⟨⟨?_, ?_⟩, fun p hp => ?_⟩
  · rintro ⟨p, hp⟩
    obtain ⟨k, hk⟩ := hcountry p hp
    exact ⟨k, p, hk⟩
  · rintro ⟨k, p, hget, havail, hst, hc⟩
    exact selectBestByCountry_isSome ((h k p hget country).mpr hc) hget havail hst
  · obtain ⟨_, -, -, -, hc⟩ := hcountry p hp
    exact hc

/-- After a lookup the index lists one key more. -/
theorem mem_getKeys_updateGeoIndex {k j country c : String} :
    j ∈ (s.updateGeoIndex k country).getKeys c ↔ j ∈ s.getKeys c ∨ c = country ∧ j = k := by
  rw [getKeys, updateGeoIndex, FinMap.get_insert]
  by_cases hc : c = country
  · subst hc
    rw [if_pos rfl, Option.getD_some]
    show j ∈ (if k ∈ s.getKeys c then s.getKeys c else s.getKeys c ++ [k]) ↔ _
    split_ifs with hk
    · simp only [true_and]
      exact (or_iff_left_of_imp fun h => h ▸ hk).symm
    · simp
  · rw [if_neg hc]
    simp [hc, getKeys]

theorem not_enters_of_update {op : Op} {k : String} {u : Update} (h : op.update = some (k, u))
    {p : Proxy} : ¬s.Enters p op := by
  rintro (hp | ⟨_, rfl, -⟩)
  · cases Op.updates h with
    | recordSuccess latencyMs | recordFail | setTlsClean clean | geoipResult country => exact hp
  · cases h

theorem Step.get_of_enters (h : s.Step e t) {p : Proxy} (hp : s.Enters p e.op) :
    t.proxies.get p.key = some p := by
  obtain ⟨now, op, reply⟩ := e
  rcases hp with hp | ⟨k, rfl, hp⟩
  · cases op with
    | insertIfAbsent proxy =>
      obtain ⟨rfl, rfl⟩ := Prod.mk.inj (Option.some.inj h)
      obtain ⟨rfl, hfull, hin⟩ := hp
      rw [insertIfAbsent, if_neg hfull, if_neg hin]
      exact FinMap.get_insert_self _ _ _
    | addVerified proxy =>
      obtain ⟨rfl, rfl⟩ := Prod.mk.inj (Option.some.inj h)
      obtain rfl := hp
      exact FinMap.get_insert_self _ _ _
    | addProxy payload =>
      obtain ⟨rfl, rfl⟩ := Prod.mk.inj (Option.some.inj h)
      obtain ⟨rfl, hin⟩ := hp
      have hnew : payload.key ∉ s.proxies := hin
      rw [addProxy, if_neg hnew]
      exact FinMap.get_insert_self _ _ _
    | _ => exact False.elim hp
  · obtain ⟨rfl, rfl⟩ := Prod.mk.inj (Option.some.inj h)
    rw [unbanProxy, hp]
    exact FinMap.get_insert_self _ _ _

/-- What updates keep holds of every record of the pool after an operation exactly when it holds
of those that enter. -/
theorem Step.forall_live_iff {P : String → Proxy → Prop} (h : s.Step e t)
    (hlive : ∀ k p, s.proxies.get k = some p → P k p)
    (hupdate : ∀ k u p, e.op.update = some (k, u) → P k p → P k (u.apply p e.now)) :
    (∀ k p, t.proxies.get k = some p → P k p) ↔ ∀ p, s.Enters p e.op → P p.key p := by
  constructor
  · exact fun ht p hp => ht p.key p (h.get_of_enters hp)
  · intro hall
    cases h.effect with
    | kept hproxies _ _ =>
      intro k p' hp'
      obtain ⟨p, hp, rfl | ⟨u, hu, rfl⟩⟩ := hproxies k p' hp'
      · exact hlive k p' hp
      · exact hupdate k u p hu (hlive k p hp)
    | inserted p hin hproxies _ =>
      rw [hproxies]
      exact FinMap.forall_insert hlive (hall p (Or.inl hin))
    | ban _ _ _ _ hproxies _ =>
      rw [hproxies]
      exact FinMap.forall_remove hlive
    | unban j p hj _ hp hproxies _ =>
      rw [hproxies]
      exact FinMap.forall_insert hlive (hall p (Or.inr ⟨j, hj, hp⟩))

theorem indexed_of_geoIndex (h : t.geoIndex = s.geoIndex) {k : String} {p : Proxy} :
    t.Indexed k p ↔ s.Indexed k p := by
  simp only [Indexed, getKeys, h]

/-- Only a lookup sets a country. -/
theorem country_of_update {op : Op} (hop : ∀ k country, op ≠ .geoipResult k country) {k : String}
    {u : Update} (h : op.update = some (k, u)) (p : Proxy) (now : Clock) :
    (u.apply p now).country = p.country := by
  cases Op.updates h with
  | recordSuccess latencyMs => rfl
  | recordFail =>
    obtain ⟨deadline, status, hp⟩ := p.exists_recordFail now
    rw [Update.apply, hp]
    rfl
  | setTlsClean clean => rfl
  | geoipResult country => exact absurd rfl (hop k country)

/-- An operation other than a lookup keeps the index in step exactly when what it brings into the
pool is indexed already. -/
theorem Step.indexAgrees_iff_of_ne (hs : s.IndexAgrees) (h : s.Step e t)
    (hop : ∀ k country, e.op ≠ .geoipResult k country) :
    t.IndexAgrees ↔ ∀ p, s.Enters p e.op → s.Indexed p.key p := by
  have hindex : ∀ {k p}, t.Indexed k p ↔ s.Indexed k p := indexed_of_geoIndex (h.geoIndex hop)
  have hupdate : ∀ k u p, e.op.update = some (k, u) → s.Indexed k p →
      s.Indexed k (u.apply p e.now) := by
    intro k u p hu hold
    simpa only [Indexed, country_of_update hop hu] using hold
  rw [← h.forall_live_iff hs hupdate]
  simp only [IndexAgrees, hindex]

/-- A lookup keeps it in step exactly when its record had no other country. -/
theorem indexAgrees_geoipResult (hs : s.IndexAgrees) (k country : String) :
    (s.geoipResult k country).IndexAgrees ↔
      ∀ p, s.proxies.get k = some p → p.country = none ∨ p.country = some country := by
  have hindex : ∀ {j c}, j ∈ (s.geoipResult k country).getKeys c ↔
      j ∈ s.getKeys c ∨ c = country ∧ j = k := mem_getKeys_updateGeoIndex
  have hget : ∀ j, (s.geoipResult k country).proxies.get j =
      if j = k then (s.proxies.get j).map (·.setCountry country) else s.proxies.get j :=
    fun j => FinMap.get_modify s.proxies k j _
  constructor
  · intro ht p hp
    cases hc : p.country with
    | none => exact Or.inl rfl
    | some c =>
      have hnew := ht k (p.setCountry country) (by rw [hget, if_pos rfl, hp, Option.map_some]) c
      exact Or.inr (hnew.mp (hindex.mpr (Or.inl ((hs k p hp c).mpr hc)))).symm
  · intro hall j p' hp' c
    rw [hget] at hp'
    rw [hindex]
    split_ifs at hp' with hj
    · subst hj
      obtain ⟨p, hp, rfl⟩ := Option.map_eq_some_iff.mp hp'
      rw [hs j p hp c]
      show _ ↔ some country = some c
      rcases hall p hp with hc | hc <;> simp [hc, eq_comm]
    · rw [hs j p' hp' c, or_iff_left fun h => hj h.2]

theorem Step.indexAgrees_iff (hs : s.IndexAgrees) (h : s.Step e t) :
    t.IndexAgrees ↔ s.KeepsIndex e := by
  by_cases hop : ∃ k country, e.op = .geoipResult k country
  · obtain ⟨k, country, hop⟩ := hop
    have ht : t = s.geoipResult k country := by
      unfold Step at h
      rw [hop] at h
      exact (Prod.mk.inj (Option.some.inj h)).2.symm
    rw [ht, indexAgrees_geoipResult hs]
    constructor
    · intro hall
      refine ⟨fun p hp => ?_, fun j c p hj => ?_⟩
      · rw [hop] at hp
        rcases hp with hp | ⟨_, hp, -⟩
        · exact False.elim hp
        · cases hp
      · obtain ⟨rfl, rfl⟩ := Op.geoipResult.inj (hop.symm.trans hj)
        exact hall p
    · exact fun hkeeps p => hkeeps.2 k country p hop
  · push Not at hop
    rw [h.indexAgrees_iff_of_ne hs hop]
    exact (and_iff_left fun k country _ hk => absurd hk (hop k country)).symm

theorem Step.unique (s : SharedState) (e : Event) (t u : SharedState) (h : s.Step e t)
    (h' : s.Step e u) : t = u := (Prod.mk.inj (Option.some.inj (h.symm.trans h'))).2

end SharedState

namespace SharedState

/-! A German proxy: looked up in this process, and restored from the file of an earlier one. -/

def lookedUp : List Event :=
  [⟨⟨0, 0⟩, .insertIfAbsent (.new "1.2.3.4" 8080 .http), none⟩,
    ⟨⟨0, 0⟩, .recordSuccess "1.2.3.4:8080" (.finite 100), none⟩,
    ⟨⟨0, 0⟩, .geoipResult "1.2.3.4:8080" "DE", none⟩]

/-- What an earlier process knew of the proxy. -/
def german : Proxy :=
  ((Proxy.new "1.2.3.4" 8080 .http).recordSuccess ⟨0, 0⟩ (.finite 100)).setCountry "DE"

def germanFile : Json := .arr [german.encode epochFormat]

/-- The pool after that file is loaded, ten minutes later. -/
def restoredPool : SharedState :=
  ((withConfig 300 5000 []).loadStateFrom epochFormat ⟨0, fromSecs 600⟩ (some germanFile)).2

theorem restoredPool_eq : restoredPool =
    ((withConfig 300 5000 []).insertIfAbsent (restored ⟨0, fromSecs 600⟩ german.reloaded)).2 := by
  have hfinite : german.Finite :=
    ((Proxy.finite_new "1.2.3.4" 8080 .http).apply (.recordSuccess (.finite 100)) ⟨0, 0⟩).apply
      (.setCountry "DE") ⟨0, 0⟩
  have htimes : german.TimesKept epochFormat := by
    intro t ht
    have ht0 : t = 0 := by
      simpa [german, Proxy.setCountry, Proxy.recordSuccess, Proxy.new, eq_comm] using ht
    rw [ht0]
    rfl
  have hdecode : Json.decodeVec (Proxy.decode epochFormat) germanFile = some [german.reloaded] := by
    have hone : ∀ p ∈ [german], Proxy.decode epochFormat (p.encode epochFormat) =
        some p.reloaded := by
      rintro _ hp
      rw [List.mem_singleton.mp hp]
      exact Proxy.decode_encode hfinite htimes
    exact Json.decodeVec_map hone
  rw [restoredPool, loadStateFrom, Option.bind_some, hdecode]
  rfl

end SharedState

end VpnGateway
