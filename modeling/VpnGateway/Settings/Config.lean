import VpnGateway.Core.JsonFields

/-! The gateway's settings and the documents they are read from: fields by name in any order, or
by position in an array, with a default for each field that is missing. -/
namespace VpnGateway

namespace Settings

/-- `usize` is that of a 64-bit build. -/
structure Config where
  gatewayPort : UInt16
  apiPort : UInt16
  udpPort : UInt16
  maxProxies : UInt64
  maxConnections : UInt64
  healthCheckInterval : UInt64
  sourceUpdateInterval : UInt64
  preferredCountries : List String
  excludeCountries : List String
  geoipPath : Option String
  statePath : String
  sourcesPath : String
  connectionPoolMaxIdle : UInt64
  connectionPoolMaxPerProxy : UInt64
  enableConnectionPool : Bool
  stickySessionTtl : UInt64
  enableStickySessions : Bool
  dnsUpstream : String
  apiBind : String
  enableWarmPool : Bool
  warmPoolMaxPerProxy : UInt64
  warmPoolMaxProxies : UInt64
  warmPoolRefreshInterval : UInt64
  warmPoolMaxAgeSecs : UInt64
  deriving DecidableEq

namespace Config

/-- `Config::default`, and the defaults of the single fields. -/
def default : Config where
  gatewayPort := 1080
  apiPort := 8080
  udpPort := 1081
  maxProxies := 5000
  maxConnections := 10000
  healthCheckInterval := 30
  sourceUpdateInterval := 300
  preferredCountries := []
  excludeCountries := []
  geoipPath := none
  statePath := "data/state.json"
  sourcesPath := "config/sources.json"
  connectionPoolMaxIdle := 60
  connectionPoolMaxPerProxy := 10
  enableConnectionPool := false
  stickySessionTtl := 300
  enableStickySessions := false
  dnsUpstream := "10.13.13.1:5353"
  apiBind := "10.13.13.1"
  enableWarmPool := false
  warmPoolMaxPerProxy := 2
  warmPoolMaxProxies := 5
  warmPoolRefreshInterval := 20
  warmPoolMaxAgeSecs := 45

def encodeU16 (n : UInt16) : Json := .int n.toNat

def decodeU16 (j : Json) : Option UInt16 := (j.decodeUint (2 ^ 16)).map .ofNat

def encodeU64 (n : UInt64) : Json := .int n.toNat

def decodeU64 (j : Json) : Option UInt64 := (j.decodeUint (2 ^ 64)).map .ofNat

def encodeStrings (items : List String) : Json := .arr (items.map .str)

/-- The members that the derived `Serialize` writes, in the order of the declaration. -/
def members (c : Config) : List (String × Json) :=
  [("gateway_port", encodeU16 c.gatewayPort),
   ("api_port", encodeU16 c.apiPort),
   ("udp_port", encodeU16 c.udpPort),
   ("max_proxies", encodeU64 c.maxProxies),
   ("max_connections", encodeU64 c.maxConnections),
   ("health_check_interval", encodeU64 c.healthCheckInterval),
   ("source_update_interval", encodeU64 c.sourceUpdateInterval),
   ("preferred_countries", encodeStrings c.preferredCountries),
   ("exclude_countries", encodeStrings c.excludeCountries),
   ("geoip_path", Json.encodeOption .str c.geoipPath),
   ("state_path", .str c.statePath),
   ("sources_path", .str c.sourcesPath),
   ("connection_pool_max_idle", encodeU64 c.connectionPoolMaxIdle),
   ("connection_pool_max_per_proxy", encodeU64 c.connectionPoolMaxPerProxy),
   ("enable_connection_pool", .bool c.enableConnectionPool),
   ("sticky_session_ttl", encodeU64 c.stickySessionTtl),
   ("enable_sticky_sessions", .bool c.enableStickySessions),
   ("dns_upstream", .str c.dnsUpstream),
   ("api_bind", .str c.apiBind),
   ("enable_warm_pool", .bool c.enableWarmPool),
   ("warm_pool_max_per_proxy", encodeU64 c.warmPoolMaxPerProxy),
   ("warm_pool_max_proxies", encodeU64 c.warmPoolMaxProxies),
   ("warm_pool_refresh_interval", encodeU64 c.warmPoolRefreshInterval),
   ("warm_pool_max_age_secs", encodeU64 c.warmPoolMaxAgeSecs)]

def encode (c : Config) : Json := .obj c.members

/-- The visitor of the derived `Deserialize`. -/
def decodeMembers (j : Json) : Option Config := do
  let gatewayPort ← j.field "gateway_port" decodeU16 (some default.gatewayPort)
  let apiPort ← j.field "api_port" decodeU16 (some default.apiPort)
  let udpPort ← j.field "udp_port" decodeU16 (some default.udpPort)
  let maxProxies ← j.field "max_proxies" decodeU64 (some default.maxProxies)
  let maxConnections ← j.field "max_connections" decodeU64 (some default.maxConnections)
  let healthCheckInterval ← j.field "health_check_interval" decodeU64
    (some default.healthCheckInterval)
  let sourceUpdateInterval ← j.field "source_update_interval" decodeU64
    (some default.sourceUpdateInterval)
  let preferredCountries ← j.field "preferred_countries" (Json.decodeVec Json.decodeString)
    (some default.preferredCountries)
  let excludeCountries ← j.field "exclude_countries" (Json.decodeVec Json.decodeString)
    (some default.excludeCountries)
  let geoipPath ← j.field "geoip_path" (Json.decodeOption Json.decodeString)
    (some default.geoipPath)
  let statePath ← j.field "state_path" Json.decodeString (some default.statePath)
  let sourcesPath ← j.field "sources_path" Json.decodeString (some default.sourcesPath)
  let connectionPoolMaxIdle ← j.field "connection_pool_max_idle" decodeU64
    (some default.connectionPoolMaxIdle)
  let connectionPoolMaxPerProxy ← j.field "connection_pool_max_per_proxy" decodeU64
    (some default.connectionPoolMaxPerProxy)
  let enableConnectionPool ← j.field "enable_connection_pool" Json.decodeBool
    (some default.enableConnectionPool)
  let stickySessionTtl ← j.field "sticky_session_ttl" decodeU64 (some default.stickySessionTtl)
  let enableStickySessions ← j.field "enable_sticky_sessions" Json.decodeBool
    (some default.enableStickySessions)
  let dnsUpstream ← j.field "dns_upstream" Json.decodeString (some default.dnsUpstream)
  let apiBind ← j.field "api_bind" Json.decodeString (some default.apiBind)
  let enableWarmPool ← j.field "enable_warm_pool" Json.decodeBool (some default.enableWarmPool)
  let warmPoolMaxPerProxy ← j.field "warm_pool_max_per_proxy" decodeU64
    (some default.warmPoolMaxPerProxy)
  let warmPoolMaxProxies ← j.field "warm_pool_max_proxies" decodeU64
    (some default.warmPoolMaxProxies)
  let warmPoolRefreshInterval ← j.field "warm_pool_refresh_interval" decodeU64
    (some default.warmPoolRefreshInterval)
  let warmPoolMaxAgeSecs ← j.field "warm_pool_max_age_secs" decodeU64
    (some default.warmPoolMaxAgeSecs)
  pure {
    gatewayPort, apiPort, udpPort, maxProxies, maxConnections, healthCheckInterval,
    sourceUpdateInterval, preferredCountries, excludeCountries, geoipPath, statePath, sourcesPath,
    connectionPoolMaxIdle, connectionPoolMaxPerProxy, enableConnectionPool, stickySessionTtl,
    enableStickySessions, dnsUpstream, apiBind, enableWarmPool, warmPoolMaxPerProxy,
    warmPoolMaxProxies, warmPoolRefreshInterval, warmPoolMaxAgeSecs }

/-- An array gives the fields by position, and too long a one is an error. -/
def decode : Json → Option Config
  | .obj members => decodeMembers (.obj members)
  | .arr items =>
    let names := default.members.map Prod.fst
    if items.length ≤ names.length then decodeMembers (.obj (names.zip items)) else none
  | _ => none

/-- What reading the file gives; no document stands for a file that cannot be read or holds no
JSON. -/
def loadFromFile (file : Option Json) : Option Config := file.bind decode

def loadOrDefault (file : Option Json) : Config := (loadFromFile file).getD default

/-- Each field has one member, of its value, or it has its default and no member at all. Other
members say nothing. -/
def Describes (c : Config) (j : Json) : Prop :=
  ∀ f ∈ c.members.zip default.members,
    j.valuesOf f.1.1 = [f.1.2] ∨ j.valuesOf f.1.1 = [] ∧ f.1 = f.2

theorem exact_u16 : Json.Exact encodeU16 decodeU16 :=
  Json.exact_uint UInt16.toNat_lt (fun _ => UInt16.ofNat_toNat)
    fun _ h => UInt16.toNat_ofNat_of_lt' h

theorem exact_u64 : Json.Exact encodeU64 decodeU64 :=
  Json.exact_uint UInt64.toNat_lt (fun _ => UInt64.ofNat_toNat)
    fun _ h => UInt64.toNat_ofNat_of_lt' h

theorem exact_strings : Json.Exact encodeStrings (Json.decodeVec Json.decodeString) :=
  Json.exact_vec Json.exact_string

theorem exact_path :
    Json.Exact (Json.encodeOption .str) (Json.decodeOption Json.decodeString) :=
  Json.exact_option Json.exact_string (by simp)

/-- Every setting is read, and nothing is read twice. -/
theorem decodeMembers_eq_some_iff {c : Config} {j : Json} :
    decodeMembers j = some c ↔ c.Describes j := by
  simp only [Describes, members, List.zip_cons_cons, List.zip_nil_right, List.forall_mem_cons,
    List.not_mem_nil, false_imp_iff, implies_true, and_true, ← Json.field_eq_some_iff exact_u16,
    ← Json.field_eq_some_iff exact_u64, ← Json.field_eq_some_iff exact_strings,
    ← Json.field_eq_some_iff exact_path, ← Json.field_eq_some_iff Json.exact_string,
    ← Json.field_eq_some_iff Json.exact_bool]
  constructor
  · intro h
    unfold decodeMembers at h
    iterate 24 obtain ⟨_, _, h⟩ := Option.bind_eq_some_iff.mp h
    obtain rfl := Option.some.inj h
    repeat' apply And.intro
    all_goals assumption
  · intro h
    simp only [decodeMembers, h, Option.bind_eq_bind, Option.bind_some]
    rfl

theorem length_members (c : Config) : c.members.length = 24 := rfl

theorem names_members (c : Config) : c.members.map Prod.fst = default.members.map Prod.fst := rfl

theorem nodup_names : (default.members.map Prod.fst).Nodup := by decide

theorem describes_iff_getElem {c : Config} {j : Json} :
    c.Describes j ↔ ∀ (i : ℕ) (_ : i < c.members.length) (_ : i < default.members.length)
      (hi : i < (default.members.map Prod.fst).length),
      j.valuesOf (default.members.map Prod.fst)[i] = [c.members[i].2] ∨
        j.valuesOf (default.members.map Prod.fst)[i] = [] ∧ c.members[i] = default.members[i] := by
  have hname : ∀ (i : ℕ) (hc : i < c.members.length)
      (hi : i < (default.members.map Prod.fst).length),
      c.members[i].1 = (default.members.map Prod.fst)[i] := fun i hc hi => by
    rw [← List.getElem_of_eq c.names_members (by simpa using hc), List.getElem_map]
    rfl
  constructor
  · intro h i hc hd hi
    have hzip : i < (c.members.zip default.members).length := hd
    have hmem := h _ (List.getElem_mem hzip)
    rw [List.getElem_zip] at hmem
    rwa [← hname i hc hi]
  · intro h f hf
    obtain ⟨i, hzip, rfl⟩ := List.mem_iff_getElem.mp hf
    rw [List.getElem_zip]
    have hdescr := h i hzip hzip hzip
    rwa [← hname i hzip hzip] at hdescr

/-- By position, a prefix of the values is given and the rest have their defaults. -/
theorem describes_zip_iff {c : Config} {items : List Json} (hlen : items.length ≤ 24) :
    c.Describes (.obj ((default.members.map Prod.fst).zip items)) ↔
      items = (c.members.take items.length).map Prod.snd ∧
        c.members.drop items.length = default.members.drop items.length := by
  rw [describes_iff_getElem]
  have hvalues : ∀ (i : ℕ) (hi : i < (default.members.map Prod.fst).length),
      (Json.obj ((default.members.map Prod.fst).zip items)).valuesOf
        (default.members.map Prod.fst)[i] = items[i]?.toList :=
    fun i hi => Json.valuesOf_zip nodup_names items hi
  constructor
  · intro h
    constructor
    · refine List.ext_getElem (by simp [length_members, hlen]) fun i hi _ => ?_
      have hdescr := h i (by rw [length_members]; omega) (by rw [length_members]; omega)
        (by rw [List.length_map, length_members]; omega)
      rw [hvalues, List.getElem?_eq_getElem hi] at hdescr
      simp only [Option.toList_some, List.cons.injEq, and_true, List.cons_ne_nil, false_and,
        or_false] at hdescr
      rw [List.getElem_map, List.getElem_take, hdescr]
      rfl
    · refine List.ext_getElem (by simp [length_members]) fun i hi _ => ?_
      rw [List.length_drop, length_members] at hi
      have hdescr := h (items.length + i) (by rw [length_members]; omega)
        (by rw [length_members]; omega) (by rw [List.length_map, length_members]; omega)
      rw [hvalues, List.getElem?_eq_none (Nat.le_add_right _ _)] at hdescr
      rw [List.getElem_drop, List.getElem_drop]
      exact (hdescr.resolve_left (by simp)).2
  · rintro ⟨hitems, hrest⟩ i hc hd hi
    rw [hvalues]
    rcases lt_or_ge i items.length with hlt | hge
    · refine Or.inl ?_
      have hget : items[i] = c.members[i].2 := by
        rw [List.getElem_of_eq hitems, List.getElem_map, List.getElem_take]
        rfl
      rw [List.getElem?_eq_getElem hlt, hget]
      rfl
    · refine Or.inr ⟨by rw [List.getElem?_eq_none hge]; rfl, ?_⟩
      have hlt : i - items.length < (c.members.drop items.length).length := by
        rw [List.length_drop]
        omega
      have hget := List.getElem_of_eq hrest hlt
      simp only [List.getElem_drop, Nat.add_sub_cancel' hge] at hget
      exact hget

end Config

end Settings

end VpnGateway
