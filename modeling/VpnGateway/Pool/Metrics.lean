import VpnGateway.Core.Exposition
import VpnGateway.Core.FinMap
import VpnGateway.Pool.Proxy

/-! The metrics of the gateway as a text for Prometheus, with one series for every country. -/
namespace VpnGateway

open Exposition Text

/-- The metrics that are written out. -/
structure Metrics where
  proxiesTotal : ℕ
  proxiesAlive : ℕ
  proxiesBanned : ℕ
  avgLatencyMs : F64
  connectionsActive : ℕ
  proxiesByCountry : FinMap String ℕ
  successRate : F64
  circuitBreakerTrips : ℕ
  warmPoolProxies : ℕ
  warmPoolHits : ℕ
  warmPoolMisses : ℕ
  stickySessionsActive : ℕ
  avgUptimeSecs : F64

/-- The nearest integer, and of two the even one. -/
def roundHalfEven (q : ℚ) : ℕ :=
  let n := ⌊q⌋₊
  if q - n < 1 / 2 then n else if 1 / 2 < q - n then n + 1 else n + n % 2

/-- A decimal number with this many digits behind the point. -/
def fixedDigits (digits : ℕ) (q : ℚ) : List Char :=
  let n := roundHalfEven (q * 10 ^ digits)
  let fraction := numeral (n % 10 ^ digits)
  if digits = 0 then numeral n
  else numeral (n / 10 ^ digits) ++
    '.' :: (List.replicate (digits - fraction.length) '0' ++ fraction)

/-- `{:.2}` and the like. -/
def F64.fixed (digits : ℕ) : F64 → List Char
  | finite q => (if q < 0 then ['-'] else []) ++ fixedDigits digits |q|
  | infinite negative => (if negative then ['-'] else []) ++ "inf".toList
  | nan => "NaN".toList

namespace Metrics

def integer (n : ℕ) : Point := ⟨none, numeral n⟩

def float (digits : ℕ) (x : F64) : Point := ⟨none, x.fixed digits⟩

def country (entry : String × ℕ) : Point :=
  ⟨some ("country".toList, entry.1.toList), numeral entry.2⟩

def metric (name help : String) (kind : Kind) (points : List Point) : Family :=
  ⟨name.toList, help.toList, kind, points⟩

/-- The metrics in the order of the text; the countries come in the order of their map. -/
def families (m : Metrics) (byCountry : m.proxiesByCountry.Iteration) : List Family :=
  [metric "vpn_proxies_total" "Total number of proxies" .gauge [integer m.proxiesTotal],
    metric "vpn_proxies_alive" "Number of alive proxies" .gauge [integer m.proxiesAlive],
    metric "vpn_proxies_banned" "Number of banned proxies" .gauge [integer m.proxiesBanned],
    metric "vpn_avg_latency_ms" "Average proxy latency in milliseconds" .gauge
      [float 2 m.avgLatencyMs],
    metric "vpn_connections_active" "Active TCP connections" .gauge [integer m.connectionsActive],
    metric "vpn_success_rate" "Overall success rate" .gauge [float 4 m.successRate],
    metric "vpn_circuit_breaker_trips" "Number of circuit breaker activations" .gauge
      [integer m.circuitBreakerTrips],
    metric "vpn_proxies_by_country" "Proxies by country" .gauge (byCountry.entries.map country),
    metric "vpn_warm_pool_proxies" "Number of proxies with warm connections" .gauge
      [integer m.warmPoolProxies],
    metric "vpn_warm_pool_hits" "Warm pool connection hits" .counter [integer m.warmPoolHits],
    metric "vpn_warm_pool_misses" "Warm pool connection misses" .counter
      [integer m.warmPoolMisses],
    metric "vpn_sticky_sessions_active" "Active sticky sessions" .gauge
      [integer m.stickySessionsActive],
    metric "vpn_avg_uptime_secs" "Average proxy uptime in seconds" .gauge
      [float 0 m.avgUptimeSecs]]

/-- The lines are joined, so none ends the text. -/
def formatPrometheus (m : Metrics) (byCountry : m.proxiesByCountry.Iteration) : List Char :=
  render (m.families byCountry)

/-- The samples that are integers, with their values. -/
def integers (m : Metrics) : List (String × ℕ) :=
  [("vpn_proxies_total", m.proxiesTotal), ("vpn_proxies_alive", m.proxiesAlive),
    ("vpn_proxies_banned", m.proxiesBanned), ("vpn_connections_active", m.connectionsActive),
    ("vpn_circuit_breaker_trips", m.circuitBreakerTrips),
    ("vpn_warm_pool_proxies", m.warmPoolProxies), ("vpn_warm_pool_hits", m.warmPoolHits),
    ("vpn_warm_pool_misses", m.warmPoolMisses),
    ("vpn_sticky_sessions_active", m.stickySessionsActive)]

/-- The text is valid and tells the integers and the count of every country. -/
def Exposes (m : Metrics) (text : List Char) : Prop :=
  ∃ items, parse text = some items ∧ Valid items ∧
    (∀ entry ∈ m.integers, ∀ v, .sample ⟨entry.1.toList, [], v⟩ ∈ items ↔ v = .finite entry.2) ∧
    ∀ (country : String) v,
      .sample ⟨"vpn_proxies_by_country".toList, [("country".toList, country.toList)], v⟩ ∈ items ↔
        ∃ n, m.proxiesByCountry.get country = some n ∧ v = .finite n

/-- No country needs an escape. -/
def PlainCountries (m : Metrics) : Prop :=
  ∀ country ∈ m.proxiesByCountry, ∀ c ∈ specials, c ∉ country.toList

variable {m : Metrics} {byCountry : m.proxiesByCountry.Iteration} {f : Family} {p : Point}

/-! The numbers of the text. -/

theorem isNumberChar_of_isDigit {c : Char} (h : c.isDigit) : isNumberChar c := by
  simp [isNumberChar, Char.isAlphanum, h]

theorem isDigit_fixedDigits (digits : ℕ) (q : ℚ) : ∃ whole fraction, whole ≠ [] ∧
    (∀ c ∈ whole, c.isDigit) ∧ (∀ c ∈ fraction, c.isDigit) ∧
      (fixedDigits digits q = whole ∨ fixedDigits digits q = whole ++ '.' :: fraction) := by
  by_cases hzero : digits = 0
  · refine ⟨numeral (roundHalfEven (q * 10 ^ digits)), [], numeral_ne_nil _,
      fun _ hc => isDigit_of_mem_numeral hc, nofun, .inl ?_⟩
    simp only [fixedDigits, if_pos hzero]
  · let n := roundHalfEven (q * 10 ^ digits)
    let fraction := numeral (n % 10 ^ digits)
    refine ⟨numeral (n / 10 ^ digits), List.replicate (digits - fraction.length) '0' ++ fraction,
      numeral_ne_nil _, fun _ hc => isDigit_of_mem_numeral hc, ?_, .inr ?_⟩
    · rw [List.forall_mem_append]
      refine ⟨fun c hc => ?_, fun _ hc => isDigit_of_mem_numeral hc⟩
      rw [List.eq_of_mem_replicate hc]
      rfl
    · simp only [fixedDigits, if_neg hzero]
      rfl

theorem readValue_fixedDigits (digits : ℕ) (q : ℚ) :
    ((readMagnitude (fixedDigits digits q)).isSome ∧
      readValue (fixedDigits digits q) = readMagnitude (fixedDigits digits q)) ∧
      ∀ c ∈ fixedDigits digits q, isNumberChar c := by
  obtain ⟨whole, fraction, hne, hwhole, hfraction, h⟩ := isDigit_fixedDigits digits q
  obtain ⟨c, rest, rfl⟩ := List.exists_cons_of_ne_nil hne
  have hc : c.isDigit := hwhole c List.mem_cons_self
  have hwhole' : ∀ d ∈ c :: rest, isNumberChar d :=
    fun d hd => isNumberChar_of_isDigit (hwhole d hd)
  rcases h with h | h
  · rw [h, readValue_of_digit hc, readMagnitude_of_digit hc, readDecimal_digits hne hwhole]
    exact ⟨⟨rfl, rfl⟩, hwhole'⟩
  · have hsome := readDecimal_point hne hwhole hfraction
    rw [List.cons_append] at h hsome
    rw [h, readValue_of_digit hc, readMagnitude_of_digit hc, Option.isSome_map]
    refine ⟨⟨hsome, rfl⟩, ?_⟩
    have hfraction' : ∀ d ∈ '.' :: fraction, isNumberChar d :=
      List.forall_mem_cons.mpr ⟨rfl, fun d hd => isNumberChar_of_isDigit (hfraction d hd)⟩
    exact List.forall_mem_append.mpr ⟨hwhole', hfraction'⟩

theorem readValue_fixed (digits : ℕ) (x : F64) :
    (readValue (x.fixed digits)).isSome ∧ ∀ c ∈ x.fixed digits, isNumberChar c := by
  have hword : ∀ word : List Char, (readValue word).isSome ∧ word.all isNumberChar →
      x.fixed digits = word →
        (readValue (x.fixed digits)).isSome ∧ ∀ c ∈ x.fixed digits, isNumberChar c := by
    rintro word ⟨hsome, hall⟩ rfl
    exact ⟨hsome, List.all_eq_true.mp hall⟩
  cases x with
  | finite q =>
    obtain ⟨⟨hsome, hvalue⟩, hchars⟩ := readValue_fixedDigits digits |q|
    have hfixed : (F64.finite q).fixed digits =
        (if q < 0 then ['-'] else []) ++ fixedDigits digits |q| := rfl
    rw [hfixed]
    split_ifs
    · refine ⟨?_, List.forall_mem_cons.mpr ⟨rfl, hchars⟩⟩
      rw [List.singleton_append, readValue, Option.isSome_map]
      exact hsome
    · rw [List.nil_append, hvalue]
      exact ⟨hsome, hchars⟩
  | infinite negative =>
    cases negative with
    | false => exact hword "inf".toList (by decide +kernel) rfl
    | true => exact hword "-inf".toList (by decide +kernel) (by rfl)
  | nan => exact hword "NaN".toList (by decide +kernel) rfl

/-! The families of the text. -/

theorem wellFormed_metric {name help : String} {kind : Kind} {points : List Point}
    (hname : isName name.toList) (hhelp : help.toList.all fun c => c ∉ specials)
    (hlabel : ∀ p ∈ points, ∀ label ∈ p.label, isLabel label.1)
    (hnumber : ∀ p ∈ points, (readValue p.text).isSome ∧ ∀ c ∈ p.text, isNumberChar c) :
    (metric name help kind points).WellFormed where
  name := hname
  help c hc hmem := by
    have hplain := List.all_eq_true.mp hhelp c hmem
    simp only [decide_eq_true_eq] at hplain
    exact hplain hc
  label := hlabel
  number := hnumber

theorem number_integer (n : ℕ) :
    (readValue (numeral n)).isSome ∧ ∀ c ∈ numeral n, isNumberChar c := by
  rw [readValue_numeral]
  exact ⟨rfl, fun c hc => isNumberChar_of_isDigit (isDigit_of_mem_numeral hc)⟩

theorem wellFormed_integer {name help : String} {kind : Kind} (n : ℕ)
    (hname : isName name.toList) (hhelp : help.toList.all fun c => c ∉ specials) :
    (metric name help kind [integer n]).WellFormed :=
  wellFormed_metric hname hhelp (List.forall_mem_singleton.mpr nofun)
    (List.forall_mem_singleton.mpr (number_integer n))

theorem wellFormed_float {name help : String} {kind : Kind} (digits : ℕ) (x : F64)
    (hname : isName name.toList) (hhelp : help.toList.all fun c => c ∉ specials) :
    (metric name help kind [float digits x]).WellFormed :=
  wellFormed_metric hname hhelp (List.forall_mem_singleton.mpr nofun)
    (List.forall_mem_singleton.mpr (readValue_fixed digits x))

theorem wellFormed_families (m : Metrics) (byCountry : m.proxiesByCountry.Iteration) :
    ∀ f ∈ m.families byCountry, f.WellFormed := by
  simp only [families, List.forall_mem_cons]
  refine ⟨wellFormed_integer _ (by decide) (by decide),
    wellFormed_integer _ (by decide) (by decide), wellFormed_integer _ (by decide) (by decide),
    wellFormed_float _ _ (by decide) (by decide), wellFormed_integer _ (by decide) (by decide),
    wellFormed_float _ _ (by decide) (by decide), wellFormed_integer _ (by decide) (by decide),
    wellFormed_metric (by decide) (by decide) ?_ ?_,
    wellFormed_integer _ (by decide) (by decide), wellFormed_integer _ (by decide) (by decide),
    wellFormed_integer _ (by decide) (by decide), wellFormed_integer _ (by decide) (by decide),
    wellFormed_float _ _ (by decide) (by decide), nofun⟩
  · have hcountry : isLabel "country".toList := by decide
    rw [List.forall_mem_map]
    rintro entry - label hlabel
    obtain rfl := Option.some.inj hlabel
    exact hcountry
  · rw [List.forall_mem_map]
    exact fun entry _ => number_integer entry.2

theorem points_of_mem (m : Metrics) (byCountry : m.proxiesByCountry.Iteration) :
    ∀ f ∈ m.families byCountry, (∃ p, f.points = [p] ∧ p.label = none) ∨
      f.points = byCountry.entries.map country := by
  simp only [families, List.forall_mem_cons]
  exact ⟨.inl ⟨_, rfl, rfl⟩, .inl ⟨_, rfl, rfl⟩, .inl ⟨_, rfl, rfl⟩, .inl ⟨_, rfl, rfl⟩,
    .inl ⟨_, rfl, rfl⟩, .inl ⟨_, rfl, rfl⟩, .inl ⟨_, rfl, rfl⟩, .inr rfl, .inl ⟨_, rfl, rfl⟩,
    .inl ⟨_, rfl, rfl⟩, .inl ⟨_, rfl, rfl⟩, .inl ⟨_, rfl, rfl⟩, .inl ⟨_, rfl, rfl⟩, nofun⟩

/-- Only countries are written as labels. -/
theorem label_of_mem (hf : f ∈ m.families byCountry) (hp : p ∈ f.points)
    {label : List Char × List Char} (hlabel : label ∈ p.label) :
    ∃ name ∈ m.proxiesByCountry, label = ("country".toList, name.toList) := by
  rcases points_of_mem m byCountry f hf with ⟨q, hpoints, hnone⟩ | hpoints
  · rw [hpoints, List.mem_singleton] at hp
    rw [hp, hnone] at hlabel
    cases hlabel
  · rw [hpoints] at hp
    obtain ⟨entry, hentry, rfl⟩ := List.mem_map.mp hp
    exact ⟨entry.1, FinMap.mem_of_get (FinMap.Iteration.mem_entries.mp hentry),
      (Option.some.inj hlabel).symm⟩

theorem nodup_names (m : Metrics) (byCountry : m.proxiesByCountry.Iteration) :
    ((m.families byCountry).map Family.name).Nodup := by
  have hnames : (m.families byCountry).map Family.name = (["vpn_proxies_total",
      "vpn_proxies_alive", "vpn_proxies_banned", "vpn_avg_latency_ms", "vpn_connections_active",
      "vpn_success_rate", "vpn_circuit_breaker_trips", "vpn_proxies_by_country",
      "vpn_warm_pool_proxies", "vpn_warm_pool_hits", "vpn_warm_pool_misses",
      "vpn_sticky_sessions_active", "vpn_avg_uptime_secs"].map String.toList) := rfl
  rw [hnames]
  exact List.Nodup.map (fun _ _ h => String.toList_inj.mp h) (by decide)

theorem nodup_labels (m : Metrics) (byCountry : m.proxiesByCountry.Iteration) :
    ∀ f ∈ m.families byCountry, (f.points.map Point.label).Nodup := by
  intro f hf
  rcases points_of_mem m byCountry f hf with ⟨q, hpoints, -⟩ | hpoints
  · rw [hpoints]
    exact List.nodup_singleton _
  · have horder : byCountry.entries.map (Point.label ∘ country) =
        byCountry.order.map fun name => some ("country".toList, name.toList) := by
      rw [← byCountry.map_fst_entries, List.map_map]
      rfl
    rw [hpoints, List.map_map, horder]
    refine byCountry.nodup.map fun name name' h => ?_
    exact String.toList_inj.mp (Prod.mk.inj (Option.some.inj h)).2

/-- Where a country needs an escape, the longest one that does is not read back. -/
theorem plain_of_exposes (h : m.Exposes (m.formatPrometheus byCountry)) : m.PlainCountries := by
  obtain ⟨items, hparse, -, -, hcountries⟩ := h
  by_contra hnot
  simp only [PlainCountries, not_forall, not_not, exists_prop] at hnot
  obtain ⟨name, hname, c, hc, hmem⟩ := hnot
  let bad := m.proxiesByCountry.keys.filter fun name => ∃ c ∈ name.toList, c ∈ specials
  have hbad : bad.Nonempty := ⟨name, Finset.mem_filter.mpr ⟨hname, c, hmem, hc⟩⟩
  obtain ⟨longest, hlongest, hmax⟩ := bad.exists_max_image (fun name => name.toList.length) hbad
  obtain ⟨hkey, hspecial⟩ := Finset.mem_filter.mp hlongest
  obtain ⟨n, hn⟩ := FinMap.mem_iff.mp hkey
  have hsample := (hcountries longest (.finite n)).mpr ⟨n, hn, rfl⟩
  obtain ⟨f, hf, p, hp, longer, hlonger, hspecial', hlt⟩ :=
    exists_longer (wellFormed_families m byCountry) hparse hsample
      (List.mem_singleton_self _) hspecial
  obtain ⟨name', hname', rfl⟩ := label_of_mem hf hp hlonger
  have hle := hmax name' (Finset.mem_filter.mpr ⟨hname', hspecial'⟩)
  exact absurd hlt (not_lt.mpr hle)

theorem get_mem_families (m : Metrics) (byCountry : m.proxiesByCountry.Iteration) {i : ℕ}
    (hi : i < 13) : (m.families byCountry).get ⟨i, hi⟩ ∈ m.families byCountry := List.get_mem _ _

theorem exists_integer_family (m : Metrics) (byCountry : m.proxiesByCountry.Iteration) :
    ∀ entry ∈ m.integers, ∃ f ∈ m.families byCountry,
      f.name = entry.1.toList ∧ f.points = [integer entry.2] := by
  have hget := fun {i : ℕ} hi => get_mem_families m byCountry (i := i) hi
  simp only [integers, List.forall_mem_cons]
  exact ⟨⟨_, hget (show 0 < 13 by decide), rfl, rfl⟩, ⟨_, hget (show 1 < 13 by decide), rfl, rfl⟩,
    ⟨_, hget (show 2 < 13 by decide), rfl, rfl⟩, ⟨_, hget (show 4 < 13 by decide), rfl, rfl⟩,
    ⟨_, hget (show 6 < 13 by decide), rfl, rfl⟩, ⟨_, hget (show 8 < 13 by decide), rfl, rfl⟩,
    ⟨_, hget (show 9 < 13 by decide), rfl, rfl⟩, ⟨_, hget (show 10 < 13 by decide), rfl, rfl⟩,
    ⟨_, hget (show 11 < 13 by decide), rfl, rfl⟩, nofun⟩

theorem exposes_of_plain (h : m.PlainCountries) : m.Exposes (m.formatPrometheus byCountry) := by
  have hplain : ∀ f ∈ m.families byCountry, f.Plain := by
    intro f hf p hp label hlabel
    obtain ⟨name, hname, rfl⟩ := label_of_mem hf hp hlabel
    exact h name hname
  refine ⟨_, parse_render (List.cons_ne_nil _ _) (wellFormed_families m byCountry) hplain,
    valid_items (nodup_names m byCountry) (nodup_labels m byCountry), ?_, ?_⟩
  · intro entry hentry v
    obtain ⟨f, hf, hname, hpoints⟩ := exists_integer_family m byCountry entry hentry
    rw [← hname, sample_mem_iff (nodup_names m byCountry) hf, hpoints]
    constructor
    · rintro ⟨p, hp, -, rfl⟩
      obtain rfl := List.mem_singleton.mp hp
      rw [integer, readValue_numeral, Option.getD_some]
    · rintro rfl
      refine ⟨integer entry.2, List.mem_singleton_self _, rfl, ?_⟩
      rw [integer, readValue_numeral, Option.getD_some]
  · intro name v
    have hf : metric "vpn_proxies_by_country" "Proxies by country" .gauge
        (byCountry.entries.map country) ∈ m.families byCountry :=
      get_mem_families m byCountry (show 7 < 13 by decide)
    refine (sample_mem_iff (nodup_names m byCountry) hf _ v).trans ?_
    constructor
    · rintro ⟨p, hp, hlabel, rfl⟩
      obtain ⟨entry, hentry, rfl⟩ := List.mem_map.mp hp
      obtain rfl := String.toList_inj.mp (Prod.mk.inj (List.singleton_inj.mp hlabel)).2
      refine ⟨entry.2, FinMap.Iteration.mem_entries.mp hentry, ?_⟩
      rw [country, readValue_numeral, Option.getD_some]
    · rintro ⟨n, hn, rfl⟩
      refine ⟨country (name, n), List.mem_map_of_mem (FinMap.Iteration.mem_entries.mpr hn), rfl, ?_⟩
      rw [country, readValue_numeral, Option.getD_some]

/-- The text is a valid exposition of the metrics exactly if no country has a quote, a backslash
or a line feed in its name. -/
theorem formatPrometheus_exposes_iff (m : Metrics) (byCountry : m.proxiesByCountry.Iteration) :
    m.Exposes (m.formatPrometheus byCountry) ↔
      ∀ country ∈ m.proxiesByCountry, ∀ c ∈ ['"', '\\', '\n'], c ∉ country.toList :=
  ⟨plain_of_exposes, exposes_of_plain⟩

/-- A single proxy, in a country with a quote in its name. -/
def quotedCountry : Metrics where
  proxiesTotal := 1
  proxiesAlive := 1
  proxiesBanned := 0
  avgLatencyMs := .finite 100
  connectionsActive := 0
  proxiesByCountry := FinMap.empty.insert "A\"B" 1
  successRate := .finite 1
  circuitBreakerTrips := 0
  warmPoolProxies := 0
  warmPoolHits := 0
  warmPoolMisses := 0
  stickySessionsActive := 0
  avgUptimeSecs := .finite 0

def quotedIteration : quotedCountry.proxiesByCountry.Iteration where
  order := ["A\"B"]
  nodup := List.nodup_singleton _
  complete name := by simp [quotedCountry]

/-- The quote ends the label, and the whole text is refused. -/
theorem quote_breaks_exposition : parse (quotedCountry.formatPrometheus quotedIteration) = none ∧
    ¬ quotedCountry.Exposes (quotedCountry.formatPrometheus quotedIteration) := by
  have hnone : parse (quotedCountry.formatPrometheus quotedIteration) = none := by decide +kernel
  refine ⟨hnone, ?_⟩
  rintro ⟨items, hparse, -⟩
  rw [hnone] at hparse
  cases hparse

end Metrics

end VpnGateway
