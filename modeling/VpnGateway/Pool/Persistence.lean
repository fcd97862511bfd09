import VpnGateway.Core.Json
import VpnGateway.Proxy.FirstReady

/-! What `state.json` holds of a pool, and the pool that is loaded from it. -/
namespace VpnGateway

/-- How chrono writes an instant into a document and reads it back. -/
structure TimeFormat where
  format : DateTime → String
  parse : String → Option DateTime

namespace TimeFormat

def encode (time : TimeFormat) (t : DateTime) : Json := .str (time.format t)

def decode (time : TimeFormat) (j : Json) : Option DateTime := (Json.decodeString j).bind time.parse

end TimeFormat

namespace Protocol

def encode : Protocol → Json
  | http => .str "http"
  | socks5 => .str "socks5"
  | https => .str "https"

def decode : Json → Option Protocol
  | .str "http" => some http
  | .str "socks5" => some socks5
  | .str "https" => some https
  | _ => none

theorem decode_encode (protocol : Protocol) : decode protocol.encode = some protocol := by
  cases protocol <;> rfl

end Protocol

namespace Proxy

/-- The derived `Serialize`. -/
def encode (time : TimeFormat) (p : Proxy) : Json :=
  .obj [
    ("host", .str p.host),
    ("port", .int p.port.toNat),
    ("protocol", p.protocol.encode),
    ("latency_ewma", Json.encodeFloat p.latencyEwma),
    ("success_count", .int p.successCount),
    ("fail_count", .int p.failCount),
    ("consecutive_fails", .int p.consecutiveFails.toNat),
    ("last_check", Json.encodeOption time.encode p.lastCheck),
    ("last_success", Json.encodeOption time.encode p.lastSuccess),
    ("last_fail", Json.encodeOption time.encode p.lastFail),
    ("country", Json.encodeOption .str p.country),
    ("manual", .bool p.manual),
    ("priority_boost", Json.encodeFloat p.priorityBoost),
    ("tls_clean", Json.encodeOption .bool p.tlsClean),
    ("uptime_max_secs", .int p.uptimeMaxSecs)]

/-- The derived `Deserialize`. The last two fields have a default, the skipped ones have nothing
else. -/
def decode (time : TimeFormat) (j : Json) : Option Proxy := do
  let host ← j.field "host" Json.decodeString none
  let port ← j.field "port" (Json.decodeUint (2 ^ 16)) none
  let protocol ← j.field "protocol" Protocol.decode none
  let latencyEwma ← j.field "latency_ewma" Json.decodeFloat none
  let successCount ← j.field "success_count" Json.decodeNat none
  let failCount ← j.field "fail_count" Json.decodeNat none
  let consecutiveFails ← j.field "consecutive_fails" (Json.decodeUint (2 ^ 32)) none
  let lastCheck ← j.field "last_check" (Json.decodeOption time.decode) (some none)
  let lastSuccess ← j.field "last_success" (Json.decodeOption time.decode) (some none)
  let lastFail ← j.field "last_fail" (Json.decodeOption time.decode) (some none)
  let country ← j.field "country" (Json.decodeOption Json.decodeString) (some none)
  let manual ← j.field "manual" Json.decodeBool none
  let priorityBoost ← j.field "priority_boost" Json.decodeFloat none
  let tlsClean ← j.field "tls_clean" (Json.decodeOption Json.decodeBool) (some none)
  let uptimeMaxSecs ← j.field "uptime_max_secs" Json.decodeNat (some 0)
  pure {
    host, port := .ofNat port, protocol, latencyEwma, successCount, failCount,
    consecutiveFails := .ofNat consecutiveFails, lastCheck, lastSuccess, lastFail, country, manual,
    priorityBoost, tlsClean, uptimeMaxSecs, status := none, circuitOpenUntil := none,
    uptimeStreakStart := none }

end Proxy

namespace SharedState

/-- The document of `save_state_to`: the proxies that have been checked. -/
def saveStateTo (s : SharedState) (time : TimeFormat) (it : s.proxies.Iteration) : Json :=
  .arr ((it.values.filter (·.lastCheck.isSome)).map (Proxy.encode time))

/-- What `load_state_from` inserts for a record of the file. -/
def restored (now : Clock) (p : Proxy) : Proxy :=
  if Act.isRecent now p then p.markPresumedAlive else p

/-- The number of proxies loaded, and the pool after it; the file is missing where it does not
exist, cannot be read or is no JSON. -/
def loadStateFrom (s : SharedState) (time : TimeFormat) (now : Clock) (file : Option Json) :
    ℕ × SharedState :=
  match file.bind (Json.decodeVec (Proxy.decode time)) with
  | some proxies =>
    (proxies.length, proxies.foldl (fun s p => (s.insertIfAbsent (restored now p)).2) s)
  | none => (0, s)

/-- What is in the pool stays there. -/
theorem get_insertIfAbsent_of_get {s : SharedState} {k : String} {p : Proxy}
    (h : s.proxies.get k = some p) (q : Proxy) :
    (s.insertIfAbsent q).2.proxies.get k = some p := by
  unfold insertIfAbsent
  split_ifs with _ hin
  · exact h
  · exact h
  · have hne : k ≠ q.key := fun hk => hin (hk ▸ FinMap.mem_of_get h)
    exact (FinMap.get_insert_of_ne _ _ hne).trans h

end SharedState

namespace Proxy

/-- Its floats are finite. -/
structure Finite (p : Proxy) : Prop where
  latencyEwma : |p.latencyEwma| ≤ Json.f64Max
  priorityBoost : |p.priorityBoost| ≤ Json.f64Max

/-- The timestamps of the record are read back as they were written. -/
def TimesKept (time : TimeFormat) (p : Proxy) : Prop :=
  ∀ t, p.lastCheck = some t ∨ p.lastSuccess = some t ∨ p.lastFail = some t →
    time.parse (time.format t) = some t

theorem decode_encode {time : TimeFormat} {p : Proxy} (hfinite : p.Finite)
    (htimes : p.TimesKept time) : decode time (p.encode time) = some p.reloaded := by
  have hport : Json.decodeUint 65536 (.int p.port.toNat) = some p.port.toNat :=
    Json.decodeUint_int p.port.toNat_lt
  have hfails : Json.decodeUint 4294967296 (.int p.consecutiveFails.toNat) =
      some p.consecutiveFails.toNat := Json.decodeUint_int p.consecutiveFails.toNat_lt
  have htime : ∀ {x : Option DateTime}, (∀ t ∈ x, time.parse (time.format t) = some t) →
      Json.decodeOption time.decode (Json.encodeOption time.encode x) = some x :=
    fun h => Json.decodeOption_encodeOption (fun _ => nofun) h
  have hcheck := htime fun t ht => htimes t (Or.inl ht)
  have hsuccess := htime fun t ht => htimes t (Or.inr (Or.inl ht))
  have hfail := htime fun t ht => htimes t (Or.inr (Or.inr ht))
  have hcountry : Json.decodeOption Json.decodeString (Json.encodeOption .str p.country) =
      some p.country := Json.decodeOption_encodeOption (fun _ => nofun) fun _ _ => rfl
  have htls : Json.decodeOption Json.decodeBool (Json.encodeOption .bool p.tlsClean) =
      some p.tlsClean := Json.decodeOption_encodeOption (fun _ => nofun) fun _ _ => rfl
  simp [decode, encode, Json.field, Json.valuesOf, Json.decodeString, Json.decodeBool, hport,
    hfails, hcheck, hsuccess, hfail, hcountry, htls, Protocol.decode_encode,
    Json.decodeFloat_encodeFloat, hfinite.latencyEwma, hfinite.priorityBoost, reloaded]

end Proxy

/-- Whole hours are below a positive bound exactly when the time is. -/
theorem numHours_lt {d n : ℤ} (hn : 0 < n) : numHours d < n ↔ d < n * 3600000000000 := by
  unfold numHours numSeconds
  rcases le_or_gt 0 d with hd | hd
  · rw [Int.tdiv_eq_ediv_of_nonneg hd, Int.tdiv_eq_ediv_of_nonneg (by omega)]
    omega
  · obtain ⟨e, rfl⟩ : ∃ e, d = -e := ⟨-d, by omega⟩
    rw [Int.neg_tdiv, Int.neg_tdiv, Int.tdiv_eq_ediv_of_nonneg (show 0 ≤ e by omega),
      Int.tdiv_eq_ediv_of_nonneg (show 0 ≤ e / 1000000000 by omega)]
    omega

theorem numHours_lt_one {d : ℤ} : numHours d < 1 ↔ d < 3600000000000 := by
  rw [numHours_lt one_pos, one_mul]

namespace Proxy

theorem finite_new (host : String) (port : UInt16) (protocol : Protocol) :
    (new host port protocol).Finite := by
  constructor
  · rw [show (new host port protocol).latencyEwma = 5000 from rfl, abs_of_pos (by norm_num)]
    exact Json.le_f64Max (by norm_num)
  · rw [show (new host port protocol).priorityBoost = 0 from rfl, abs_zero]
    exact Json.le_f64Max (by norm_num)

/-- A file cannot bring in a float that is not finite. -/
theorem finite_of_decode {time : TimeFormat} {j : Json} {p : Proxy}
    (h : decode time j = some p) : p.Finite := by
  unfold decode at h
  iterate 3 obtain ⟨_, -, h⟩ := Option.bind_eq_some_iff.mp h
  obtain ⟨latency, hlatency, h⟩ := Option.bind_eq_some_iff.mp h
  iterate 8 obtain ⟨_, -, h⟩ := Option.bind_eq_some_iff.mp h
  obtain ⟨boost, hboost, h⟩ := Option.bind_eq_some_iff.mp h
  iterate 2 obtain ⟨_, -, h⟩ := Option.bind_eq_some_iff.mp h
  obtain rfl := Option.some.inj h
  obtain ⟨_, hlatency⟩ := Json.exists_of_field hlatency
  obtain ⟨_, hboost⟩ := Json.exists_of_field hboost
  exact ⟨Json.le_f64Max_of_decodeFloat hlatency, Json.le_f64Max_of_decodeFloat hboost⟩

/-- A sample is at most a minute, so that the average of two finite numbers stays finite. -/
theorem Finite.recordSuccess {p : Proxy} (h : p.Finite) (now : Clock) (latencyMs : F64) :
    (p.recordSuccess now latencyMs).Finite := by
  refine ⟨?_, h.priorityBoost⟩
  have hsample : |sanitizeLatency latencyMs| ≤ Json.f64Max := by
    have hmin : (0 : ℚ) ≤ sanitizeLatency latencyMs ∧ sanitizeLatency latencyMs ≤ 60000 := by
      cases latencyMs <;> simp [sanitizeLatency] <;> norm_num
    rw [abs_of_nonneg hmin.1]
    exact Json.le_f64Max (hmin.2.trans (by norm_num))
  calc |p.latencyEwma * (8 / 10) + sanitizeLatency latencyMs * (2 / 10)|
      ≤ |p.latencyEwma * (8 / 10)| + |sanitizeLatency latencyMs * (2 / 10)| := abs_add_le _ _
    _ = |p.latencyEwma| * (8 / 10) + |sanitizeLatency latencyMs| * (2 / 10) := by
      rw [abs_mul, abs_mul, abs_of_pos (show (0 : ℚ) < 8 / 10 by norm_num),
        abs_of_pos (show (0 : ℚ) < 2 / 10 by norm_num)]
    _ ≤ Json.f64Max * (8 / 10) + Json.f64Max * (2 / 10) := by
      gcongr
      exact h.latencyEwma
    _ = Json.f64Max := by ring

theorem Finite.apply {p : Proxy} (h : p.Finite) (u : Update) (now : Clock) :
    (u.apply p now).Finite := by
  cases u with
  | recordSuccess latencyMs => exact h.recordSuccess now latencyMs
  | recordFail =>
    obtain ⟨deadline, status, heq⟩ := p.exists_recordFail now
    rw [Update.apply, heq]
    exact ⟨h.latencyEwma, h.priorityBoost⟩
  | _ => exact ⟨h.latencyEwma, h.priorityBoost⟩

end Proxy

namespace SharedState

theorem insertAll_spec {proxies : List Proxy} {s : SharedState}
    (hnodup : (proxies.map Proxy.key).Nodup) (hnew : ∀ p ∈ proxies, p.key ∉ s.proxies)
    (hroom : s.maxProxies = 0 ∨ s.proxies.len + proxies.length ≤ s.maxProxies) :
    let t := proxies.foldl (fun s p => (s.insertIfAbsent p).2) s
    (∀ p ∈ proxies, t.proxies.get p.key = some p) ∧
      ∀ k, (∀ p ∈ proxies, p.key ≠ k) → t.proxies.get k = s.proxies.get k := by
  intro t
  have hlen := s.proxies.len_insertAll_le Proxy.key proxies
  have ht : t = { s with proxies := s.proxies.insertAll Proxy.key proxies } :=
    foldl_insertIfAbsent (hroom.imp_right hlen.trans)
  rw [ht]
  dsimp only
  constructor
  · intro p hp
    exact FinMap.get_insertAll_of_nodup hnodup hp (hnew p hp)
  · intro k hk
    rw [FinMap.get_insertAll, List.find?_eq_none.mpr fun p hp => by simpa using hk p hp,
      Option.or_none]

@[simp] theorem key_restored (now : Clock) (p : Proxy) : (restored now p).key = p.key := by
  unfold restored
  split_ifs <;> rfl

theorem finite_restored {p : Proxy} (h : p.Finite) (now : Clock) : (restored now p).Finite := by
  unfold restored
  split_ifs
  · exact ⟨h.latencyEwma, h.priorityBoost⟩
  · exact h

/-- A record as a source or the web API makes it, or as it is restored from a state file. -/
def FromOutside (time : TimeFormat) (p : Proxy) : Prop :=
  (∃ host port protocol, p = .new host port protocol) ∨
    ∃ j q now, Proxy.decode time j = some q ∧ p = restored now q

theorem FromOutside.finite {time : TimeFormat} {p : Proxy} (h : FromOutside time p) :
    p.Finite := by
  rcases h with ⟨host, port, protocol, rfl⟩ | ⟨j, q, now, hq, rfl⟩
  · exact Proxy.finite_new host port protocol
  · exact finite_restored (Proxy.finite_of_decode hq) now

/-- A pool operation; what it inserts comes from outside. -/
def PoolStep (time : TimeFormat) (s : SharedState) (e : Event) (t : SharedState) : Prop :=
  (∀ p, s.Inserts p e.op → FromOutside time p) ∧ s.Step e t

/-- The record is filed under its own key and can be written. -/
structure Storable (k : String) (p : Proxy) : Prop where
  key : p.key = k
  finite : p.Finite

/-- Every record of the pool and of the ban list is storable. -/
structure AllStorable (s : SharedState) : Prop where
  live : ∀ k p, s.proxies.get k = some p → Storable k p
  banned : ∀ k p, s.banned.get k = some p → Storable k p

theorem allStorable_step {time : TimeFormat} {s t : SharedState} {e : Event} (hs : s.AllStorable)
    (h : PoolStep time s e t) : t.AllStorable := by
  have hrecords := h.2.forall_records
    (fun k u p _ _ hp => ⟨(u.key_apply p e.now).trans hp.key, hp.finite.apply u e.now⟩)
    (fun p hp => ⟨rfl, (h.1 p hp).finite⟩) (fun _ _ hp => ⟨rfl, hp.finite⟩) hs.live hs.banned
  exact ⟨hrecords.1, hrecords.2⟩

theorem allStorable_run {time : TimeFormat} (ttl : UInt64) (maxProxies : ℕ)
    (countries : List String) {es : List Event} {t : SharedState}
    (h : Runs.Run (PoolStep time) (withConfig ttl maxProxies countries) es t) : t.AllStorable :=
  h.invariant (fun _ _ _ hs hstep => allStorable_step hs hstep)
    ⟨by simp [withConfig], by simp [withConfig]⟩

/-- What comes back of a saved record: everything that is persisted, and a fresh start if it
succeeded within the last hour. -/
def survivor (now : Clock) (p : Proxy) : Proxy :=
  if p.lastSuccess.any fun t => now.utc - t < fromSecs 3600 then
    { p with
      status := some .presumedAlive, consecutiveFails := 0, circuitOpenUntil := none,
      uptimeStreakStart := none }
  else { p with status := none, circuitOpenUntil := none, uptimeStreakStart := none }

theorem restored_reloaded (now : Clock) (p : Proxy) :
    restored now p.reloaded = survivor now p := by
  have hrecent : Act.isRecent now p.reloaded =
      p.lastSuccess.any fun t => now.utc - t < fromSecs 3600 := by
    show p.lastSuccess.any (fun t => numHours (now.utc - t) < 1) = _
    simp only [numHours_lt_one]
    rfl
  rw [restored, hrecent]
  rfl

theorem key_survivor (now : Clock) (p : Proxy) : (survivor now p).key = p.key := by
  unfold survivor
  split_ifs <;> rfl

/-- The file decodes to the checked records, without what only lives at run time. -/
theorem decode_saveStateTo {s : SharedState} {time : TimeFormat} (hs : s.AllStorable)
    (htimes : ∀ k p, s.proxies.get k = some p → p.TimesKept time) (it : s.proxies.Iteration) :
    Json.decodeVec (Proxy.decode time) (s.saveStateTo time it) =
      some ((it.values.filter (·.lastCheck.isSome)).map Proxy.reloaded) := by
  apply Json.decodeVec_map
  intro p hp
  obtain ⟨k, hk⟩ := FinMap.Iteration.mem_values.mp (List.mem_of_mem_filter hp)
  exact Proxy.decode_encode (hs.live k p hk).finite (htimes k p hk)

theorem loadStateFrom_saved {s : SharedState} {time : TimeFormat} (hs : s.AllStorable)
    (htimes : ∀ k p, s.proxies.get k = some p → p.TimesKept time) (it : s.proxies.Iteration)
    (now : Clock) (t : SharedState) :
    t.loadStateFrom time now (some (s.saveStateTo time it)) =
      ((it.values.filter (·.lastCheck.isSome)).length,
        ((it.values.filter (·.lastCheck.isSome)).map (survivor now)).foldl
          (fun s p => (s.insertIfAbsent p).2) t) := by
  simp only [loadStateFrom, Option.bind_some, decode_saveStateTo hs htimes it, List.length_map,
    List.foldl_map, restored_reloaded]

/-- What is loaded has the keys under which it was stored. -/
theorem nodup_survivors {s : SharedState} (hs : s.AllStorable) (it : s.proxies.Iteration)
    (now : Clock) :
    (((it.values.filter (·.lastCheck.isSome)).map (survivor now)).map Proxy.key).Nodup := by
  have hkeys : Proxy.key ∘ survivor now = Proxy.key := funext (key_survivor now)
  have hall : (it.values.map Proxy.key).Nodup := by
    rw [it.map_values fun k p hp => (hs.live k p hp).key]
    exact it.nodup
  rw [List.map_map, hkeys]
  exact hall.sublist (List.filter_sublist.map _)

theorem mem_survivors {s : SharedState} {it : s.proxies.Iteration} {now : Clock} {p : Proxy} :
    p ∈ (it.values.filter (·.lastCheck.isSome)).map (survivor now) ↔
      ∃ k q, (s.proxies.get k).filter (·.lastCheck.isSome) = some q ∧ survivor now q = p := by
  simp only [List.mem_map, List.mem_filter, FinMap.Iteration.mem_values,
    Option.filter_eq_some_iff]
  constructor
  · rintro ⟨q, ⟨⟨k, hk⟩, hchecked⟩, hq⟩
    exact ⟨k, q, ⟨hk, hchecked⟩, hq⟩
  · rintro ⟨k, q, ⟨hk, hchecked⟩, hq⟩
    exact ⟨q, ⟨⟨k, hk⟩, hchecked⟩, hq⟩

theorem key_of_survivor {s : SharedState} (hs : s.AllStorable) {k : String} {q : Proxy}
    {now : Clock} (h : (s.proxies.get k).filter (·.lastCheck.isSome) = some q) :
    (survivor now q).key = k :=
  (key_survivor now q).trans (hs.live k q (Option.filter_eq_some_iff.mp h).1).key

def epochFormat : TimeFormat where
  format _ := "1970-01-01T00:00:00Z"
  parse text := if text = "1970-01-01T00:00:00Z" then some 0 else none

def addedAndChecked : List Event :=
  [⟨⟨0, 0⟩, .addProxy ⟨"5.6.7.8", 3128, none⟩, some ⟨true, "Proxy 5.6.7.8:3128 added"⟩⟩,
    ⟨⟨0, 0⟩, .recordSuccess "5.6.7.8:3128" (.finite 100), none⟩]

def checkedPool : SharedState :=
  ((withConfig 300 5000 []).addProxy ⟨"5.6.7.8", 3128, none⟩).2.recordSuccess ⟨0, 0⟩
    "5.6.7.8:3128" (.finite 100)

end SharedState

end VpnGateway
