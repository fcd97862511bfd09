import VpnGateway.Pool.Persistence

/-! A restart of the gateway. The save reads the pool shard by shard while everything else goes
on; what it writes is no state that the pool ever had, and still enough to go on from. -/
namespace VpnGateway

open Runs

/-- A save under way: `all_proxies` has read the shards below `next`, each under its lock. -/
structure Saving where
  pool : SharedState
  next : ℕ
  seen : List Proxy

inductive SaveEvent where
  | op (e : Event)
  | readShard

/-- The document of `save_state_to` for the records that it has collected. -/
def savedDocument (time : TimeFormat) (proxies : List Proxy) : Json :=
  .arr ((proxies.filter (·.lastCheck.isSome)).map (Proxy.encode time))

/-- Without anything in between, a save reads the pool as one scan. -/
theorem savedDocument_values (s : SharedState) (time : TimeFormat) (it : s.proxies.Iteration) :
    savedDocument time it.values = s.saveStateTo time it := rfl

namespace Saving

def start (s : SharedState) : Saving := ⟨s, 0, []⟩

/-- `shard` is where the map files a key. -/
inductive Step (time : TimeFormat) (shard : String → ℕ) (w : Saving) : SaveEvent → Saving → Prop
    where
  | op {e : Event} {t : SharedState} (h : SharedState.PoolStep time w.pool e t) :
      Step time shard w (.op e) { w with pool := t }
  | readShard (it : w.pool.proxies.Iteration) : Step time shard w .readShard
      { w with
        next := w.next + 1
        seen := w.seen ++ (it.entries.filter fun e => shard e.1 = w.next).map Prod.snd }

/-- A state that the gateway is in at some time of the save. -/
def Visits (time : TimeFormat) (shard : String → ℕ) (w : Saving) (es : List SaveEvent)
    (u : Saving) : Prop :=
  ∃ before after, es = before ++ after ∧ Run (Step time shard) w before u

/-- What is collected so far: one record for each key of the shards read. -/
structure Orderly (shard : String → ℕ) (w : Saving) : Prop where
  storable : w.pool.AllStorable
  finite : ∀ p ∈ w.seen, p.Finite
  read : ∀ p ∈ w.seen, shard p.key < w.next
  distinct : (w.seen.map Proxy.key).Nodup

variable {time : TimeFormat} {shard : String → ℕ} {w w' u : Saving} {e : SaveEvent}
  {es : List SaveEvent} {k : String} {p : Proxy}

theorem mem_shardRecords {it : w.pool.proxies.Iteration} {n : ℕ} :
    p ∈ (it.entries.filter fun e => shard e.1 = n).map Prod.snd ↔
      ∃ k, w.pool.proxies.get k = some p ∧ shard k = n := by
  simp only [List.mem_map, List.mem_filter, FinMap.Iteration.mem_entries, decide_eq_true_eq]
  constructor
  · rintro ⟨⟨k, p⟩, ⟨hk, hshard⟩, rfl⟩
    exact ⟨k, hk, hshard⟩
  · rintro ⟨k, hk, hshard⟩
    exact ⟨(k, p), ⟨hk, hshard⟩, rfl⟩

theorem nodup_shardRecords (h : w.pool.AllStorable) (it : w.pool.proxies.Iteration) (n : ℕ) :
    (((it.entries.filter fun e => shard e.1 = n).map Prod.snd).map Proxy.key).Nodup := by
  have hvalues : (it.values.map Proxy.key).Nodup := by
    rw [it.map_values fun k p hp => (h.live k p hp).key]
    exact it.nodup
  have hsub := (List.filter_sublist (p := fun e : String × Proxy => shard e.1 = n)
    (l := it.entries)).map Prod.snd
  rw [it.map_snd_entries] at hsub
  exact hvalues.sublist (hsub.map Proxy.key)

theorem Orderly.step (hw : w.Orderly shard) (h : Step time shard w e w') : w'.Orderly shard := by
  cases h with
  | op h => exact { hw with storable := SharedState.allStorable_step hw.storable h }
  | readShard it =>
    have hnew : ∀ p ∈ (it.entries.filter fun e => shard e.1 = w.next).map Prod.snd,
        p.Finite ∧ shard p.key = w.next := by
      intro p hp
      obtain ⟨k, hk, hshard⟩ := mem_shardRecords.mp hp
      have hstorable := hw.storable.live k p hk
      exact ⟨hstorable.finite, by rw [hstorable.key, hshard]⟩
    refine ⟨hw.storable, fun p hp => ?_, fun p hp => ?_, ?_⟩
    · rcases List.mem_append.mp hp with hp | hp
      · exact hw.finite p hp
      · exact (hnew p hp).1
    · rcases List.mem_append.mp hp with hp | hp
      · exact (hw.read p hp).trans (Nat.lt_succ_self _)
      · exact (hnew p hp).2.trans_lt (Nat.lt_succ_self _)
    · rw [List.map_append, List.nodup_append]
      refine ⟨hw.distinct, nodup_shardRecords hw.storable it w.next, ?_⟩
      rintro k hold k' hk' rfl
      obtain ⟨p, hp, rfl⟩ := List.mem_map.mp hold
      obtain ⟨q, hq, hkey⟩ := List.mem_map.mp hk'
      have hread := hw.read p hp
      have hshard := (hnew q hq).2
      rw [hkey] at hshard
      omega

theorem Visits.self (w : Saving) (es : List SaveEvent) : Visits time shard w es w :=
  ⟨[], es, rfl, .nil w⟩

theorem Visits.cons (head : Step time shard w e w') (h : Visits time shard w' es u) :
    Visits time shard w (e :: es) u := by
  obtain ⟨before, after, rfl, hrun⟩ := h
  exact ⟨e :: before, after, rfl, .cons head hrun⟩

/-- What is collected was in the pool at some time of the save. -/
theorem visited_of_seen (h : Run (Step time shard) w es w') (hw : w.Orderly shard)
    (hp : p ∈ w'.seen) :
    p ∈ w.seen ∨ ∃ u, Visits time shard w es u ∧ u.pool.proxies.get p.key = some p := by
  induction h with
  | nil => exact Or.inl hp
  | @cons w v w' e es head _ ih =>
    rcases ih (hw.step head) hp with hseen | ⟨u, hu, hget⟩
    · cases head with
      | op h => exact Or.inl hseen
      | readShard it =>
        refine (List.mem_append.mp hseen).imp_right fun hnew => ?_
        obtain ⟨k, hk, -⟩ := mem_shardRecords.mp hnew
        exact ⟨w, .self w _, by rw [(hw.storable.live k p hk).key, hk]⟩
    · exact Or.inr ⟨u, hu.cons head, hget⟩

theorem seen_of_run (h : Run (Step time shard) w es w') (hp : p ∈ w.seen) : p ∈ w'.seen := by
  induction h with
  | nil => exact hp
  | cons head _ ih =>
    cases head with
    | op h => exact ih hp
    | readShard it => exact ih (List.mem_append_left _ hp)

/-- Whoever is in the pool all the time is collected when its shard is read, and has then what it
has all the time. -/
theorem seen_of_stays {P : Proxy → Prop} (h : Run (Step time shard) w es w')
    (hw : w.Orderly shard)
    (hstays : ∀ u, Visits time shard w es u → ∃ p, u.pool.proxies.get k = some p ∧ P p)
    (hnext : w.next ≤ shard k) (hdone : shard k < w'.next) : ∃ p ∈ w'.seen, p.key = k ∧ P p := by
  induction h with
  | nil => omega
  | @cons w v w' e es head tail ih =>
    have hstays' : ∀ u, Visits time shard v es u → ∃ p, u.pool.proxies.get k = some p ∧ P p :=
      fun u hu => hstays u (hu.cons head)
    have hv := hw.step head
    cases head with
    | op h => exact ih hv hstays' hnext hdone
    | readShard it =>
      rcases hnext.eq_or_lt with heq | hlt
      · obtain ⟨p, hp, hP⟩ := hstays w (.self w _)
        have hread : p ∈ (it.entries.filter fun e => shard e.1 = w.next).map Prod.snd :=
          mem_shardRecords.mpr ⟨k, hp, heq.symm⟩
        exact ⟨p, seen_of_run tail (List.mem_append_right _ hread),
          (hw.storable.live k p hp).key, hP⟩
      · exact ih hv hstays' hlt hdone

theorem orderly_start {s : SharedState} (h : s.AllStorable) : (start s).Orderly shard :=
  ⟨h, by simp [start], by simp [start], by simp [start]⟩

theorem orderly_run (h : Run (Step time shard) w es w') (hw : w.Orderly shard) :
    w'.Orderly shard := h.invariant (fun _ _ _ hs hstep => hs.step hstep) hw

end Saving

/-- The proxy succeeded within the last hour. -/
def RecentlyUp (now : Clock) (p : Proxy) : Prop :=
  ∃ t, p.lastSuccess = some t ∧ now.utc - t < fromSecs 3600

theorem any_lastSuccess {now : Clock} {p : Proxy} :
    (p.lastSuccess.any fun t => now.utc - t < fromSecs 3600) = true ↔ RecentlyUp now p := by
  unfold RecentlyUp
  cases p.lastSuccess <;> simp

namespace SharedState

theorem survivor_status {later : Clock} {p : Proxy} :
    (survivor later p).status = some .presumedAlive ∧ RecentlyUp later p ∨
      (survivor later p).status = none := by
  unfold survivor
  split_ifs with h
  · exact Or.inl ⟨rfl, any_lastSuccess.mp h⟩
  · exact Or.inr rfl

theorem status_survivor_of_recentlyUp {later : Clock} {p : Proxy} (h : RecentlyUp later p) :
    (survivor later p).status = some .presumedAlive := by
  rw [survivor, if_pos (any_lastSuccess.mpr h)]

@[simp] theorem circuitOpenUntil_survivor (later : Clock) (p : Proxy) :
    (survivor later p).circuitOpenUntil = none := by
  unfold survivor
  split_ifs <;> rfl

@[simp] theorem country_survivor (later : Clock) (p : Proxy) :
    (survivor later p).country = p.country := by
  unfold survivor
  split_ifs <;> rfl

/-- The file gives back one record for each one that was written. -/
theorem get_loaded {time : TimeFormat} {seen : List Proxy} {t : SharedState} {later : Clock}
    (hfinite : ∀ p ∈ seen, p.Finite) (htimes : ∀ p ∈ seen, p.TimesKept time)
    (hnodup : (seen.map Proxy.key).Nodup) (hempty : t.proxies = .empty)
    (hroom : t.maxProxies = 0 ∨ seen.countP (·.lastCheck.isSome) ≤ t.maxProxies) {k : String}
    {q : Proxy} :
    (t.loadStateFrom time later (some (savedDocument time seen))).2.proxies.get k = some q ↔
      ∃ p ∈ seen, p.lastCheck.isSome ∧ p.key = k ∧ survivor later p = q := by
  let checked := seen.filter (·.lastCheck.isSome)
  let records := checked.map (survivor later)
  have hmem : ∀ p, p ∈ checked ↔ p ∈ seen ∧ p.lastCheck.isSome := fun p => List.mem_filter
  have hdecode : Json.decodeVec (Proxy.decode time) (savedDocument time seen) =
      some (checked.map Proxy.reloaded) :=
    Json.decodeVec_map fun p hp =>
      Proxy.decode_encode (hfinite p ((hmem p).mp hp).1) (htimes p ((hmem p).mp hp).1)
  have hload : (t.loadStateFrom time later (some (savedDocument time seen))).2 =
      records.foldl (fun s p => (s.insertIfAbsent p).2) t := by
    simp only [loadStateFrom, Option.bind_some, hdecode, List.foldl_map, restored_reloaded, records]
  have hkeys : records.map Proxy.key = checked.map Proxy.key := by
    rw [List.map_map]
    exact List.map_congr_left fun p _ => key_survivor later p
  have hdistinct : (records.map Proxy.key).Nodup := by
    rw [hkeys]
    exact hnodup.sublist (List.filter_sublist.map Proxy.key)
  have hlen : records.length = seen.countP (·.lastCheck.isSome) := by
    rw [List.length_map, List.countP_eq_length_filter]
  have hzero : t.proxies.len = 0 := by rw [hempty]; rfl
  obtain ⟨hin, hout⟩ := insertAll_spec (s := t) hdistinct (fun p _ => by simp [hempty])
    (hroom.imp_right fun h => by omega)
  rw [hload]
  constructor
  · intro hget
    by_cases hk : ∀ r ∈ records, r.key ≠ k
    · rw [hout k hk, hempty] at hget
      cases hget
    · push Not at hk
      obtain ⟨r, hr, rfl⟩ := hk
      rw [hin r hr] at hget
      obtain rfl := Option.some.inj hget
      obtain ⟨p, hp, rfl⟩ := List.mem_map.mp hr
      exact ⟨p, ((hmem p).mp hp).1, ((hmem p).mp hp).2, (key_survivor later p).symm, rfl⟩
  · rintro ⟨p, hp, hchecked, rfl, rfl⟩
    have hget := hin _ (List.mem_map_of_mem ((hmem p).mpr ⟨hp, hchecked⟩))
    rwa [key_survivor] at hget

/-- New proxies are filed beside the old ones. -/
theorem get_inserts {fresh : List Proxy} {s : SharedState} {k : String} {p : Proxy}
    (h : s.proxies.get k = some p) :
    (fresh.foldl (fun s p => (s.insertIfAbsent p).2) s).proxies.get k = some p := by
  induction fresh generalizing s with
  | nil => exact h
  | cons q fresh ih => exact ih (get_insertIfAbsent_of_get h q)

theorem of_get_inserts {fresh : List Proxy} {s : SharedState} {k : String} {p : Proxy}
    (h : (fresh.foldl (fun s p => (s.insertIfAbsent p).2) s).proxies.get k = some p) :
    s.proxies.get k = some p ∨ p ∈ fresh := by
  induction fresh generalizing s with
  | nil => exact Or.inl h
  | cons q fresh ih =>
    rcases ih h with hget | hmem
    · rcases get_insertIfAbsent hget with hold | ⟨rfl, -, -⟩
      · exact Or.inl hold
      · exact Or.inr List.mem_cons_self
    · exact Or.inr (List.mem_cons_of_mem _ hmem)

theorem excludeCountries_inserts (fresh : List Proxy) (s : SharedState) :
    (fresh.foldl (fun s p => (s.insertIfAbsent p).2) s).excludeCountries = s.excludeCountries := by
  induction fresh generalizing s with
  | nil => rfl
  | cons q fresh ih =>
    rw [List.foldl_cons, ih]
    unfold insertIfAbsent
    split_ifs <;> rfl

theorem excludeCountries_loaded {time : TimeFormat} {s : SharedState} {later : Clock}
    {file : Option Json} :
    (s.loadStateFrom time later file).2.excludeCountries = s.excludeCountries := by
  unfold loadStateFrom
  split
  next proxies _ =>
    have hinserts := excludeCountries_inserts (proxies.map (restored later)) s
    rwa [List.foldl_map] at hinserts
  next => rfl

/-- Among records that are not verified, selection takes a presumed alive one if there is any. -/
theorem selectBest_presumedAlive {s : SharedState} {k : String} {p : Proxy}
    (hverified : ∀ k p, s.proxies.get k = some p → p.status ≠ some .verified)
    (hget : s.proxies.get k = some p) (hstatus : p.status = some .presumedAlive)
    (hclosed : p.circuitOpenUntil = none) (hexclude : s.isExcluded p = false) (c : s.Choice) :
    ∃ q, s.selectBest c = some q ∧ (∃ j, s.proxies.get j = some q) ∧
      q.status = some .presumedAlive := by
  have hfirst : s.selectTop c (s.hasStatus c.now .verified) = none :=
    selectTop_eq_none.mpr fun j q hq hst => hverified j q hq (hasStatus_iff.mp hst).2
  have hsecond : s.selectTop c (s.hasStatus c.now .presumedAlive) ≠ none := by
    intro hnone
    refine selectTop_eq_none.mp hnone k p hget (hasStatus_iff.mpr ⟨isUsable_iff.mpr ?_, hstatus⟩)
    exact ⟨Proxy.isAvailable_of_closed hclosed c.now, hexclude⟩
  obtain ⟨q, hq⟩ := Option.ne_none_iff_exists'.mp hsecond
  obtain ⟨hstored, hfilter, -⟩ := selectTop_spec hq
  refine ⟨q, ?_, hstored, (hasStatus_iff.mp hfilter).2⟩
  rw [selectBest, hfirst, hq, Option.none_or, Option.some_or]

end SharedState

namespace Saving

open SharedState

theorem run_checkedPool :
    Run (PoolStep epochFormat) (withConfig 300 5000 []) addedAndChecked checkedPool := by
  refine .cons ⟨?_, rfl⟩ (.single ⟨fun _ h => False.elim h, rfl⟩)
  rintro p ⟨rfl, -⟩
  exact Or.inl ⟨_, _, _, rfl⟩

/-- The one proxy that was checked at the epoch. -/
def checkedProxy : Proxy := (Proxy.new "5.6.7.8" 3128 .http).recordSuccess ⟨0, 0⟩ (.finite 100)

theorem visits_checkedPool {time : TimeFormat} {shard : String → ℕ} {u : Saving}
    (h : Visits time shard (start checkedPool) [.readShard] u) : u.pool = checkedPool := by
  obtain ⟨before, after, hes, hrun⟩ := h
  rcases before with - | ⟨e, before⟩
  · cases hrun
    rfl
  · obtain ⟨rfl, hrest⟩ := List.cons.inj hes
    obtain ⟨rfl, -⟩ := List.append_eq_nil_iff.mp hrest.symm
    cases hrun with
    | cons head tail =>
      cases tail
      cases head
      rfl

theorem get_checkedPool : checkedPool.proxies.get "5.6.7.8:3128" = some checkedProxy := rfl

theorem values_checkedPool {p : Proxy} (h : ∃ k, checkedPool.proxies.get k = some p) :
    p = checkedProxy := by
  obtain ⟨k, hk⟩ := h
  obtain ⟨q, hq, ⟨rfl⟩ | ⟨-, rfl⟩⟩ := FinMap.get_modify_some hk
  all_goals
    have hadd : ((withConfig 300 5000 []).addProxy ⟨"5.6.7.8", 3128, none⟩).2.proxies =
        FinMap.empty.insert "5.6.7.8:3128" (.new "5.6.7.8" 3128 .http) := rfl
    rw [hadd, FinMap.get_insert] at hq
    split_ifs at hq with hkey
  · subst hkey
    exact Option.some.inj (hk.symm.trans get_checkedPool)
  · cases hq
  · obtain rfl := Option.some.inj hq
    rfl
  · cases hq

def tenMinutes : Clock := ⟨0, fromSecs 600⟩

def newcomer : Proxy := .new "9.9.9.9" 80 .http

theorem newcomer_unchecked : newcomer.status = some .unchecked := rfl

/-- The pool that is loaded ten minutes later, and one new proxy from a source. -/
def restarted (w : Saving) : SharedState :=
  [newcomer].foldl (fun s p => (s.insertIfAbsent p).2)
    ((withConfig 300 0 []).loadStateFrom epochFormat tenMinutes
      (some (savedDocument epochFormat w.seen))).2

end Saving

end VpnGateway
