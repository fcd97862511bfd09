import VpnGateway.Core.Text
import VpnGateway.Pool.Keys

/-! A full refresh of the pool from its sources, whose answers arrive in any order. -/
namespace VpnGateway

namespace Sources

/-- One number of an IPv4 address: up to 255, without a zero in front. -/
def octet : List Char → Option ℕ
  | [] => none
  | '0' :: _ :: _ => none
  | digits => digits.foldlM (Text.pushDigit 256) 0

/-- Whether `str::parse::<Ipv4Addr>` succeeds. -/
def isIpv4Addr (s : List Char) : Bool :=
  let parts := s.splitOn '.'
  parts.length = 4 && parts.all fun part => (octet part).isSome

/-- `splitn(2, ':')`: what is before the first colon, and what is after it if there is one. -/
def splitColon (s : List Char) : List Char × Option (List Char) :=
  match s.span (· ≠ ':') with
  | (host, _ :: rest) => (host, some rest)
  | (host, []) => (host, none)

def parseLine (line : List Char) (protocol : Protocol) : Option Proxy :=
  let line := Text.trim line
  if line = [] ∨ line.head? = some '#' then none
  else
    let (host, port) := splitColon line
    let host := Text.trim host
    (port.bind fun port => Text.parseU16 (Text.trim port)).bind fun port =>
      if isIpv4Addr host then some (.new (String.ofList host) (UInt16.ofNat port) protocol)
      else none

/-- What one source answers: the protocol its URL stands for, and the body. -/
structure Response where
  protocol : Protocol
  text : List Char

def maxPerSource : ℕ := 500

def fetchSource (r : Response) : List Proxy :=
  (Text.lines r.text).filterMap fun line => parseLine line r.protocol

/-- The proxies that the responses offer to the pool, in this order. -/
def accepted (responses : List Response) : List Proxy :=
  responses.flatMap fun r => (fetchSource r).take maxPerSource

/-- A parsed line is a new proxy of the source's protocol. -/
theorem eq_new_of_parseLine {line : List Char} {protocol : Protocol} {p : Proxy}
    (h : parseLine line protocol = some p) : ∃ host port, p = .new host port protocol := by
  simp only [parseLine] at h
  split at h
  · cases h
  · obtain ⟨port, -, hp⟩ := Option.bind_eq_some_iff.mp h
    split at hp
    · exact ⟨_, _, (Option.some.inj hp).symm⟩
    · cases hp

/-- An accepted proxy is a new one. -/
theorem eq_new_of_accepted {responses : List Response} {p : Proxy} (h : p ∈ accepted responses) :
    p = .new p.host p.port p.protocol := by
  obtain ⟨r, -, hp⟩ := List.mem_flatMap.mp h
  obtain ⟨line, -, hline⟩ := List.mem_filterMap.mp (List.mem_of_mem_take hp)
  obtain ⟨host, port, rfl⟩ := eq_new_of_parseLine hline
  rfl

example : (parseLine " 1.2.3.4:8080 ".toList .http).isSome := by decide

example : parseLine "1.2.3.4:8080:extra".toList .http = none := by decide

example : parseLine "01.2.3.4:8080".toList .http = none := by decide

end Sources

open Sources

namespace SharedState

/-- The number of new proxies so far, and the state. -/
def insertCounted (r : ℕ × SharedState) (proxy : Proxy) : ℕ × SharedState :=
  ((if (r.2.insertIfAbsent proxy).1 then r.1 + 1 else r.1), (r.2.insertIfAbsent proxy).2)

/-- `full_refresh_with_sources` for the responses in the order of their arrival. -/
def fullRefresh (s : SharedState) (responses : List Response) (now : Clock) : ℕ × SharedState :=
  let r := responses.foldl
    (fun r response => ((fetchSource response).take maxPerSource).foldl insertCounted r) (0, s)
  (r.1, r.2.cleanupStale now)

/-- The pool has room for every address that the responses list. -/
def HasRoom (s : SharedState) (responses : List Response) : Prop :=
  s.maxProxies = 0 ∨ (s.proxies.insertAll Proxy.key (accepted responses)).len ≤ s.maxProxies

/-- The entries of the pool as a refresh tells them apart. -/
def entries (s : SharedState) : Set (String × UInt16 × Protocol) :=
  {e | ∃ k p, s.proxies.get k = some p ∧ e = (p.host, p.port, p.protocol)}

def addresses (s : SharedState) : Set (String × UInt16) :=
  {e | ∃ k p, s.proxies.get k = some p ∧ e = (p.host, p.port)}

/-- The address is new to the pool, and the responses list it under two protocols. -/
def ListedTwice (s : SharedState) (responses : List Response) (k : String) : Prop :=
  k ∉ s.proxies ∧ ∃ p ∈ accepted responses, ∃ q ∈ accepted responses,
    p.key = k ∧ q.key = k ∧ p.protocol ≠ q.protocol

theorem insertCounted_fst (r : ℕ × SharedState) (p : Proxy) :
    (insertCounted r p).1 + r.2.proxies.len = r.1 + (insertCounted r p).2.proxies.len := by
  by_cases hfull : r.2.IsFull
  · simp [insertCounted, insertIfAbsent, hfull]
  by_cases hin : p.key ∈ r.2.proxies
  · simp [insertCounted, insertIfAbsent, hfull, hin]
  · simp only [insertCounted, insertIfAbsent, hfull, hin, ↓reduceIte,
      FinMap.len_insert_of_notMem hin]
    omega

/-- The count is by how many entries the pool grows. -/
theorem foldl_insertCounted_fst (proxies : List Proxy) (r : ℕ × SharedState) :
    (proxies.foldl insertCounted r).1 + r.2.proxies.len =
      r.1 + (proxies.foldl insertCounted r).2.proxies.len := by
  induction proxies generalizing r with
  | nil => rfl
  | cons p proxies ih =>
    have hstep := insertCounted_fst r p
    have hrest := ih (insertCounted r p)
    rw [List.foldl_cons]
    omega

theorem foldl_insertCounted_snd (proxies : List Proxy) (r : ℕ × SharedState) :
    (proxies.foldl insertCounted r).2 =
      proxies.foldl (fun s p => (s.insertIfAbsent p).2) r.2 :=
  (List.foldl_hom Prod.snd fun _ _ => rfl).symm

/-- With room for all of them, the first proxy of each new key is filed and counted. -/
theorem foldl_insertCounted {proxies : List Proxy} {s : SharedState}
    (hroom : s.maxProxies = 0 ∨ (s.proxies.insertAll Proxy.key proxies).len ≤ s.maxProxies) :
    proxies.foldl insertCounted (0, s) =
      ((s.proxies.insertAll Proxy.key proxies).len - s.proxies.len,
        { s with proxies := s.proxies.insertAll Proxy.key proxies }) := by
  have hsnd : (proxies.foldl insertCounted (0, s)).2 =
      { s with proxies := s.proxies.insertAll Proxy.key proxies } :=
    (foldl_insertCounted_snd proxies (0, s)).trans (foldl_insertIfAbsent hroom)
  have hfst := foldl_insertCounted_fst proxies (0, s)
  rw [hsnd] at hfst
  exact Prod.ext (Nat.eq_sub_of_add_eq (hfst.trans (Nat.zero_add _))) hsnd

theorem fullRefresh_eq {s : SharedState} {responses : List Response}
    (hroom : s.HasRoom responses) (now : Clock) :
    s.fullRefresh responses now =
      ((s.proxies.insertAll Proxy.key (accepted responses)).len - s.proxies.len,
        { s with proxies := s.proxies.insertAll Proxy.key (accepted responses) }.cleanupStale
          now) := by
  have hfold : responses.foldl
      (fun r response => ((fetchSource response).take maxPerSource).foldl insertCounted r) (0, s) =
      (accepted responses).foldl insertCounted (0, s) := List.foldl_flatMap.symm
  simp only [fullRefresh, hfold, foldl_insertCounted hroom]

theorem accepted_perm {responses order : List Response} (h : order.Perm responses) :
    (accepted order).Perm (accepted responses) := h.flatMap_right _

theorem HasRoom.of_perm {s : SharedState} {responses order : List Response}
    (hroom : s.HasRoom responses) (h : order.Perm responses) : s.HasRoom order := by
  rw [HasRoom, s.proxies.len_insertAll_of_perm Proxy.key (accepted_perm h)]
  exact hroom

theorem get_fullRefresh {s : SharedState} {responses : List Response}
    (hroom : s.HasRoom responses) (now : Clock) (k : String) :
    (s.fullRefresh responses now).2.proxies.get k =
      ((s.proxies.insertAll Proxy.key (accepted responses)).get k).filter (keepsStale now) := by
  rw [fullRefresh_eq hroom]
  rfl

/-- A new proxy was never checked, so the cleanup keeps it. -/
theorem keepsStale_of_accepted {responses : List Response} {p : Proxy}
    (h : p ∈ accepted responses) (now : Clock) : keepsStale now p := by
  rw [eq_new_of_accepted h]
  rfl

/-- An entry after a refresh was in the pool before, or is the first accepted one of its key. -/
theorem get_fullRefresh_cases {s : SharedState} {responses : List Response}
    (hroom : s.HasRoom responses) (now : Clock) (k : String) :
    (∃ p, s.proxies.get k = some p ∧ (s.fullRefresh responses now).2.proxies.get k =
      if keepsStale now p then some p else none) ∨
    k ∉ s.proxies ∧ (s.fullRefresh responses now).2.proxies.get k =
      (accepted responses).find? fun p => p.key = k := by
  rw [get_fullRefresh hroom, FinMap.get_insertAll]
  cases hk : s.proxies.get k with
  | some p => exact Or.inl ⟨p, rfl, by rw [Option.some_or, Option.filter_some]⟩
  | none =>
    refine Or.inr ⟨FinMap.notMem_iff.mpr hk, ?_⟩
    rw [Option.none_or]
    cases hp : (accepted responses).find? fun p => p.key = k with
    | none => rfl
    | some p =>
      rw [Option.filter_some, if_pos (keepsStale_of_accepted (List.mem_of_find?_eq_some hp) now)]

/-- Two orders file entries with the same key under the same address. -/
theorem addresses_fullRefresh_subset {s : SharedState} {responses order₁ order₂ : List Response}
    (h₁ : order₁.Perm responses) (h₂ : order₂.Perm responses) (hroom : s.HasRoom responses)
    (now : Clock) :
    (s.fullRefresh order₁ now).2.addresses ⊆ (s.fullRefresh order₂ now).2.addresses := by
  rintro e ⟨k, p, hp, rfl⟩
  rcases get_fullRefresh_cases (hroom.of_perm h₁) now k with ⟨q, hq, hget⟩ | ⟨hk, hget⟩
  · rcases get_fullRefresh_cases (hroom.of_perm h₂) now k with ⟨q', hq', hget'⟩ | ⟨hk', -⟩
    · obtain rfl := Option.some.inj (hq.symm.trans hq')
      exact ⟨k, p, hget'.trans (hget.symm.trans hp), rfl⟩
    · exact absurd (FinMap.mem_of_get hq) hk'
  · rcases get_fullRefresh_cases (hroom.of_perm h₂) now k with ⟨q', hq', -⟩ | ⟨-, hget'⟩
    · exact absurd (FinMap.mem_of_get hq') hk
    · have hfind := hget.symm.trans hp
      have hpk : p.key = k := by simpa using List.find?_some hfind
      have hmem : p ∈ accepted order₂ := (accepted_perm (h₁.trans h₂.symm)).mem_iff.mp
        (List.mem_of_find?_eq_some hfind)
      -- the first accepted one of this key in the other order has the same address
      have hsome : ((accepted order₂).find? fun p => p.key = k).isSome :=
        List.find?_isSome.mpr ⟨p, hmem, by simpa using hpk⟩
      obtain ⟨q, hq⟩ := Option.isSome_iff_exists.mp hsome
      have hqk : q.key = k := by simpa using List.find?_some hq
      obtain ⟨hhost, hport⟩ := Proxy.key_inj.mp (hpk.trans hqk.symm)
      exact ⟨k, q, hget'.trans hq, by rw [hhost, hport]⟩

/-- What a refresh learns of addresses, and their number, does not depend on the order of the
answers; and neither does an entry, unless its address is new and listed under two protocols. -/
theorem fullRefresh_confluent {s : SharedState} {responses order₁ order₂ : List Response}
    (h₁ : order₁.Perm responses) (h₂ : order₂.Perm responses) (hroom : s.HasRoom responses)
    (now : Clock) :
    (s.fullRefresh order₁ now).1 = (s.fullRefresh order₂ now).1 ∧
    (s.fullRefresh order₁ now).2.addresses = (s.fullRefresh order₂ now).2.addresses ∧
    ∀ k, ¬ s.ListedTwice responses k → (s.fullRefresh order₁ now).2.proxies.get k =
      (s.fullRefresh order₂ now).2.proxies.get k := by
  refine ⟨?_, ?_, fun k hk => ?_⟩
  · rw [fullRefresh_eq (hroom.of_perm h₁), fullRefresh_eq (hroom.of_perm h₂),
      s.proxies.len_insertAll_of_perm Proxy.key (accepted_perm (h₁.trans h₂.symm))]
  · exact Set.Subset.antisymm (addresses_fullRefresh_subset h₁ h₂ hroom now)
      (addresses_fullRefresh_subset h₂ h₁ hroom now)
  · have hone : k ∈ s.proxies ∨ ∀ p ∈ accepted order₁, ∀ q ∈ accepted order₁, p.key = k →
        q.key = k → p = q := by
      by_cases hin : k ∈ s.proxies
      · exact Or.inl hin
      refine Or.inr fun p hp q hq hpk hqk => ?_
      have hprotocol : p.protocol = q.protocol := by
        by_contra hne
        exact hk ⟨hin, p, (accepted_perm h₁).mem_iff.mp hp, q, (accepted_perm h₁).mem_iff.mp hq,
          hpk, hqk, hne⟩
      obtain ⟨hhost, hport⟩ := Proxy.key_inj.mp (hpk.trans hqk.symm)
      rw [eq_new_of_accepted hp, eq_new_of_accepted hq, hhost, hport, hprotocol]
    rw [get_fullRefresh (hroom.of_perm h₁), get_fullRefresh (hroom.of_perm h₂),
      s.proxies.get_insertAll_of_perm Proxy.key (accepted_perm (h₁.trans h₂.symm)) hone]

theorem fullRefresh_confluent_three_sources :
    let sources : List Response := [⟨.http, "1.1.1.1:80\n2.2.2.2:80".toList⟩,
      ⟨.socks5, "3.3.3.3:1080".toList⟩, ⟨.http, "2.2.2.2:80".toList⟩]
    let s := withConfig 300 5000 []
    (s.fullRefresh sources ⟨0, 0⟩).1 = (s.fullRefresh sources.reverse ⟨0, 0⟩).1 ∧
    (s.fullRefresh sources ⟨0, 0⟩).2.addresses =
      (s.fullRefresh sources.reverse ⟨0, 0⟩).2.addresses ∧
    ∀ k, ¬ s.ListedTwice sources k → (s.fullRefresh sources ⟨0, 0⟩).2.proxies.get k =
      (s.fullRefresh sources.reverse ⟨0, 0⟩).2.proxies.get k := by
  intro sources s
  have hroom : s.HasRoom sources := by
    refine Or.inr ?_
    decide +kernel
  exact fullRefresh_confluent (List.Perm.refl sources) sources.reverse_perm hroom ⟨0, 0⟩

/-- One address, listed as an HTTP proxy by one source and as a SOCKS5 proxy by another. -/
def twoProtocols : List Response :=
  [⟨.http, "1.1.1.1:80".toList⟩, ⟨.socks5, "1.1.1.1:80".toList⟩]

/-- The source that answers first decides the protocol. -/
theorem fullRefresh_protocol_by_order :
    (withConfig 300 5000 []).HasRoom twoProtocols ∧
    ((withConfig 300 5000 []).fullRefresh twoProtocols ⟨0, 0⟩).2.entries ≠
      ((withConfig 300 5000 []).fullRefresh twoProtocols.reverse ⟨0, 0⟩).2.entries := by
  have hroom : (withConfig 300 5000 []).HasRoom twoProtocols := by
    refine Or.inr ?_
    decide +kernel
  refine ⟨hroom, fun heq => ?_⟩
  have hfirst : ("1.1.1.1", 80, Protocol.http) ∈
      ((withConfig 300 5000 []).fullRefresh twoProtocols ⟨0, 0⟩).2.entries :=
    ⟨"1.1.1.1:80", .new "1.1.1.1" 80 .http, by decide +kernel, rfl⟩
  rw [heq] at hfirst
  obtain ⟨k, p, hp, hentry⟩ := hfirst
  have hlisted : accepted twoProtocols.reverse =
      [.new "1.1.1.1" 80 .socks5, .new "1.1.1.1" 80 .http] := by decide +kernel
  rw [get_fullRefresh (hroom.of_perm twoProtocols.reverse_perm), FinMap.get_insertAll,
    hlisted] at hp
  obtain ⟨hfind, -⟩ := Option.filter_eq_some_iff.mp hp
  change List.find? _ _ = some p at hfind
  have hsame : (Proxy.new "1.1.1.1" 80 .http).key = (Proxy.new "1.1.1.1" 80 .socks5).key := rfl
  rw [List.find?_cons, List.find?_cons, hsame] at hfind
  split at hfind
  · rw [← Option.some.inj hfind] at hentry
    cases hentry
  · cases hfind

end SharedState

end VpnGateway
