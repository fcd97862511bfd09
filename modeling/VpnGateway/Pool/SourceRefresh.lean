import VpnGateway.Core.Gather
import VpnGateway.Core.JsonFields
import VpnGateway.Core.Ledger
import VpnGateway.Pool.Sources

/-! The refresh of the pool from its sources, request by request, while clients, checks and the
API go on. -/
namespace VpnGateway

open Runs Gather

namespace Sources

def defaultSources : List (String × Protocol) :=
  [("https://api.proxyscrape.com/v2/?request=getproxies&protocol=http&timeout=5000&country=all",
    .http),
   ("https://raw.githubusercontent.com/TheSpeedX/PROXY-List/master/http.txt", .http),
   ("https://raw.githubusercontent.com/monosans/proxy-list/main/proxies/http.txt", .http),
   ("https://raw.githubusercontent.com/ShiftyTR/Proxy-List/master/http.txt", .http),
   ("https://www.proxy-list.download/api/v1/get?type=http", .http),
   ("https://raw.githubusercontent.com/clarketm/proxy-list/master/proxy-list-raw.txt", .http),
   ("https://raw.githubusercontent.com/mmpx12/proxy-list/master/http.txt", .http),
   ("https://raw.githubusercontent.com/prxchk/proxy-list/main/http.txt", .http),
   ("https://raw.githubusercontent.com/zloi-user/hideip.me/main/http.txt", .http),
   ("https://raw.githubusercontent.com/rdavydov/proxy-list/main/proxies/http.txt", .http),
   ("https://raw.githubusercontent.com/saschazesiger/Free-Proxies/master/proxies/http.txt", .http),
   ("https://raw.githubusercontent.com/UptimerBot/proxy-list/main/proxies/http.txt", .http),
   ("https://raw.githubusercontent.com/MuRongPIG/Proxy-Master/main/http.txt", .http),
   ("https://raw.githubusercontent.com/sunny9577/proxy-scraper/master/generated/http_proxies.txt",
    .http),
   ("https://raw.githubusercontent.com/ErcinDedeworx/proxy-list/main/proxy-list/data.txt", .http),
   ("https://api.proxyscrape.com/v2/?request=getproxies&protocol=socks5&timeout=5000&country=all",
    .socks5),
   ("https://raw.githubusercontent.com/TheSpeedX/PROXY-List/master/socks5.txt", .socks5),
   ("https://raw.githubusercontent.com/monosans/proxy-list/main/proxies/socks5.txt", .socks5),
   ("https://raw.githubusercontent.com/ShiftyTR/Proxy-List/master/socks5.txt", .socks5),
   ("https://www.proxy-list.download/api/v1/get?type=socks5", .socks5),
   ("https://raw.githubusercontent.com/mmpx12/proxy-list/master/socks5.txt", .socks5),
   ("https://raw.githubusercontent.com/prxchk/proxy-list/main/socks5.txt", .socks5),
   ("https://raw.githubusercontent.com/zloi-user/hideip.me/main/socks5.txt", .socks5),
   ("https://raw.githubusercontent.com/hookzof/socks5_list/master/proxy.txt", .socks5),
   ("https://raw.githubusercontent.com/rdavydov/proxy-list/main/proxies/socks5.txt", .socks5),
   ("https://raw.githubusercontent.com/saschazesiger/Free-Proxies/master/proxies/socks5.txt",
    .socks5),
   ("https://raw.githubusercontent.com/UptimerBot/proxy-list/main/proxies/socks5.txt", .socks5)]

def protocolOf (url : String) : Protocol :=
  if "socks5".toList <:+: url.toList then .socks5 else .http

/-- The one field of `SourceConfig`, by name or by position. -/
def decodeSources : Json → Option (List String)
  | .obj members => (Json.obj members).field "sources" (Json.decodeVec Json.decodeString) none
  | .arr [urls] => Json.decodeVec Json.decodeString urls
  | _ => none

/-- No document stands for a file that cannot be read or holds no JSON. -/
def loadSourcesFromFile (file : Option Json) : List String :=
  (file.bind decodeSources).getD (defaultSources.map Prod.fst)

/-- What `full_refresh_with_sources` asks: the protocol is read off the URL. -/
def refreshSources (file : Option Json) : List (String × Protocol) :=
  (loadSourcesFromFile file).map fun url => (url, protocolOf url)

/-- What `fast_bootstrap` asks. -/
def bootstrapSources : List (String × Protocol) := defaultSources.take 3

theorem protocolOf_ofList (url : List Char) : protocolOf (String.ofList url) =
    if "socks5".toList <:+: url then .socks5 else .http :=
  congrArg (fun url => if "socks5".toList <:+: url then Protocol.socks5 else .http)
    String.toList_ofList

/-- The URLs of the built-in lists tell their protocols. -/
theorem protocolOf_defaultSources : ∀ source ∈ defaultSources, protocolOf source.1 = source.2 := by
  simp only [defaultSources, List.forall_mem_cons, List.not_mem_nil, false_imp_iff, implies_true,
    and_true]
  repeat' apply And.intro
  -- a literal's characters are at hand without decoding it
  all_goals exact (protocolOf_ofList _).trans (by decide +kernel)

/-- A file that says nothing stands for the built-in lists, with their protocols. -/
theorem refreshSources_default {file : Option Json} (h : file.bind decodeSources = none) :
    refreshSources file = defaultSources := by
  rw [refreshSources, loadSourcesFromFile, h, Option.getD_none, List.map_map]
  refine (List.map_congr_left fun source hsource => ?_).trans (List.map_id _)
  exact Prod.ext rfl (protocolOf_defaultSources source hsource)

/-- How one request of `fetch_source` ends. -/
inductive Reply where
  | sendError
  | bodyError
  | body (text : List Char)

/-- The loop of `fetch_source` after so many failed attempts. -/
def Reply.advance (protocol : Protocol) (attempt : ℕ) : Reply → ℕ ⊕ List Proxy
  | .sendError => if attempt < 2 then .inl (attempt + 1) else .inr []
  | .bodyError => .inr []
  | .body text => if text = [] then .inr [] else .inr (fetchSource ⟨protocol, text⟩)

/-- A response is what the source's lines are taken from. -/
def Reply.response (protocol : Protocol) : Reply → Option Response
  | .body text => some ⟨protocol, text⟩
  | .sendError | .bodyError => none

/-- The proxies that the responses offer to the pool when a source may offer so many. -/
def offered (cap : ℕ) (responses : List Response) : List Proxy :=
  responses.flatMap fun r => (fetchSource r).take cap

theorem fetchSource_nil (protocol : Protocol) : fetchSource ⟨protocol, []⟩ = [] := rfl

/-- What a reply brings are the lines of its body. -/
theorem Reply.take_of_advance {protocol : Protocol} {attempt cap : ℕ} {r : Reply}
    {proxies : List Proxy} (h : r.advance protocol attempt = .inr proxies) :
    proxies.take cap = offered cap (r.response protocol).toList := by
  cases r with
  | sendError =>
    rw [advance] at h
    split_ifs at h
    obtain rfl := Sum.inr.inj h
    exact List.take_nil
  | bodyError =>
    obtain rfl := Sum.inr.inj h
    exact List.take_nil
  | body text =>
    rw [advance] at h
    have hlines : proxies = fetchSource ⟨protocol, text⟩ := by
      split_ifs at h with hempty
      · rw [hempty, fetchSource_nil]
        exact (Sum.inr.inj h).symm
      · exact (Sum.inr.inj h).symm
    rw [hlines]
    exact (List.append_nil _).symm

/-- Only a request that could not be sent is made again, and only after the first two. -/
theorem Reply.response_of_retry {protocol : Protocol} {attempt next : ℕ} {r : Reply}
    (h : r.advance protocol attempt = .inl next) :
    next = attempt + 1 ∧ attempt < 2 ∧ r = .sendError := by
  cases r with
  | sendError =>
    rw [advance] at h
    split_ifs at h with hlt
    exact ⟨(Sum.inl.inj h).symm, hlt, rfl⟩
  | bodyError => cases h
  | body text =>
    rw [advance] at h
    split_ifs at h

end Sources

open Sources

/-- A refresh from these sources: the attempts of each fetch, the proxies at hand, and the count
beside the pool. -/
abbrev Refresh (sources : List (String × Protocol)) :=
  Intake (Fin sources.length) ℕ Proxy (ℕ × SharedState)

abbrev RefreshMove (sources : List (String × Protocol)) :=
  Move (Fin sources.length) Reply Proxy SharedState.StoreEvent

namespace Refresh

variable {sources : List (String × Protocol)} {cap : ℕ} {s t : Refresh sources}
  {moves : List (RefreshMove sources)}

def start (sources : List (String × Protocol)) (pool : SharedState) : Refresh sources :=
  ⟨fun _ => some 0, [], (0, pool)⟩

def poll (cap : ℕ) (sources : List (String × Protocol)) (i : Fin sources.length) (attempt : ℕ)
    (r : Reply) : ℕ ⊕ List Proxy :=
  match r.advance (sources.get i).2 attempt with
  | .inl next => .inl next
  | .inr proxies => .inr (proxies.take cap)

/-- What others do leaves the count alone. -/
def Aside (r : ℕ × SharedState) (e : SharedState.StoreEvent) (r' : ℕ × SharedState) : Prop :=
  r'.1 = r.1 ∧ r.2.StoreStep e r'.2

def Step (cap : ℕ) (s : Refresh sources) (move : RefreshMove sources) (t : Refresh sources) :
    Prop := Gather.Step (poll cap sources) SharedState.insertCounted Aside s move t

/-- Every source has answered, and everything at hand is filed. -/
def Over (s : Refresh sources) : Prop := (∀ i, s.tasks i = none) ∧ s.queue = []

/-- The response that comes with a move. -/
def response : RefreshMove sources → Option Response
  | .poll i r (some _) => r.response (sources.get i).2
  | .poll _ _ none | .handle _ | .other _ => none

/-- What a move is for the pool. -/
def event (now : Clock) : RefreshMove sources → Option SharedState.StoreEvent
  | .handle proxy => some (.op ⟨now, .insertIfAbsent proxy, none⟩)
  | .other e => some e
  | .poll _ _ _ => none

/-- The moves that file a new record. -/
def newRecord (s : Refresh sources) : RefreshMove sources → ℕ
  | .handle proxy => if s.state.2.IsFull ∨ proxy.key ∈ s.state.2.proxies then 0 else 1
  | .poll _ _ _ | .other _ => 0

theorem poll_cases (cap : ℕ) (i : Fin sources.length) (attempt : ℕ) (r : Reply) :
    (∃ next, r.advance (sources.get i).2 attempt = .inl next ∧
      poll cap sources i attempt r = .inl next) ∨
    ∃ proxies, r.advance (sources.get i).2 attempt = .inr proxies ∧
      poll cap sources i attempt r = .inr (proxies.take cap) := by
  unfold poll
  cases r.advance (sources.get i).2 attempt with
  | inl next => exact Or.inl ⟨next, rfl, rfl⟩
  | inr proxies => exact Or.inr ⟨proxies, rfl, rfl⟩

theorem rank_of_poll (i : Fin sources.length) (attempt : ℕ) (r : Reply) (next : ℕ)
    (h : poll cap sources i attempt r = .inl next) : 2 - next < 2 - attempt := by
  obtain ⟨a, ha, hpoll⟩ | ⟨proxies, -, hpoll⟩ := poll_cases cap i attempt r
  · obtain ⟨hnext, hlt, -⟩ := Reply.response_of_retry ha
    obtain rfl := Sum.inl.inj (hpoll.symm.trans h)
    omega
  · cases hpoll.symm.trans h

/-- What a fetch ends with are the proxies of its response, as many as are taken. -/
theorem results_of_poll {i : Fin sources.length} {attempt : ℕ} {r : Reply} {results : List Proxy}
    (h : poll cap sources i attempt r = .inr results) :
    results = offered cap (r.response (sources.get i).2).toList ∧ results.length ≤ cap := by
  obtain ⟨a, -, hpoll⟩ | ⟨proxies, hproxies, hpoll⟩ := poll_cases cap i attempt r
  · cases hpoll.symm.trans h
  · obtain rfl := Sum.inr.inj (hpoll.symm.trans h)
    exact ⟨Reply.take_of_advance hproxies, List.length_take_le cap proxies⟩

theorem Step.results_eq {move : RefreshMove sources} (h : Step cap s move t) :
    move.results = offered cap (response move).toList := by
  cases h with
  | pending | handle | other => rfl
  | complete _ _ hpoll => exact (results_of_poll hpoll).1

theorem offered_append (before after : List Response) :
    offered cap (before ++ after) = offered cap before ++ offered cap after := List.flatMap_append

/-- What is filed, and then what is at hand, is what the responses offer, in their order. -/
theorem filed_append (h : Run (Step cap) s moves t) :
    moves.filterMap Move.handled ++ t.queue =
      s.queue ++ offered cap (moves.filterMap response) := by
  have hresults : moves.flatMap Move.results = offered cap (moves.filterMap response) := by
    induction h with
    | nil => rfl
    | @cons _ _ _ move moves head _ ih =>
      have hhead := Step.results_eq head
      rw [List.flatMap_cons, ih, hhead, List.filterMap_cons]
      cases response move with
      | none => rfl
      | some r => exact (offered_append [r] _).symm
  exact (handled_append h).trans (congrArg (s.queue ++ ·) hresults)

/-- For the pool, a refresh is a run of insertions among what others do. -/
theorem run_pool (h : Run (Step cap) s moves t) (now : Clock) :
    Run SharedState.StoreStep s.state.2 (moves.filterMap (event now)) t.state.2 := by
  induction h with
  | nil s => exact .nil _
  | cons head _ ih =>
    cases head with
    | pending | complete => exact ih
    | handle => exact .cons (.op rfl) ih
    | other h => exact .cons h.2 ih

theorem insertCounted_count (r : ℕ × SharedState) (p : Proxy) :
    (SharedState.insertCounted r p).1 =
      r.1 + if r.2.IsFull ∨ p.key ∈ r.2.proxies then 0 else 1 := by
  unfold SharedState.insertCounted SharedState.insertIfAbsent
  by_cases hfull : r.2.IsFull
  · simp [hfull]
  by_cases hin : p.key ∈ r.2.proxies
  · simp [hin]
  · simp [hfull, hin]

/-- The count is that of the filings that brought a new record. -/
theorem booked_count (h : Run (Step cap) s moves t) :
    ∃ m, Booked (Step cap) newRecord s moves t m ∧ t.state.1 = s.state.1 + m := by
  induction h with
  | nil s => exact ⟨0, .nil s, rfl⟩
  | @cons s u t move moves head _ ih =>
    obtain ⟨m, hm, hcount⟩ := ih
    refine ⟨newRecord s move + m, .cons head hm, ?_⟩
    have hstep : u.state.1 = s.state.1 + newRecord s move := by
      cases head with
      | pending | complete => rfl
      | @handle a rest hqueue => exact insertCounted_count s.state a
      | other h => exact h.1
    rw [hcount, hstep, add_assoc]

/-- A bootstrap files no more proxies than the first batch of checks has places. -/
theorem length_bootstrap_le {s t : Refresh bootstrapSources}
    {moves : List (RefreshMove bootstrapSources)} (hs : s.queue = [])
    (h : Run (Step 20) s moves t) : (moves.filterMap Move.handled).length ≤ 60 := by
  have hhandled := handled_le rank_of_poll (fun _ _ _ _ hpoll => (results_of_poll hpoll).2) h
  rwa [hs] at hhandled

end Refresh

/-- A refresh among whatever others do. For the pool it is a run of insertions, of exactly the
proxies that the responses offer, once each and in the order of their arrival; the count is that
of the new records among them. No source is asked more than three times, everything is over after
a bounded number of moves, and until then there is a next one. With nobody else about, a full
refresh is what the plain loop over the responses is. -/
theorem refresh_accounted (cap : ℕ) (sources : List (String × Protocol)) (s : SharedState)
    {moves : List (RefreshMove sources)} {t : Refresh sources}
    (h : Run (Refresh.Step cap) (Refresh.start sources s) moves t) :
    (∀ now, Run SharedState.StoreStep s (moves.filterMap (Refresh.event now)) t.state.2) ∧
    moves.filterMap Move.handled ++ t.queue = offered cap (moves.filterMap Refresh.response) ∧
    (moves.filterMap Move.handled).length ≤ sources.length * cap ∧
    Booked (Refresh.Step cap) Refresh.newRecord (Refresh.start sources s) moves t t.state.1 ∧
    (∀ i, moves.countP (Move.polls i) ≤ 3) ∧
    moves.countP (fun move => !move.isOther) ≤ sources.length * (3 + cap) ∧
    (¬ t.Over → ∃ move u, Refresh.Step cap t move u ∧ move.isOther = false) ∧
    (cap = maxPerSource → t.Over → (∀ move ∈ moves, move.isOther = false) → ∀ now,
      (t.state.1, t.state.2.cleanupStale now) =
        s.fullRefresh (moves.filterMap Refresh.response) now) := by
  have hfiled := Refresh.filed_append h
  have hcap : ∀ i x e results, Refresh.poll cap sources i x e = .inr results →
      results.length ≤ cap := fun _ _ _ _ hpoll => (Refresh.results_of_poll hpoll).2
  obtain ⟨m, hbooked, hcount⟩ := Refresh.booked_count h
  have hcount : t.state.1 = m := hcount.trans (Nat.zero_add m)
  rw [hcount]
  refine ⟨Refresh.run_pool h, hfiled, ?_, hbooked, fun i => ?_, ?_, fun hover => ?_, ?_⟩
  · have hhandled := handled_le Refresh.rank_of_poll hcap h
    rwa [Fintype.card_fin] at hhandled
  · exact polls_le Refresh.rank_of_poll hcap h i
  · have hattempts : ∀ i x, (Refresh.start sources s).tasks i = some x → 2 - x ≤ 2 :=
      fun i x _ => Nat.sub_le 2 x
    have hmoves := moves_le Refresh.rank_of_poll hcap hattempts h
    rwa [Fintype.card_fin] at hmoves
  · have : Nonempty Reply := ⟨.sendError⟩
    refine exists_step ?_
    rw [Refresh.Over, not_and_or, not_forall] at hover
    exact hover.symm
  · intro heq hover halone now
    have hstate := state_eq_foldl h halone
    rw [hover.2, List.append_nil] at hfiled
    have hfold : (moves.filterMap Refresh.response).foldl (fun r response =>
        ((fetchSource response).take maxPerSource).foldl SharedState.insertCounted r) (0, s) =
        t.state := by
      rw [hstate, hfiled, heq]
      exact List.foldl_flatMap.symm
    rw [← hcount, SharedState.fullRefresh, hfold]

namespace Refresh

def oneSource : List (String × Protocol) := [("http://lists/socks5.txt", .socks5)]

def listed : Proxy := .new "1.2.3.4" 1080 .socks5

/-- The first request cannot be sent; between the answer to the second and the filing of its one
proxy, somebody's connection fails. -/
def secondAttempt : List (RefreshMove oneSource) :=
  [.poll ⟨0, Nat.one_pos⟩ .sendError none,
    .poll ⟨0, Nat.one_pos⟩ (.body "1.2.3.4:1080".toList) (some [listed]),
    .other (.op ⟨⟨3, 3⟩, .recordFail "5.6.7.8:80", none⟩),
    .handle listed]

def afterFailure : SharedState :=
  (SharedState.withConfig 300 5000 []).recordFail ⟨3, 3⟩ "5.6.7.8:80"

theorem run_secondAttempt : ∃ t, Run (Step maxPerSource) (start oneSource (.withConfig 300 5000 []))
    secondAttempt t ∧ t.Over ∧ t.state.1 = 1 := by
  have hanswer : poll maxPerSource oneSource ⟨0, Nat.one_pos⟩ 1 (.body "1.2.3.4:1080".toList) =
      .inr [listed] := rfl
  refine ⟨_, .cons (.pending rfl rfl rfl) (.cons (.complete rfl rfl hanswer)
    (.cons (.other (b := (0, afterFailure)) ⟨rfl, .op rfl⟩) (.single (.handle rfl)))),
    ⟨fun i => ?_, rfl⟩, rfl⟩
  have hi : i = ⟨0, Nat.one_pos⟩ := Fin.ext (Nat.lt_one_iff.mp i.isLt)
  subst hi
  rfl

theorem refresh_accounted_secondAttempt :
    refreshSources (some (.obj [("sources", .arr [.str "http://lists/socks5.txt"])])) = oneSource ∧
    ∃ t : Refresh oneSource, t.Over ∧ t.state.1 = 1 ∧
      Run SharedState.StoreStep (.withConfig 300 5000 [])
        [.op ⟨⟨3, 3⟩, .recordFail "5.6.7.8:80", none⟩, .op ⟨⟨4, 4⟩, .insertIfAbsent listed, none⟩]
        t.state.2 := by
  obtain ⟨t, hrun, hover, hcount⟩ := run_secondAttempt
  obtain ⟨hpool, -⟩ := refresh_accounted maxPerSource oneSource _ hrun
  exact ⟨by decide +kernel, t, hover, hcount, hpool ⟨4, 4⟩⟩

end Refresh

end VpnGateway
