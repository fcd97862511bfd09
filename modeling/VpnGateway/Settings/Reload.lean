import VpnGateway.Pool.Operations
import VpnGateway.Settings.Config

/-! Hot reload of the settings file: the watcher sends one message for each modification, the
channel holds a hundred of them, and the loop of `main` reads the file anew for each message,
while the rest of the gateway runs. -/
namespace VpnGateway

open Runs

namespace SharedState

/-- Nothing but the reload loop writes the session TTL and the excluded countries. -/
theorem Step.settings {s t : SharedState} {e : Event} (h : s.Step e t)
    (hop : ∀ ttl countries, e.op ≠ .reloadConfig ttl countries) :
    t.stickySessions.ttlSecs = s.stickySessions.ttlSecs ∧
      t.excludeCountries = s.excludeCountries := by
  obtain ⟨now, op, reply⟩ := e
  cases op with
  | insertIfAbsent proxy =>
    obtain ⟨rfl, rfl⟩ := Prod.mk.inj (Option.some.inj h)
    unfold insertIfAbsent
    split_ifs <;> exact ⟨rfl, rfl⟩
  | addProxy payload =>
    obtain ⟨rfl, rfl⟩ := Prod.mk.inj (Option.some.inj h)
    rcases s.addProxy_cases payload with ⟨m, hm⟩ | ⟨-, m, hm⟩ <;> simp [hm]
  | banProxy k =>
    obtain ⟨rfl, rfl⟩ := Prod.mk.inj (Option.some.inj h)
    rcases s.banProxy_cases k with ⟨m, hm⟩ | ⟨p, m, -, hm⟩ <;> simp [hm]
  | unbanProxy k =>
    obtain ⟨rfl, rfl⟩ := Prod.mk.inj (Option.some.inj h)
    rcases s.unbanProxy_cases k with ⟨-, m, hm⟩ | ⟨p, m, -, hm⟩ <;> simp [hm]
  | reloadConfig ttl countries => exact absurd rfl (hop ttl countries)
  | stickyGet peer =>
    obtain ⟨r, hr, hrt⟩ := Option.map_eq_some_iff.mp h
    obtain ⟨rfl, rfl⟩ := Prod.mk.inj hrt
    obtain ⟨⟨answer, m⟩, hm, rfl⟩ := Option.map_eq_some_iff.mp hr
    rcases StickySessionManager.get_cases hm with rfl | ⟨-, rfl⟩ <;> exact ⟨rfl, rfl⟩
  | cleanupSessions =>
    obtain ⟨r, hr, hrt⟩ := Option.map_eq_some_iff.mp h
    obtain ⟨rfl, rfl⟩ := Prod.mk.inj hrt
    obtain ⟨m, hm, rfl⟩ := Option.map_eq_some_iff.mp hr
    obtain ⟨-, hm⟩ := Option.ite_none_right_eq_some.mp hm
    obtain rfl := Option.some.inj hm
    exact ⟨rfl, rfl⟩
  | _ =>
    obtain ⟨rfl, rfl⟩ := Prod.mk.inj (Option.some.inj h)
    exact ⟨rfl, rfl⟩

end SharedState

namespace Settings

open Settings.Config

/-- Where the loop of `main` is: it waits for a message, has one, has read the file, has come back
from `reload`, has fetched the settings, or has set the session TTL. -/
inductive Loop where
  | waiting
  | received
  | parsed (result : Option Config)
  | reloaded
  | fetched (newConfig : Config)
  | ttlSet (newConfig : Config)

/-- The file, the modifications that the watcher has seen and not sent, the messages in the
channel, the settings of the manager, and the gateway. -/
structure Reloading where
  file : Option Json
  watched : Bool
  unsent : ℕ
  channel : ℕ
  config : Config
  loop : Loop
  state : SharedState

inductive Label where
  | modify (content : Option Json)
  | watch
  | send
  | recv
  | read
  | store
  | fetch
  | setTtl
  | setExclude
  | op (e : Event)

/-- The steps of the watcher and of the loop. -/
def Label.isReload : Label → Bool
  | .send | .recv | .read | .store | .fetch | .setTtl | .setExclude => true
  | _ => false

def channelCapacity : ℕ := 100

namespace Reloading

/-- `ConfigManager::new`, and the state that `main` builds from its settings. -/
def start (file : Option Json) : Reloading where
  file := file
  watched := false
  unsent := 0
  channel := 0
  config := loadOrDefault file
  loop := .waiting
  state := .withConfig (loadOrDefault file).stickySessionTtl (loadOrDefault file).maxProxies.toNat
    (loadOrDefault file).excludeCountries

/-- `blocking_send` waits for room in the channel; a file that does not load leaves the settings
as they are. The two writes of the loop are apart, as they are in the source. -/
inductive Step (s : Reloading) : Label → Reloading → Prop where
  | modify (content : Option Json) : Step s (.modify content)
      { s with file := content, unsent := if s.watched then s.unsent + 1 else s.unsent }
  | watch : Step s .watch { s with watched := true }
  | send {n : ℕ} (hunsent : s.unsent = n + 1) (hroom : s.channel < channelCapacity) :
      Step s .send { s with unsent := n, channel := s.channel + 1 }
  | recv {n : ℕ} (hloop : s.loop = .waiting) (hchannel : s.channel = n + 1) :
      Step s .recv { s with channel := n, loop := .received }
  | read (hloop : s.loop = .received) :
      Step s .read { s with loop := .parsed (loadFromFile s.file) }
  | store {result : Option Config} (hloop : s.loop = .parsed result) :
      Step s .store { s with config := result.getD s.config, loop := .reloaded }
  | fetch (hloop : s.loop = .reloaded) : Step s .fetch { s with loop := .fetched s.config }
  | setTtl {newConfig : Config} (hloop : s.loop = .fetched newConfig) :
      Step s .setTtl { s with
        state := { s.state with
          stickySessions := s.state.stickySessions.setTtl newConfig.stickySessionTtl }
        loop := .ttlSet newConfig }
  | setExclude {newConfig : Config} (hloop : s.loop = .ttlSet newConfig) :
      Step s .setExclude { s with
        state := { s.state with excludeCountries := newConfig.excludeCountries }
        loop := .waiting }
  | op {e : Event} {t : SharedState} (hop : ∀ ttl countries, e.op ≠ .reloadConfig ttl countries)
      (h : s.state.Step e t) : Step s (.op e) { s with state := t }

/-- The file is modified only while it is watched. -/
def Watched (s : Reloading) (l : Label) : Prop := ∀ content, l = .modify content → s.watched = true

/-- The session TTL and the exclude list are those of the settings. -/
structure Applied (c : Config) (state : SharedState) : Prop where
  ttl : state.stickySessions.ttlSecs = c.stickySessionTtl
  exclude : state.excludeCountries = c.excludeCountries

/-- What is applied at each position of the loop. -/
def InStep (config : Config) (state : SharedState) : Loop → Prop
  | .waiting | .received | .parsed _ => Applied config state
  | .reloaded => True
  | .fetched newConfig => newConfig = config
  | .ttlSet newConfig =>
    newConfig = config ∧ state.stickySessions.ttlSecs = config.stickySessionTtl

/-- At each position of the loop: a message about these settings of the file is being dealt with,
or they are stored. -/
def Caught (c config : Config) : Loop → Prop
  | .received => True
  | .parsed result => result = some c
  | _ => config = c

/-- If the file loads, its settings are stored, or there is still a message about it. -/
def Fresh (s : Reloading) : Prop :=
  ∀ c, loadFromFile s.file = some c → 0 < s.unsent ∨ 0 < s.channel ∨ Caught c s.config s.loop

theorem inStep_start (file : Option Json) :
    InStep (start file).config (start file).state (start file).loop := ⟨rfl, rfl⟩

theorem fresh_start (file : Option Json) : (start file).Fresh := by
  intro c hc
  refine Or.inr (Or.inr ?_)
  show (loadFromFile file).getD default = c
  rw [show loadFromFile file = some c from hc, Option.getD_some]

variable {s t : Reloading} {l : Label}

theorem InStep.of_op {config : Config} {state state' : SharedState} {loop : Loop} {e : Event}
    (hs : InStep config state loop) (h : state.Step e state')
    (hop : ∀ ttl countries, e.op ≠ .reloadConfig ttl countries) : InStep config state' loop := by
  obtain ⟨httl, hexclude⟩ := h.settings hop
  cases loop with
  | waiting | received | parsed result => exact ⟨httl.trans hs.ttl, hexclude.trans hs.exclude⟩
  | reloaded => trivial
  | fetched newConfig => exact hs
  | ttlSet newConfig => exact ⟨hs.1, httl.trans hs.2⟩

theorem Step.inStep (h : Step s l t) (hs : InStep s.config s.state s.loop) :
    InStep t.config t.state t.loop := by
  cases h with
  | modify content => exact hs
  | watch => exact hs
  | send hunsent hroom => exact hs
  | recv hloop hchannel =>
    rw [hloop] at hs
    exact hs
  | read hloop =>
    rw [hloop] at hs
    exact hs
  | store hloop => trivial
  | fetch hloop => rfl
  | setTtl hloop =>
    rw [hloop] at hs
    exact ⟨hs, congrArg Config.stickySessionTtl hs⟩
  | setExclude hloop =>
    rw [hloop] at hs
    exact ⟨hs.2, congrArg Config.excludeCountries hs.1⟩
  | op hop h => exact hs.of_op h hop

theorem inStep_run {as : List Label} (h : Run Step s as t)
    (hs : InStep s.config s.state s.loop) : InStep t.config t.state t.loop := by
  induction h with
  | nil => exact hs
  | cons head _ ih => exact ih (head.inStep hs)

theorem Step.fresh (h : Guarded Step Watched s l t) (hs : s.Fresh) : t.Fresh := by
  obtain ⟨hwatched, h⟩ := h
  intro c hc
  cases h with
  | modify content =>
    refine Or.inl ?_
    show 0 < if s.watched then s.unsent + 1 else s.unsent
    rw [if_pos (hwatched content rfl)]
    exact Nat.succ_pos _
  | watch => exact hs c hc
  | send hunsent hroom => exact Or.inr (Or.inl (Nat.succ_pos _))
  | recv hloop hchannel => exact Or.inr (Or.inr trivial)
  | read hloop => exact Or.inr (Or.inr hc)
  | store hloop =>
    refine (hs c hc).imp_right fun h => h.imp_right fun hcaught => ?_
    rw [hloop] at hcaught
    obtain rfl := hcaught
    rfl
  | fetch hloop | setTtl hloop | setExclude hloop =>
    refine (hs c hc).imp_right fun h => h.imp_right fun hcaught => ?_
    rw [hloop] at hcaught
    exact hcaught
  | op hop h => exact hs c hc

/-- The steps it takes the watcher and the loop to come to rest, if nothing else happens to the
file. -/
def outstanding (s : Reloading) : ℕ :=
  7 * s.unsent + 6 * s.channel + match s.loop with
    | .waiting => 0
    | .received => 5
    | .parsed _ => 4
    | .reloaded => 3
    | .fetched _ => 2
    | .ttlSet _ => 1

/-- Each of these steps brings the rest nearer, and what the gateway does meanwhile does not put
it off. -/
theorem Step.outstanding (h : Step s l t) (hl : ∀ content, l ≠ .modify content) :
    t.outstanding + (if l.isReload then 1 else 0) ≤ s.outstanding := by
  cases h with
  | modify content => exact absurd rfl (hl content)
  | watch => exact le_rfl
  | send hunsent hroom =>
    simp only [Reloading.outstanding, Label.isReload, ↓reduceIte, hunsent]
    omega
  | recv hloop hchannel =>
    simp only [Reloading.outstanding, Label.isReload, ↓reduceIte, hloop, hchannel]
    omega
  | read hloop | store hloop | fetch hloop | setTtl hloop | setExclude hloop =>
    simp only [Reloading.outstanding, Label.isReload, ↓reduceIte, hloop]
    omega
  | op hop h => exact le_rfl

/-- The reload is never stuck before it is at rest. -/
theorem exists_step (h : ¬(s.unsent = 0 ∧ s.channel = 0 ∧ s.loop = .waiting)) :
    ∃ l t, l.isReload ∧ Step s l t := by
  cases hloop : s.loop with
  | received => exact ⟨.read, _, rfl, .read hloop⟩
  | parsed result => exact ⟨.store, _, rfl, .store hloop⟩
  | reloaded => exact ⟨.fetch, _, rfl, .fetch hloop⟩
  | fetched newConfig => exact ⟨.setTtl, _, rfl, .setTtl hloop⟩
  | ttlSet newConfig => exact ⟨.setExclude, _, rfl, .setExclude hloop⟩
  | waiting =>
    rcases Nat.eq_zero_or_pos s.channel with hempty | hmessage
    · have hunsent : s.unsent ≠ 0 := fun hzero => h ⟨hzero, hempty, hloop⟩
      obtain ⟨n, hn⟩ := Nat.exists_eq_succ_of_ne_zero hunsent
      exact ⟨.send, _, rfl, .send hn (by rw [hempty]; decide)⟩
    · obtain ⟨n, hn⟩ := Nat.exists_eq_succ_of_ne_zero hmessage.ne'
      exact ⟨.recv, _, rfl, .recv hloop hn⟩

/-- The settings in use come from this set: what the manager and the loop hold, what the file would
load, and what is applied. -/
structure From (K : Set Config) (s : Reloading) : Prop where
  file : ∀ c, loadFromFile s.file = some c → c ∈ K
  config : s.config ∈ K
  parsed : ∀ c, s.loop = .parsed (some c) → c ∈ K
  held : ∀ c, s.loop = .fetched c ∨ s.loop = .ttlSet c → c ∈ K
  ttl : ∃ c ∈ K, s.state.stickySessions.ttlSecs = c.stickySessionTtl
  exclude : ∃ c ∈ K, s.state.excludeCountries = c.excludeCountries

theorem From.step {K : Set Config} (hs : s.From K) (h : Step s l t)
    (hl : ∀ content c, l = .modify content → loadFromFile content = some c → c ∈ K) :
    t.From K := by
  cases h with
  | modify content => exact { hs with file := fun c hc => hl content c rfl hc }
  | watch | send hunsent hroom => exact { hs with }
  | recv hloop hchannel => exact { hs with parsed := by simp, held := by simp }
  | read hloop =>
    exact { hs with parsed := fun c hc => hs.file c (Loop.parsed.inj hc), held := by simp }
  | @store result hloop =>
    refine { hs with config := ?_, parsed := by simp, held := by simp }
    cases result with
    | none => exact hs.config
    | some c => exact hs.parsed c hloop
  | fetch hloop =>
    refine { hs with parsed := by simp, held := fun c hc => ?_ }
    obtain rfl := Loop.fetched.inj (hc.resolve_right (by simp))
    exact hs.config
  | @setTtl newConfig hloop =>
    have hnew := hs.held newConfig (Or.inl hloop)
    refine { hs with parsed := by simp, held := fun c hc => ?_, ttl := ⟨newConfig, hnew, rfl⟩ }
    obtain rfl := Loop.ttlSet.inj (hc.resolve_left (by simp))
    exact hnew
  | @setExclude newConfig hloop =>
    have hnew := hs.held newConfig (Or.inr hloop)
    exact { hs with parsed := by simp, held := by simp, exclude := ⟨newConfig, hnew, rfl⟩ }
  | op hop h =>
    obtain ⟨httl, hexclude⟩ := h.settings hop
    refine { hs with ttl := ?_, exclude := ?_ }
    · obtain ⟨c, hc, heq⟩ := hs.ttl
      exact ⟨c, hc, httl.trans heq⟩
    · obtain ⟨c, hc, heq⟩ := hs.exclude
      exact ⟨c, hc, hexclude.trans heq⟩

/-- The settings that the gateway started with and those of every content that the file had. -/
def Offered (file : Option Json) (as : List Label) : Set Config :=
  {c | c = loadOrDefault file ∨ ∃ content, .modify content ∈ as ∧ loadFromFile content = some c}

theorem from_start (file : Option Json) (as : List Label) :
    (start file).From (Offered file as) := by
  have hinit : loadOrDefault file ∈ Offered file as := Or.inl rfl
  refine ⟨fun c hc => Or.inl ?_, hinit, nofun, fun c hc => ?_, ⟨_, hinit, rfl⟩, ⟨_, hinit, rfl⟩⟩
  · rw [loadOrDefault, show loadFromFile file = some c from hc, Option.getD_some]
  · rcases hc with hc | hc <;> cases hc

theorem from_run {file : Option Json} {as bs : List Label} (h : Run Step s bs t)
    (hs : s.From (Offered file as)) (hsub : ∀ l ∈ bs, l ∈ as) : t.From (Offered file as) := by
  induction h with
  | nil => exact hs
  | @cons s u t l bs head _ ih =>
    refine ih (hs.step head fun content c hl hc => Or.inr ⟨content, ?_, hc⟩)
      fun l hl => hsub l (List.mem_cons_of_mem _ hl)
    exact hl ▸ hsub l List.mem_cons_self

theorem outstanding_run {bs : List Label} (h : Run Step s bs t)
    (hquiet : ∀ l ∈ bs, ∀ content, l ≠ .modify content) :
    t.outstanding + bs.countP Label.isReload ≤ s.outstanding := by
  induction h with
  | nil => exact le_rfl
  | @cons s u t l bs head _ ih =>
    have hstep := head.outstanding (hquiet l List.mem_cons_self)
    have hrest := ih fun l hl => hquiet l (List.mem_cons_of_mem _ hl)
    rw [List.countP_cons]
    omega

/-- A minute for the sessions, and one excluded country. -/
def shortSessions : Json :=
  .obj [("exclude_countries", .arr [.str "RU"]), ("sticky_session_ttl", .int 60)]

def shortSettings : Config :=
  { default with stickySessionTtl := 60, excludeCountries := ["RU"] }

/-- The watched file is rewritten, and the message about it goes through the loop. -/
def rewritten : List Label :=
  [.watch, .modify (some shortSessions), .send, .recv, .read, .store, .fetch, .setTtl, .setExclude]

def afterRewrite : Reloading where
  file := some shortSessions
  watched := true
  unsent := 0
  channel := 0
  config := shortSettings
  loop := .waiting
  state := (start none).state.reloadConfig 60 ["RU"]

theorem run_rewritten : Run (Guarded Step Watched) (start none) rewritten afterRewrite := by
  have hload : loadFromFile (some shortSessions) = some shortSettings := rfl
  refine .cons ⟨by simp [Watched], .watch⟩ <| .cons ⟨fun _ _ => rfl, .modify _⟩ <|
    .cons ⟨by simp [Watched], .send rfl (by decide)⟩ <|
    .cons ⟨by simp [Watched], .recv rfl rfl⟩ <| .cons ⟨by simp [Watched], .read rfl⟩ <|
    .cons ⟨by simp [Watched], .store rfl⟩ <| .cons ⟨by simp [Watched], .fetch rfl⟩ <|
    .cons ⟨by simp [Watched], .setTtl rfl⟩ <| .single ⟨by simp [Watched], ?_⟩
  exact @Step.setExclude _ shortSettings rfl

end Reloading

end Settings

end VpnGateway
