import VpnGateway.Core.Disk
import VpnGateway.Core.Runs
import VpnGateway.Core.Utf8
import VpnGateway.Pool.State

/-! The steps of `save_state_to` when the persistence loop and the shutdown path both save: one
temporary file, blocking operations that outlive the task that asked for them, and I/O errors
and a crash anywhere. -/
namespace VpnGateway

inductive Saver where
  | periodic | shutdown
  deriving DecidableEq

/-- The path of the state, and the same with `.tmp` behind it. -/
inductive StatePath where
  | file | tmp
  deriving DecidableEq

/-- How far one call of `save_state_to` is. What it waits for runs on the blocking pool. -/
inductive SaveStage where
  | idle
  | creatingDir (json : List UInt8)
  | opening (json : List UInt8)
  | writing (fd : FileId) (offset : ℕ) (json : List UInt8)
  | written (json : List UInt8)
  | moving (json : List UInt8)
  deriving DecidableEq

/-- `aborted` holds once the abort of the persistence loop has taken effect. -/
structure SaveState where
  disk : Disk StatePath
  stage : Saver → SaveStage
  aborted : Bool
  crashed : Bool

inductive SaveOp where
  /-- The pool is serialized, and the directory asked for. -/
  | begin (a : Saver) (json : List UInt8)
  /-- The directory is there, and `fs::write` is asked for. -/
  | dirReady (a : Saver)
  /-- `fs::write` opens and truncates the temporary file. -/
  | openTmp (a : Saver)
  /-- One write of so many bytes. -/
  | write (a : Saver) (n : ℕ)
  | writeDone (a : Saver)
  /-- `fs::rename` is asked for. -/
  | askRename (a : Saver)
  | rename (a : Saver)
  /-- The operation under way fails. -/
  | fail (a : Saver)
  | abort
  | crash

/-- Whether a saver has opened the temporary file and may still write to it or rename it. -/
def SaveStage.IsBusy (stopped : Prop) : SaveStage → Prop
  | writing _ _ _ => True
  | written _ => ¬stopped
  | moving _ => True
  | _ => False

namespace SaveState

/-- Whether the task is gone: what it has asked for still happens, but nothing follows. -/
def Stopped (s : SaveState) (a : Saver) : Prop := a = .periodic ∧ s.aborted = true

instance (s : SaveState) (a : Saver) : Decidable (s.Stopped a) :=
  inferInstanceAs (Decidable (_ ∧ _))

def update (s : SaveState) (disk : Disk StatePath) (a : Saver) (stage : SaveStage) : SaveState :=
  { s with disk := disk, stage := Function.update s.stage a stage }

/-- The state after one step; `none` where the step is not the saver's next. -/
def apply (s : SaveState) (op : SaveOp) : Option SaveState :=
  if s.crashed then none
  else match op with
  | .begin a json =>
    if s.stage a = .idle ∧ ¬s.Stopped a then some (s.update s.disk a (.creatingDir json)) else none
  | .dirReady a =>
    match s.stage a with
    | .creatingDir json =>
      if s.Stopped a then none else some (s.update s.disk a (.opening json))
    | _ => none
  | .openTmp a =>
    match s.stage a with
    | .opening json =>
      some (s.update (s.disk.openTruncate .tmp).2 a
        (.writing (s.disk.openTruncate .tmp).1 0 json))
    | _ => none
  | .write a n =>
    match s.stage a with
    | .writing fd offset json =>
      if 0 < n ∧ offset + n ≤ json.length then
        some (s.update (s.disk.writeAt fd offset ((json.drop offset).take n)) a
          (.writing fd (offset + n) json))
      else none
    | _ => none
  | .writeDone a =>
    match s.stage a with
    | .writing _ offset json =>
      if offset = json.length then some (s.update s.disk a (.written json)) else none
    | _ => none
  | .askRename a =>
    match s.stage a with
    | .written json => if s.Stopped a then none else some (s.update s.disk a (.moving json))
    | _ => none
  | .rename a =>
    match s.stage a with
    | .moving _ => (s.disk.rename .tmp .file).map fun disk => s.update disk a .idle
    | _ => none
  | .fail a =>
    match s.stage a with
    | .idle => none
    | .written _ => none
    | _ => some (s.update s.disk a .idle)
  | .abort => some { s with aborted := true }
  | .crash => some { s with crashed := true }

/-- The gateway starts with whatever is on the disk. -/
def start (disk : Disk StatePath) : SaveState := ⟨disk, fun _ => .idle, false, false⟩

def Busy (s : SaveState) (a : Saver) : Prop := (s.stage a).IsBusy (s.Stopped a)

/-- The temporary file is opened only while no other saver is busy with it. -/
def Exclusive (s : SaveState) (op : SaveOp) : Prop :=
  ∀ a, op = .openTmp a → ∀ b, b ≠ a → ¬s.Busy b

end SaveState

/-- `serde_json::to_string_pretty` of a list, around the text of its records. -/
def prettyArray (records : List String) : String :=
  if records = [] then "[]" else "[\n  " ++ String.intercalate ",\n  " records ++ "\n]"

/-- The text that `save_state_to` writes of a pool. -/
def stateText (record : Proxy → String) (s : SharedState) (it : s.proxies.Iteration) : String :=
  prettyArray ((it.values.filter (·.lastCheck.isSome)).map record)

/-- A complete document of some pool. -/
def IsSnapshot (record : Proxy → String) (json : List UInt8) : Prop :=
  ∃ (s : SharedState) (it : s.proxies.Iteration), json = Utf8.encode (stateText record s it)

/-- One step of the savers; what is saved is the document of the pool at that time. -/
def SaveStep (record : Proxy → String) (s : SaveState) (op : SaveOp) (t : SaveState) : Prop :=
  (∀ a json, op = .begin a json → IsSnapshot record json) ∧ s.apply op = some t

namespace SaveStage

/-- The document that a call of `save_state_to` carries. -/
def doc : SaveStage → Option (List UInt8)
  | idle => none
  | creatingDir json => some json
  | opening json => some json
  | writing _ _ json => some json
  | written json => some json
  | moving json => some json

/-- What a busy saver relies on: the temporary file is the one it has open and holds what it has
written so far. -/
def Owns (disk : Disk StatePath) (stopped : Prop) : SaveStage → Prop
  | writing fd offset json =>
    disk.dir.entry .tmp = some fd ∧ disk.data fd = json.take offset ∧ offset ≤ json.length
  | written json => ¬stopped → disk.content .tmp = some json
  | moving json => disk.content .tmp = some json
  | _ => True

theorem owns_of_not_busy {disk : Disk StatePath} {stopped : Prop} {stage : SaveStage}
    (h : ¬stage.IsBusy stopped) : stage.Owns disk stopped := by
  cases stage with
  | writing fd offset json => exact absurd True.intro h
  | written json => exact fun hs => absurd hs h
  | moving json => exact absurd True.intro h
  | _ => exact True.intro

/-- Once its task is gone, a saver relies on less. -/
theorem Owns.stopped {disk : Disk StatePath} {stopped stopped' : Prop} {stage : SaveStage}
    (himp : stopped → stopped') (h : stage.Owns disk stopped) : stage.Owns disk stopped' := by
  cases stage with
  | written json => exact fun hs => h fun hs' => hs (himp hs')
  | _ => exact h

theorem IsBusy.running {stopped stopped' : Prop} {stage : SaveStage} (himp : stopped → stopped')
    (h : stage.IsBusy stopped') : stage.IsBusy stopped := by
  cases stage with
  | written json => exact fun hs => h (himp hs)
  | _ => exact h

end SaveStage

namespace SaveState

/-- The file under the state path is the old one or complete; at most one saver is busy; every
saver carries a complete document and owns the temporary file while it is busy. -/
structure Intact (Complete : List UInt8 → Prop) (before : Option (List UInt8)) (s : SaveState) :
    Prop where
  file : s.disk.content .file = before ∨ ∃ json, s.disk.content .file = some json ∧ Complete json
  docs : ∀ a json, (s.stage a).doc = some json → Complete json
  single : ∀ a b, s.Busy a → s.Busy b → a = b
  owns : ∀ a, (s.stage a).Owns s.disk (s.Stopped a)

variable {Complete : List UInt8 → Prop} {before : Option (List UInt8)} {s : SaveState}
  {disk : Disk StatePath} {stage : SaveStage} {a : Saver}

theorem stage_update_self : (s.update disk a stage).stage a = stage := Function.update_self ..

theorem stage_update_of_ne {b : Saver} (h : b ≠ a) :
    (s.update disk a stage).stage b = s.stage b := Function.update_of_ne h ..

theorem busy_update_of_ne {b : Saver} (h : b ≠ a) :
    (s.update disk a stage).Busy b ↔ s.Busy b := by
  unfold Busy
  rw [stage_update_of_ne h]
  rfl

namespace Intact

theorem docs_update (hs : s.Intact Complete before)
    (hdoc : ∀ json, stage.doc = some json → Complete json) (b : Saver) (json : List UInt8)
    (h : ((s.update disk a stage).stage b).doc = some json) : Complete json := by
  by_cases hb : b = a
  · rw [hb, stage_update_self] at h
    exact hdoc json h
  · rw [stage_update_of_ne hb] at h
    exact hs.docs b json h

/-- A saver that no other one disturbs takes a step on the disk. -/
theorem update_alone (hs : s.Intact Complete before) (halone : ∀ b, b ≠ a → ¬s.Busy b)
    (hfile : disk.content .file = s.disk.content .file ∨
      ∃ json, disk.content .file = some json ∧ Complete json)
    (hdoc : ∀ json, stage.doc = some json → Complete json)
    (howns : stage.Owns disk (s.Stopped a)) :
    (s.update disk a stage).Intact Complete before where
  file := by
    rcases hfile with hsame | hnew
    · rw [show (s.update disk a stage).disk = disk from rfl, hsame]
      exact hs.file
    · exact Or.inr hnew
  docs := docs_update hs hdoc
  single b c hb hc := by
    have hself : ∀ d, (s.update disk a stage).Busy d → d = a := by
      intro d hd
      by_contra hne
      exact halone d hne ((busy_update_of_ne hne).mp hd)
    rw [hself b hb, hself c hc]
  owns b := by
    by_cases hb : b = a
    · rw [hb, stage_update_self]
      exact howns
    · exact SaveStage.owns_of_not_busy fun hbusy => halone b hb ((busy_update_of_ne hb).mp hbusy)

/-- A saver that is not busy afterwards has left the disk as it was. -/
theorem update_idle (hs : s.Intact Complete before)
    (hdoc : ∀ json, stage.doc = some json → Complete json)
    (hidle : ¬stage.IsBusy (s.Stopped a)) :
    (s.update s.disk a stage).Intact Complete before where
  file := hs.file
  docs := docs_update hs hdoc
  single b c hb hc := by
    have hold : ∀ d, (s.update s.disk a stage).Busy d → s.Busy d := by
      intro d hd
      by_cases hda : d = a
      · subst hda
        unfold Busy at hd
        rw [stage_update_self] at hd
        exact absurd hd hidle
      · exact (busy_update_of_ne hda).mp hd
    exact hs.single b c (hold b hb) (hold c hc)
  owns b := by
    by_cases hb : b = a
    · rw [hb, stage_update_self]
      exact SaveStage.owns_of_not_busy hidle
    · rw [stage_update_of_ne hb]
      exact hs.owns b

/-- A busy saver is the only one. -/
theorem alone_of_busy (hs : s.Intact Complete before) (ha : s.Busy a) :
    ∀ b, b ≠ a → ¬s.Busy b := fun b hne hb => hne (hs.single b a hb ha)

theorem busy_of_stage (hstage : s.stage a = stage) (h : stage.IsBusy (s.Stopped a)) : s.Busy a := by
  unfold Busy
  rwa [hstage]

/-- The saver goes on with the document it has. -/
theorem docs_of_stage (hs : s.Intact Complete before) {old : SaveStage}
    (hstage : s.stage a = old) (hsame : stage.doc = old.doc) :
    ∀ json, stage.doc = some json → Complete json :=
  fun json hdoc => hs.docs a json (by rw [hstage, ← hsame, hdoc])

theorem owns_of_stage (hs : s.Intact Complete before) (hstage : s.stage a = stage) :
    stage.Owns s.disk (s.Stopped a) := hstage ▸ hs.owns a

variable {fd : FileId} {offset n : ℕ} {json : List UInt8}

/-- The new file is empty, and the state path is not touched. -/
theorem openTmp (hs : s.Intact Complete before) (hstage : s.stage a = .opening json)
    (halone : ∀ b, b ≠ a → ¬s.Busy b) :
    (s.update (s.disk.openTruncate .tmp).2 a
      (.writing (s.disk.openTruncate .tmp).1 0 json)).Intact Complete before :=
  hs.update_alone halone (Or.inl (s.disk.content_openTruncate_of_ne (by decide)))
    (docs_of_stage hs hstage rfl)
    ⟨s.disk.entry_openTruncate .tmp, s.disk.data_openTruncate .tmp, Nat.zero_le _⟩

theorem write (hs : s.Intact Complete before) (hstage : s.stage a = .writing fd offset json)
    (hfits : offset + n ≤ json.length) :
    (s.update (s.disk.writeAt fd offset ((json.drop offset).take n)) a
      (.writing fd (offset + n) json)).Intact Complete before := by
  obtain ⟨hentry, hdata, hoffset⟩ := hs.owns_of_stage hstage
  have hnext : (s.disk.writeAt fd offset ((json.drop offset).take n)).data fd =
      json.take (offset + n) := by
    rw [Disk.data_writeAt, hdata, Disk.splice_prefix json offset n hoffset]
  exact hs.update_alone (hs.alone_of_busy (busy_of_stage hstage True.intro))
    (Or.inl (Disk.content_update_of_ne _ hentry (by decide))) (docs_of_stage hs hstage rfl)
    ⟨hentry, hnext, hfits⟩

/-- After the last write the temporary file is complete. -/
theorem writeDone (hs : s.Intact Complete before) (hstage : s.stage a = .writing fd offset json)
    (hall : offset = json.length) : (s.update s.disk a (.written json)).Intact Complete before := by
  obtain ⟨hentry, hdata, -⟩ := hs.owns_of_stage hstage
  have hcomplete : s.disk.content .tmp = some json := by
    rw [Disk.content_of_entry hentry, hdata, hall, List.take_length]
  exact hs.update_alone (hs.alone_of_busy (busy_of_stage hstage True.intro)) (Or.inl rfl)
    (docs_of_stage hs hstage rfl) fun _ => hcomplete

theorem askRename (hs : s.Intact Complete before) (hstage : s.stage a = .written json)
    (hrunning : ¬s.Stopped a) : (s.update s.disk a (.moving json)).Intact Complete before :=
  hs.update_alone (hs.alone_of_busy (busy_of_stage hstage hrunning)) (Or.inl rfl)
    (docs_of_stage hs hstage rfl) (hs.owns_of_stage hstage hrunning)

/-- The state path shows the complete document at once. -/
theorem rename (hs : s.Intact Complete before) (hstage : s.stage a = .moving json)
    (hdisk : s.disk.rename .tmp .file = some disk) :
    (s.update disk a .idle).Intact Complete before := by
  have hfile : disk.content .file = some json :=
    (Disk.content_rename hdisk).trans (hs.owns_of_stage hstage)
  exact hs.update_alone (hs.alone_of_busy (busy_of_stage hstage True.intro))
    (Or.inr ⟨json, hfile, hs.docs a json (hstage ▸ rfl)⟩) (fun doc hdoc => by cases hdoc) True.intro

theorem abort (hs : s.Intact Complete before) :
    ({ s with aborted := true } : SaveState).Intact Complete before where
  file := hs.file
  docs := hs.docs
  single b c hb hc := by
    have hold : ∀ d, ({ s with aborted := true } : SaveState).Busy d → s.Busy d :=
      fun d hd => SaveStage.IsBusy.running (fun hs => ⟨hs.1, rfl⟩) hd
    exact hs.single b c (hold b hb) (hold c hc)
  owns b := (hs.owns b).stopped fun hs => ⟨hs.1, rfl⟩

/-- Every step keeps the state file whole, if the temporary file is opened only by a saver that
has it to itself. -/
theorem step (hs : s.Intact Complete before) {op : SaveOp} {t : SaveState}
    (hbegin : ∀ a json, op = .begin a json → Complete json) (hguard : s.Exclusive op)
    (h : s.apply op = some t) : t.Intact Complete before := by
  unfold apply at h
  split_ifs at h with hcrashed
  cases op with
  | begin a json =>
    obtain ⟨-, h⟩ := Option.ite_none_right_eq_some.mp h
    obtain rfl := Option.some.inj h
    have hdoc : ∀ doc, (SaveStage.creatingDir json).doc = some doc → Complete doc := by
      intro doc hdoc
      obtain rfl := Option.some.inj hdoc
      exact hbegin a json rfl
    exact hs.update_idle hdoc id
  | dirReady a =>
    cases hstage : s.stage a with
    | creatingDir json =>
      simp only [hstage] at h
      obtain ⟨-, h⟩ := Option.ite_none_left_eq_some.mp h
      exact Option.some.inj h ▸ hs.update_idle (docs_of_stage hs hstage rfl) id
    | _ => simp [hstage] at h
  | openTmp a =>
    cases hstage : s.stage a with
    | opening json =>
      simp only [hstage] at h
      exact Option.some.inj h ▸ hs.openTmp hstage (hguard a rfl)
    | _ => simp [hstage] at h
  | write a n =>
    cases hstage : s.stage a with
    | writing fd offset json =>
      simp only [hstage] at h
      obtain ⟨⟨-, hfits⟩, h⟩ := Option.ite_none_right_eq_some.mp h
      exact Option.some.inj h ▸ hs.write hstage hfits
    | _ => simp [hstage] at h
  | writeDone a =>
    cases hstage : s.stage a with
    | writing fd offset json =>
      simp only [hstage] at h
      obtain ⟨hall, h⟩ := Option.ite_none_right_eq_some.mp h
      exact Option.some.inj h ▸ hs.writeDone hstage hall
    | _ => simp [hstage] at h
  | askRename a =>
    cases hstage : s.stage a with
    | written json =>
      simp only [hstage] at h
      obtain ⟨hrunning, h⟩ := Option.ite_none_left_eq_some.mp h
      exact Option.some.inj h ▸ hs.askRename hstage hrunning
    | _ => simp [hstage] at h
  | rename a =>
    cases hstage : s.stage a with
    | moving json =>
      simp only [hstage] at h
      obtain ⟨disk, hdisk, rfl⟩ := Option.map_eq_some_iff.mp h
      exact hs.rename hstage hdisk
    | _ => simp [hstage] at h
  | fail a =>
    have hidle : (s.update s.disk a .idle).Intact Complete before :=
      hs.update_idle (fun doc hdoc => by cases hdoc) id
    cases hstage : s.stage a with
    | idle => simp [hstage] at h
    | written json => simp [hstage] at h
    | _ =>
      simp only [hstage] at h
      exact Option.some.inj h ▸ hidle
  | abort => exact Option.some.inj h ▸ hs.abort
  | crash => exact Option.some.inj h ▸ ⟨hs.file, hs.docs, hs.single, hs.owns⟩

end Intact

theorem intact_start (disk : Disk StatePath) :
    (start disk).Intact Complete (disk.content .file) where
  file := Or.inl rfl
  docs a json h := by cases h
  single a b ha := False.elim ha
  owns a := True.intro

/-- While the temporary file is opened only when no other saver is busy with it, the state path
shows at every moment what it showed before, or a complete document of some pool. -/
theorem state_file_intact (record : Proxy → String) (disk : Disk StatePath) {ops : List SaveOp}
    {t : SaveState}
    (h : Runs.Run (Runs.Guarded (SaveStep record) Exclusive) (start disk) ops t) :
    t.disk.content .file = disk.content .file ∨
      ∃ json, t.disk.content .file = some json ∧ IsSnapshot record json := by
  have hintact : t.Intact (IsSnapshot record) (disk.content .file) :=
    h.invariant (fun _ _ _ hs hstep => hs.step hstep.2.1 hstep.1 hstep.2.2) (intact_start disk)
  exact hintact.file

/-! Savers of an empty pool, whose document has two bytes. -/

theorem isSnapshot_empty (record : Proxy → String) : IsSnapshot record (Utf8.encode "[]") :=
  ⟨.withConfig 300 5000 [], ⟨[], List.nodup_nil, by simp [SharedState.withConfig]⟩, rfl⟩

/-- A document is never empty. -/
theorem not_isSnapshot_nil (record : Proxy → String) : ¬IsSnapshot record [] := by
  rintro ⟨s, it, h⟩
  have hlen := congrArg List.length h
  have hopen : (Utf8.encode "[\n  ").length = 4 := by decide
  have hempty : (Utf8.encode "[]").length = 2 := by decide
  unfold stateText prettyArray at hlen
  split_ifs at hlen
  · rw [hempty] at hlen
    cases hlen
  · rw [Utf8.encode_append, Utf8.encode_append, List.length_append, List.length_append, hopen,
      List.length_nil] at hlen
    omega

/-- Every call of the list saves an empty pool. -/
def SavesEmpty (op : SaveOp) : Prop := ∀ a json, op = .begin a json → json = Utf8.encode "[]"

theorem saveStep_of_apply (record : Proxy → String) (s : SaveState) (op : SaveOp) (t : SaveState)
    (hop : SavesEmpty op) (h : s.apply op = some t) : SaveStep record s op t :=
  ⟨fun a json hbegin => hop a json hbegin ▸ isSnapshot_empty record, h⟩

/-- One call of `save_state_to` from its first step to its last. -/
def saveOps (a : Saver) : List SaveOp :=
  [.begin a (Utf8.encode "[]"), .dirReady a, .openTmp a, .write a 2, .writeDone a, .askRename a,
    .rename a]

/-- A step of the shutdown path while the loop is idle. -/
theorem step_alone {record : Proxy → String} {op : SaveOp} {t : SaveState}
    (h : s.apply op = some t) (hidle : s.stage .periodic = .idle)
    (hop : ∀ a, op = .openTmp a → a = .shutdown) (hempty : SavesEmpty op) :
    Runs.Guarded (SaveStep record) Exclusive s op t := by
  refine ⟨?_, saveStep_of_apply record s op t hempty h⟩
  rintro a rfl b hb hbusy
  obtain rfl := hop a rfl
  cases b with
  | periodic =>
    unfold Busy at hbusy
    rw [hidle] at hbusy
    exact hbusy
  | shutdown => exact hb rfl

/-- A call without company leaves a complete document. -/
theorem state_file_intact_alone : ∃ t,
    Runs.Run (Runs.Guarded (SaveStep fun _ => "") Exclusive) (start .empty) (saveOps .shutdown) t ∧
    t.disk.content .file = some (Utf8.encode "[]") ∧
    (t.disk.content .file = none ∨
      ∃ json, t.disk.content .file = some json ∧ IsSnapshot (fun _ => "") json) := by
  have hempty : ∀ op ∈ saveOps .shutdown, SavesEmpty op := by
    simp +contextual [saveOps, SavesEmpty]
  simp only [saveOps, List.forall_mem_cons] at hempty
  obtain ⟨hbegin, hdir, hopen, hwrite, hdone, hask, hmove, -⟩ := hempty
  have hrun : ∃ t, Runs.Run (Runs.Guarded (SaveStep fun _ => "") Exclusive) (start .empty)
      (saveOps .shutdown) t ∧ t.disk.content .file = some (Utf8.encode "[]") :=
    ⟨_, .cons (step_alone rfl rfl (by simp) hbegin) <| .cons (step_alone rfl rfl (by simp) hdir) <|
      .cons (step_alone rfl rfl (by simp) hopen) <| .cons (step_alone rfl rfl (by simp) hwrite) <|
      .cons (step_alone rfl rfl (by simp) hdone) <| .cons (step_alone rfl rfl (by simp) hask) <|
      .single (step_alone rfl rfl (by simp) hmove), rfl⟩
  obtain ⟨t, hrun, hfile⟩ := hrun
  exact ⟨t, hrun, hfile, state_file_intact (fun _ => "") .empty hrun⟩

/-- The loop has asked for its write when Ctrl+C aborts it; the shutdown path writes the
temporary file, the loop's write truncates it, and the shutdown path renames it. -/
def raceOps : List SaveOp :=
  [.begin .periodic (Utf8.encode "[]"), .dirReady .periodic, .abort,
    .begin .shutdown (Utf8.encode "[]"), .dirReady .shutdown, .openTmp .shutdown,
    .write .shutdown 2, .writeDone .shutdown, .openTmp .periodic, .askRename .shutdown,
    .rename .shutdown]

theorem savesEmpty_raceOps : ∀ op ∈ raceOps, SavesEmpty op := by
  simp +contextual [raceOps, SavesEmpty]

/-- The state path then shows an empty file, which is no document of any pool. -/
theorem save_race_loses_state : ∃ t, t.disk.content .file = some [] ∧
    (start .empty).disk.content .file = none ∧
    ∀ record, Runs.Run (SaveStep record) (start .empty) raceOps t ∧ ¬IsSnapshot record [] := by
  have hexec : ∃ t, Runs.exec apply (start .empty) raceOps = some t ∧
      t.disk.content .file = some [] := ⟨_, rfl, rfl⟩
  obtain ⟨t, ht, hfile⟩ := hexec
  exact ⟨t, hfile, rfl, fun record =>
    ⟨Runs.run_of_exec (saveStep_of_apply record) savesEmpty_raceOps ht, not_isSnapshot_nil record⟩⟩

end SaveState

end VpnGateway
