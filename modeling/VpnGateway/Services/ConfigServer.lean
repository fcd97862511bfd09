import VpnGateway.Core.FinMap
import VpnGateway.Core.Paths
import VpnGateway.Core.Runs
import VpnGateway.Services.PeerConfigs

/-! The web server of the net manager beside its main loop, which writes the files that the server
sends: what a client can download at which time. -/
namespace VpnGateway.ConfigServer

open Runs PeerConfigs

inductive Side where
  | lan | wan
  deriving DecidableEq

inductive Kind where
  | conf | qr
  deriving DecidableEq

/-- A file with a configuration, or with the image that encodes it. -/
inductive Content where
  | text (config : List Char)
  | qr (config : List Char)

def Kind.content : Kind → List Char → Content
  | .conf => .text
  | .qr => .qr

structure ServerConfig where
  outputDir : Path
  wgPort : ℕ
  dockerHostIp : Option IpText

def ServerConfig.newLanIp (c : ServerConfig) (detected : IpText) : IpText :=
  c.dockerHostIp.getD detected

/-- `Path.resolve`, which follows the symbolic links there are. -/
structure Resolver where
  resolve : Path → Path
  normal : ∀ p, Paths.Normal (resolve p)

/-- What happens to a file; `write_text` opens it anew before it writes. -/
inductive FileOp where
  | truncate (path : Path)
  | fill (path : Path) (config : List Char)
  | saveQr (path : Path) (config : List Char)

def FileOp.path : FileOp → Path
  | .truncate path | .fill path _ | .saveQr path _ => path

/-- The output directory, with a record of the codes that could not be saved when it was their
turn. -/
structure Store where
  files : FinMap Path Content
  unsaved : List Path

/-- `generate_qr` logs its errors and goes on. -/
def FileOp.run (saved : Bool) (s : Store) : FileOp → Store
  | .truncate path => { s with files := s.files.insert path (.text []) }
  | .fill path config => { s with files := s.files.insert path (.text config) }
  | .saveQr path config =>
    if saved then ⟨s.files.insert path (.qr config), s.unsaved.filter (· ≠ path)⟩
    else { s with unsaved := path :: s.unsaved }

def runOps (s : Store) (ops : List (FileOp × Bool)) : Store :=
  ops.foldl (fun s op => op.1.run op.2 s) s

def writtenOps (x : Written) : List FileOp :=
  [.truncate x.configPath, .fill x.configPath x.config, .saveQr x.qrPath x.config]

/-- The order in which `generate_all_configs` writes. -/
def fileOps (infos : List PeerInfo) : List FileOp :=
  (infos.flatMap PeerInfo.written).flatMap writtenOps

def sideOf (info : PeerInfo) : Side → Option Written
  | .lan => some info.lan
  | .wan => info.wan

def pathOf (x : Written) : Kind → Path
  | .conf => x.configPath
  | .qr => x.qrPath

/-- What one call of `generate_all_configs` finds. -/
structure Scan where
  dir : WgConfigDir
  lanIp : IpText
  wanIp : Option IpText

def Scan.infos (c : ServerConfig) (scan : Scan) : List PeerInfo :=
  generateAllConfigs scan.dir c.outputDir scan.lanIp scan.wanIp c.wgPort

/-- Where the main loop is. -/
inductive Stage where
  | waiting
  | lanChecked (changed : Bool)
  | changed
  | writing (todo : List FileOp) (infos : List PeerInfo)

/-- The state that the server reads, the files, and a record of the scans. -/
structure Manager where
  lanIp : IpText
  wanIp : Option IpText
  peers : List PeerInfo
  store : Store
  stage : Stage
  scans : List Scan

inductive ManagerEvent where
  | checkLan (detected : IpText)
  | checkWan (newWanIp : Option IpText)
  | scan (dir : WgConfigDir)
  | fileOp (saved : Bool)
  | publish

/-- Before the first configurations are generated; files of an earlier run may be there. -/
def init (lanIp : IpText) (wanIp : Option IpText) (files : FinMap Path Content) : Manager :=
  ⟨lanIp, wanIp, [], ⟨files, []⟩, .changed, []⟩

instance : DecidableEq IpText := inferInstanceAs (DecidableEq {ip : List Char // '\n' ∉ ip})

/-- The steps of `main`. -/
inductive Step (c : ServerConfig) (w : Manager) : ManagerEvent → Manager → Prop where
  | checkLan (h : w.stage = .waiting) (detected : IpText) : Step c w (.checkLan detected)
      { w with
        lanIp := c.newLanIp detected
        stage := .lanChecked (decide (c.newLanIp detected ≠ w.lanIp)) }
  | checkWan {changed : Bool} (h : w.stage = .lanChecked changed) (newWanIp : Option IpText) :
      Step c w (.checkWan newWanIp)
      { w with
        wanIp := newWanIp
        stage := if changed || newWanIp ≠ w.wanIp then .changed else .waiting }
  | scan (h : w.stage = .changed) (dir : WgConfigDir) : Step c w (.scan dir)
      { w with
        stage := .writing (fileOps (Scan.infos c ⟨dir, w.lanIp, w.wanIp⟩))
          (Scan.infos c ⟨dir, w.lanIp, w.wanIp⟩)
        scans := w.scans ++ [⟨dir, w.lanIp, w.wanIp⟩] }
  | fileOp {op : FileOp} {todo : List FileOp} {infos : List PeerInfo}
      (h : w.stage = .writing (op :: todo) infos) (saved : Bool) : Step c w (.fileOp saved)
      { w with store := op.run saved w.store, stage := .writing todo infos }
  | publish {infos : List PeerInfo} (h : w.stage = .writing [] infos) : Step c w .publish
      { w with peers := infos, stage := .waiting }

/-- The pattern `^[a-zA-Z0-9_-]{1,64}$`, which a line feed at the end also meets. -/
def isSafePeerName (name : List Char) : Bool :=
  let body := if name.getLast? = some '\n' then name.dropLast else name
  1 ≤ body.length && body.length ≤ 64 && body.all fun c => c.isAlphanum || c = '_' || c = '-'

def findPeer (peers : List PeerInfo) (name : List Char) : Option PeerInfo :=
  if isSafePeerName name then peers.find? (·.name = name) else none

def filePath (peers : List PeerInfo) (kind : Kind) (side : Side) (name : List Char) :
    Option Path :=
  (findPeer peers name).bind fun info => (sideOf info side).map (pathOf · kind)

inductive Reply where
  | notFound
  | forbidden
  | file (path : Path) (content : Content)

/-- `_safe_send_file`. -/
def safeSendFile (c : ServerConfig) (r : Resolver) (path : Path) (content : Content) : Reply :=
  if Paths.within (r.resolve c.outputDir) (r.resolve path) then .file (r.resolve path) content
  else .forbidden

/-- The four download routes. -/
def reply (c : ServerConfig) (r : Resolver) (w : Manager) (kind : Kind) (side : Side)
    (name : List Char) : Reply :=
  match filePath w.peers kind side name with
  | none => .notFound
  | some path =>
    match w.store.files.get path with
    | none => .notFound
    | some content => safeSendFile c r path content

/-- The reply that belongs to a scan, whatever the files are. -/
def answer (c : ServerConfig) (r : Resolver) (scan : Scan) (kind : Kind) (side : Side)
    (name : List Char) : Reply :=
  match (findPeer (scan.infos c) name).bind (sideOf · side) with
  | none => .notFound
  | some x => safeSendFile c r (pathOf x kind) (kind.content x.config)

/-! The paths of one scan are all different. -/

def Side.text : Side → List Char
  | .lan => "lan".toList
  | .wan => "wan".toList

def Kind.ending : Kind → List Char
  | .conf => ".conf".toList
  | .qr => "-qr.png".toList

/-- The path of a file, by the peer it is for. -/
def filedAt (outputDir : Path) (name : List Char) (side : Side) (kind : Kind) : Path :=
  outputDir ++ [name, name ++ ('-' :: side.text ++ kind.ending)]

variable {c : ServerConfig} {r : Resolver} {scan : Scan} {info : PeerInfo} {x : Written}
  {side : Side} {kind : Kind} {name : List Char} {w w' : Manager} {e : ManagerEvent}
  {es : List ManagerEvent} {p : Path} {store : Store}

theorem filedAt_inj {outputDir : Path} {name name' : List Char} {side side' : Side}
    {kind kind' : Kind}
    (h : filedAt outputDir name side kind = filedAt outputDir name' side' kind') :
    name = name' ∧ side = side' ∧ kind = kind' := by
  obtain ⟨rfl, hfile⟩ := List.cons.inj (List.append_cancel_left h)
  have hsuffix := List.append_cancel_left (List.cons.inj hfile).1
  refine ⟨rfl, ?_⟩
  cases side <;> cases kind <;> cases side' <;> cases kind' <;> first
    | exact ⟨rfl, rfl⟩
    | exact absurd hsuffix (by decide)

theorem mem_infos (h : info ∈ scan.infos c) : ∃ peer ∈ scanPeers scan.dir, info.toPeer = peer ∧
    info.lan = write c.outputDir (readServerPublicKey scan.dir) c.wgPort peer "lan".toList
      scan.lanIp.1 ∧
    info.wan = (scan.wanIp.filter fun ip => !ip.1.isEmpty).map fun ip =>
      write c.outputDir (readServerPublicKey scan.dir) c.wgPort peer "wan".toList ip.1 := by
  unfold Scan.infos generateAllConfigs at h
  dsimp only at h
  split_ifs at h
  · cases h
  · obtain ⟨peer, hpeer, rfl⟩ := List.mem_map.mp h
    exact ⟨peer, hpeer, rfl, rfl, rfl⟩

theorem pathOf_write (outputDir : Path) (server : List Char) (port : ℕ) (peer : Peer) (side : Side)
    (ip : List Char) (kind : Kind) :
    pathOf (write outputDir server port peer side.text ip) kind =
      filedAt outputDir peer.name side kind := by
  have hpath : pathOf (write outputDir server port peer side.text ip) kind =
      outputDir ++ [peer.name] ++ [peer.name ++ '-' :: side.text ++ kind.ending] := by
    cases kind <;> rfl
  rw [hpath, filedAt, List.append_assoc, List.append_assoc]
  rfl

theorem pathOf_eq (h : info ∈ scan.infos c) (hx : sideOf info side = some x) (kind : Kind) :
    pathOf x kind = filedAt c.outputDir info.name side kind := by
  obtain ⟨peer, -, hpeer, hlan, hwan⟩ := mem_infos h
  have hname : info.name = peer.name := by rw [← hpeer]
  cases side with
  | lan =>
    obtain rfl := Option.some.inj hx
    rw [hlan, hname]
    exact pathOf_write _ _ _ peer .lan _ kind
  | wan =>
    rw [sideOf, hwan] at hx
    obtain ⟨ip, -, rfl⟩ := Option.map_eq_some_iff.mp hx
    rw [hname]
    exact pathOf_write _ _ _ peer .wan _ kind

theorem mem_written : x ∈ info.written ↔ ∃ side, sideOf info side = some x := by
  constructor
  · intro h
    rcases List.mem_cons.mp h with rfl | hwan
    · exact ⟨.lan, rfl⟩
    · exact ⟨.wan, Option.mem_toList.mp hwan⟩
  · rintro ⟨side, h⟩
    cases side with
    | lan =>
      obtain rfl := Option.some.inj h
      exact List.mem_cons_self
    | wan => exact List.mem_cons_of_mem _ (Option.mem_toList.mpr h)

theorem nodup_names (c : ServerConfig) (scan : Scan) :
    (scan.infos c).Pairwise fun a b => a.name ≠ b.name := by
  have hentries : scan.dir.entries.Pairwise fun a b => a.name ≠ b.name :=
    List.pairwise_map.mp scan.dir.nodup
  have hscan : (scanPeers scan.dir).Pairwise fun a b => a.name ≠ b.name := by
    unfold scanPeers
    split_ifs
    · refine hentries.filterMap _ fun a b hne p hp q hq => ?_
      rwa [(scanPeer_eq_some hp).1, (scanPeer_eq_some hq).1]
    · exact .nil
  unfold Scan.infos generateAllConfigs
  dsimp only
  split_ifs
  · exact .nil
  · exact List.pairwise_map.mpr hscan

/-- The paths that are written for a scan, in this order. -/
def paths (ws : List Written) : List Path := ws.flatMap fun x => [x.configPath, x.qrPath]

theorem nodup_paths (c : ServerConfig) (scan : Scan) :
    (paths ((scan.infos c).flatMap PeerInfo.written)).Nodup := by
  have hpath : ∀ info ∈ scan.infos c, ∀ p ∈ paths info.written,
      ∃ side kind, p = filedAt c.outputDir info.name side kind := by
    intro info hinfo p hp
    obtain ⟨x, hx, hpx⟩ := List.mem_flatMap.mp hp
    obtain ⟨side, hside⟩ := mem_written.mp hx
    rcases List.mem_pair.mp hpx with rfl | rfl
    · exact ⟨side, .conf, pathOf_eq hinfo hside .conf⟩
    · exact ⟨side, .qr, pathOf_eq hinfo hside .qr⟩
  rw [paths, List.flatMap_assoc, List.Nodup, List.pairwise_flatMap]
  refine ⟨fun info hinfo => ?_, (nodup_names c scan).imp_of_mem fun {a b} ha hb hne p hp q hq => ?_⟩
  · have hinj : Function.Injective fun sk : Side × Kind =>
        filedAt c.outputDir info.name sk.1 sk.2 := fun sk sk' h =>
      Prod.ext (filedAt_inj h).2.1 (filedAt_inj h).2.2
    have hlan : sideOf info .lan = some info.lan := rfl
    have hconf := pathOf_eq hinfo hlan .conf
    have hqr := pathOf_eq hinfo hlan .qr
    simp only [pathOf] at hconf hqr
    cases hwan : info.wan with
    | none =>
      have hnodup : [(Side.lan, Kind.conf), (.lan, .qr)].Nodup := by decide
      rw [PeerInfo.written, hwan, Option.toList_none, List.flatMap_singleton, hconf, hqr]
      exact hnodup.map hinj
    | some x =>
      have hside : sideOf info .wan = some x := hwan
      have hconf' := pathOf_eq hinfo hside .conf
      have hqr' := pathOf_eq hinfo hside .qr
      simp only [pathOf] at hconf' hqr'
      have hnodup : [(Side.lan, Kind.conf), (.lan, .qr), (.wan, .conf), (.wan, .qr)].Nodup := by
        decide
      rw [PeerInfo.written, hwan, Option.toList_some, List.flatMap_cons, List.flatMap_singleton,
        hconf, hqr, hconf', hqr']
      exact hnodup.map hinj
  · obtain ⟨side, kind, rfl⟩ := hpath a ha p hp
    obtain ⟨side', kind', rfl⟩ := hpath b hb q hq
    exact fun h => hne (filedAt_inj h).1

/-! What the files are after a scan has been written. -/

theorem files_run_of_ne {op : FileOp} (h : op.path ≠ p) (saved : Bool) (store : Store) :
    (op.run saved store).files.get p = store.files.get p := by
  cases op with
  | truncate path => exact FinMap.get_insert_of_ne _ _ (Ne.symm h)
  | fill path config => exact FinMap.get_insert_of_ne _ _ (Ne.symm h)
  | saveQr path config =>
    cases saved with
    | true => exact FinMap.get_insert_of_ne _ _ (Ne.symm h)
    | false => rfl

theorem unsaved_run_of_ne {op : FileOp} (h : op.path ≠ p) (saved : Bool) (store : Store) :
    p ∈ (op.run saved store).unsaved ↔ p ∈ store.unsaved := by
  cases op with
  | truncate path => exact Iff.rfl
  | fill path config => exact Iff.rfl
  | saveQr path config =>
    have hne : p ≠ path := Ne.symm h
    cases saved with
    | true => simp [FileOp.run, hne]
    | false => simp [FileOp.run, hne]

/-- Operations on other files leave a file as it is. -/
theorem runOps_of_notMem {ops : List (FileOp × Bool)} (h : ∀ op ∈ ops, op.1.path ≠ p)
    (store : Store) : (runOps store ops).files.get p = store.files.get p ∧
      (p ∈ (runOps store ops).unsaved ↔ p ∈ store.unsaved) := by
  induction ops generalizing store with
  | nil => exact ⟨rfl, Iff.rfl⟩
  | cons op ops ih =>
    obtain ⟨hhead, htail⟩ := List.forall_mem_cons.mp h
    obtain ⟨hfiles, hunsaved⟩ := ih htail (op.1.run op.2 store)
    exact ⟨hfiles.trans (files_run_of_ne hhead _ _),
      hunsaved.trans (unsaved_run_of_ne hhead _ _)⟩

/-- The file of a configuration holds it, and so does the code, unless it could not be saved. -/
structure Settled (store : Store) (x : Written) : Prop where
  conf : store.files.get x.configPath = some (.text x.config)
  qr : x.qrPath ∉ store.unsaved → store.files.get x.qrPath = some (.qr x.config)

theorem path_mem_paths {op : FileOp} {ws : List Written} (h : op ∈ ws.flatMap writtenOps) :
    op.path ∈ paths ws := by
  obtain ⟨x, hx, hop⟩ := List.mem_flatMap.mp h
  refine List.mem_flatMap.mpr ⟨x, hx, ?_⟩
  simp only [writtenOps, List.mem_cons, List.not_mem_nil, or_false] at hop
  rcases hop with rfl | rfl | rfl <;> simp [FileOp.path]

/-- The three operations on the files of one configuration. -/
theorem settled_writtenOps {ops : List (FileOp × Bool)} (hops : ops.map Prod.fst = writtenOps x)
    (hne : x.configPath ≠ x.qrPath) (store : Store) : Settled (runOps store ops) x := by
  obtain ⟨⟨-, opened⟩, rest, rfl, rfl, hrest⟩ := List.map_eq_cons_iff.mp hops
  obtain ⟨⟨-, filled⟩, codes, rfl, rfl, hcodes⟩ := List.map_eq_cons_iff.mp hrest
  obtain ⟨⟨-, saved⟩, none, rfl, rfl, hnone⟩ := List.map_eq_cons_iff.mp hcodes
  obtain rfl := List.map_eq_nil_iff.mp hnone
  have hfilled := FinMap.get_insert_self (store.files.insert x.configPath (.text [])) x.configPath
    (Content.text x.config)
  cases saved with
  | true =>
    exact ⟨(FinMap.get_insert_of_ne _ _ hne).trans hfilled, fun _ => FinMap.get_insert_self _ _ _⟩
  | false => exact ⟨hfilled, fun h => absurd List.mem_cons_self h⟩

theorem settled_runOps {ws : List Written} (hpaths : (paths ws).Nodup)
    {ops : List (FileOp × Bool)} (hops : ops.map Prod.fst = ws.flatMap writtenOps) (store : Store)
    (hx : x ∈ ws) : Settled (runOps store ops) x := by
  induction ws generalizing ops store with
  | nil => cases hx
  | cons y ws ih =>
    obtain ⟨first, rest, rfl, hfirst, hrest⟩ := List.map_eq_append_iff.mp hops
    have hsplit : runOps store (first ++ rest) = runOps (runOps store first) rest :=
      List.foldl_append
    obtain ⟨hy, htail, hdisjoint⟩ := List.nodup_append.mp hpaths
    rw [hsplit]
    rcases List.mem_cons.mp hx with rfl | hx
    · have huntouched : ∀ p ∈ [x.configPath, x.qrPath], ∀ op ∈ rest, op.1.path ≠ p := by
        intro p hp op hop
        have hmem : op.1 ∈ rest.map Prod.fst := List.mem_map_of_mem hop
        rw [hrest] at hmem
        exact Ne.symm (hdisjoint p hp _ (path_mem_paths hmem))
      have hsettled := settled_writtenOps hfirst (List.pairwise_pair.mp hy) store
      have hconf := runOps_of_notMem (huntouched x.configPath (by simp)) (runOps store first)
      have hqr := runOps_of_notMem (huntouched x.qrPath (by simp)) (runOps store first)
      exact ⟨hconf.1.trans hsettled.conf,
        fun h => hqr.1.trans (hsettled.qr fun hin => h (hqr.2.mpr hin))⟩
    · exact ih htail hrest _ hx

/-! The invariant of the main loop. -/

/-- A configuration that one of the scans so far has written to this path. -/
def FromScan (c : ServerConfig) (w : Manager) (p : Path) (config : List Char) : Prop :=
  ∃ scan ∈ w.scans, ∃ info ∈ scan.infos c, ∃ x ∈ info.written, x.configPath = p ∧ x.config = config

/-- The file is there, and it is empty or holds such a configuration. -/
def Accounted (c : ServerConfig) (w : Manager) (p : Path) : Prop :=
  ∃ config, w.store.files.get p = some (.text config) ∧ (config = [] ∨ FromScan c w p config)

/-- The last scan was for the addresses that are now known. -/
def UpToDate (w : Manager) (scan : Scan) : Prop :=
  w.scans.getLast? = some scan ∧ scan.lanIp = w.lanIp ∧ scan.wanIp = w.wanIp

/-- The peers are those of the last scan, and their files are written. -/
def Published (c : ServerConfig) (w : Manager) : Prop :=
  ∃ scan, UpToDate w scan ∧ w.peers = scan.infos c ∧
    ∀ info ∈ w.peers, ∀ x ∈ info.written, Settled w.store x

/-- The files of the last scan, of which these are still to be written. -/
def Writing (c : ServerConfig) (w : Manager) (todo : List FileOp) (infos : List PeerInfo) : Prop :=
  ∃ scan, UpToDate w scan ∧ infos = scan.infos c ∧
    ∃ before done, done.map Prod.fst ++ todo = fileOps infos ∧ w.store = runOps before done

def StageInv (c : ServerConfig) (w : Manager) : Prop :=
  match w.stage with
  | .waiting | .lanChecked false => Published c w
  | .lanChecked true | .changed => True
  | .writing todo infos => Writing c w todo infos

structure Inv (c : ServerConfig) (w : Manager) : Prop where
  stage : StageInv c w
  known : ∀ info ∈ w.peers, ∃ scan ∈ w.scans, info ∈ scan.infos c
  accounted : ∀ info ∈ w.peers, ∀ x ∈ info.written, Accounted c w x.configPath

theorem Accounted.mono (h : Accounted c w p) (hfiles : w'.store.files.get p = w.store.files.get p)
    (hscans : ∀ scan ∈ w.scans, scan ∈ w'.scans) : Accounted c w' p := by
  obtain ⟨config, hget, hconfig⟩ := h
  refine ⟨config, hfiles.trans hget, hconfig.imp_right ?_⟩
  rintro ⟨scan, hscan, hrest⟩
  exact ⟨scan, hscans scan hscan, hrest⟩

theorem mem_fileOps {op : FileOp} {infos : List PeerInfo} (h : op ∈ fileOps infos) :
    ∃ info ∈ infos, ∃ x ∈ info.written, op ∈ writtenOps x := by
  obtain ⟨x, hx, hop⟩ := List.mem_flatMap.mp h
  obtain ⟨info, hinfo, hx⟩ := List.mem_flatMap.mp hx
  exact ⟨info, hinfo, x, hx, hop⟩

/-- The path of a published configuration. -/
theorem configPath_eq (h : info ∈ scan.infos c) (hx : x ∈ info.written) :
    ∃ name side, x.configPath = filedAt c.outputDir name side .conf := by
  obtain ⟨side, hside⟩ := mem_written.mp hx
  exact ⟨info.name, side, pathOf_eq h hside .conf⟩

theorem qrPath_ne (h : info ∈ scan.infos c) (hx : x ∈ info.written) :
    x.qrPath ≠ filedAt c.outputDir name side .conf := by
  obtain ⟨side, hside⟩ := mem_written.mp hx
  intro heq
  have hqr : x.qrPath = filedAt c.outputDir info.name side .qr := pathOf_eq h hside .qr
  rw [hqr] at heq
  cases (filedAt_inj heq).2.2

/-- A step writes only what belongs to a scan. -/
theorem Accounted.step (hp : ∃ name side, p = filedAt c.outputDir name side .conf)
    (hstage : StageInv c w) (h : Accounted c w p) (hstep : Step c w e w') : Accounted c w' p := by
  cases hstep with
  | checkLan _ detected => exact h.mono rfl fun _ h => h
  | checkWan _ newWanIp => exact h.mono rfl fun _ h => h
  | scan _ dir => exact h.mono rfl fun _ h => List.mem_append_left _ h
  | publish _ => exact h.mono rfl fun _ h => h
  | @fileOp op todo infos hwriting saved =>
    rw [StageInv, hwriting] at hstage
    obtain ⟨scan, ⟨hlast, -, -⟩, rfl, before, done, hops, -⟩ := hstage
    have hmem : op ∈ fileOps (scan.infos c) := hops ▸ List.mem_append_right _ List.mem_cons_self
    obtain ⟨info, hinfo, x, hx, hop⟩ := mem_fileOps hmem
    by_cases hpath : op.path = p
    · simp only [writtenOps, List.mem_cons, List.not_mem_nil, or_false] at hop
      rcases hop with rfl | rfl | rfl
      · exact ⟨[], by rw [← hpath]; exact FinMap.get_insert_self _ _ _, Or.inl rfl⟩
      · exact ⟨x.config, by rw [← hpath]; exact FinMap.get_insert_self _ _ _,
          Or.inr ⟨scan, List.mem_of_getLast? hlast, info, hinfo, x, hx, hpath, rfl⟩⟩
      · obtain ⟨name, side, rfl⟩ := hp
        exact absurd hpath (qrPath_ne hinfo hx)
    · exact h.mono (files_run_of_ne hpath saved _) fun _ h => h

theorem scans_step (h : Step c w e w') : ∀ scan ∈ w.scans, scan ∈ w'.scans := by
  cases h with
  | scan _ dir => exact fun _ h => List.mem_append_left _ h
  | _ => exact fun _ h => h

/-- What has been written for the last scan is published with it. -/
theorem Writing.published {infos : List PeerInfo} (h : Writing c w [] infos) :
    Published c { w with peers := infos, stage := .waiting } := by
  obtain ⟨scan, hscan, rfl, before, done, hops, hstore⟩ := h
  refine ⟨scan, hscan, rfl, fun info hinfo x hx => ?_⟩
  show Settled w.store x
  rw [hstore]
  rw [List.append_nil] at hops
  exact settled_runOps (nodup_paths c scan) hops before (List.mem_flatMap.mpr ⟨info, hinfo, hx⟩)

theorem StageInv.step (h : StageInv c w) (hstep : Step c w e w') : StageInv c w' := by
  cases hstep with
  | checkLan hstage detected =>
    rw [StageInv, hstage] at h
    by_cases hsame : c.newLanIp detected = w.lanIp
    · obtain ⟨scan, ⟨hlast, hlan, hwan⟩, hpeers⟩ := h
      simp only [StageInv, hsame, ne_eq, not_true_eq_false, decide_false]
      exact ⟨scan, ⟨hlast, hlan, hwan⟩, hpeers⟩
    · simp only [StageInv, ne_eq, hsame, not_false_eq_true, decide_true]
  | @checkWan changed hstage newWanIp =>
    by_cases hchanged : (changed || newWanIp ≠ w.wanIp) = true
    · simp only [StageInv, if_pos hchanged]
    · obtain ⟨hfalse, hsame⟩ : changed = false ∧ newWanIp = w.wanIp := by
        simpa using hchanged
      rw [StageInv, hstage, hfalse] at h
      obtain ⟨scan, ⟨hlast, hlan, hwan⟩, hpeers⟩ := h
      simp only [StageInv, if_neg hchanged]
      exact ⟨scan, ⟨hlast, hlan, hwan.trans hsame.symm⟩, hpeers⟩
  | scan _ dir =>
    exact ⟨_, ⟨List.getLast?_concat, rfl, rfl⟩, rfl, w.store, [], rfl, rfl⟩
  | @fileOp op todo infos hstage saved =>
    rw [StageInv, hstage] at h
    obtain ⟨scan, hscan, hinfos, before, done, hops, hstore⟩ := h
    refine ⟨scan, hscan, hinfos, before, done ++ [(op, saved)], ?_, ?_⟩
    · rw [List.map_append, List.append_assoc]
      exact hops
    · show op.run saved w.store = _
      rw [hstore, runOps, runOps, List.foldl_append]
      rfl
  | publish hstage =>
    rw [StageInv, hstage] at h
    exact h.published

/-- The peers change only when a scan has been written. -/
theorem peers_step (hstage : StageInv c w) (hstep : Step c w e w') :
    w'.peers = w.peers ∨ ∃ scan ∈ w'.scans, w'.peers = scan.infos c ∧
      ∀ info ∈ w'.peers, ∀ x ∈ info.written, Settled w'.store x := by
  cases hstep with
  | publish hwriting =>
    rw [StageInv, hwriting] at hstage
    obtain ⟨scan, ⟨hlast, -, -⟩, hpeers, hsettled⟩ := hstage.published
    exact Or.inr ⟨scan, List.mem_of_getLast? hlast, hpeers, hsettled⟩
  | _ => exact Or.inl rfl

theorem Inv.step (h : Inv c w) (hstep : Step c w e w') : Inv c w' := by
  refine ⟨h.stage.step hstep, fun info hinfo => ?_, fun info hinfo x hx => ?_⟩
  · rcases peers_step h.stage hstep with hpeers | ⟨scan, hscan, hpeers, -⟩
    · obtain ⟨scan, hscan, hinfo⟩ := h.known info (hpeers ▸ hinfo)
      exact ⟨scan, scans_step hstep scan hscan, hinfo⟩
    · exact ⟨scan, hscan, hpeers ▸ hinfo⟩
  · rcases peers_step h.stage hstep with hpeers | ⟨scan, hscan, hpeers, hsettled⟩
    · rw [hpeers] at hinfo
      obtain ⟨scan, hscan, hmem⟩ := h.known info hinfo
      exact (h.accounted info hinfo x hx).step (configPath_eq hmem hx) h.stage hstep
    · exact ⟨x.config, (hsettled info hinfo x hx).conf,
        Or.inr ⟨scan, hscan, info, hpeers ▸ hinfo, x, hx, rfl, rfl⟩⟩

theorem inv_run {lanIp : IpText} {wanIp : Option IpText} {files : FinMap Path Content}
    (h : Run (Step c) (init lanIp wanIp files) es w) : Inv c w :=
  h.invariant (fun _ _ _ hs hstep => hs.step hstep)
    ⟨trivial, by simp [init], by simp [init]⟩

/-- A path that was once published can be read from then on. -/
theorem accounted_run (h : Inv c w) (hp : ∃ name side, p = filedAt c.outputDir name side .conf)
    (hacc : Accounted c w p) (hrun : Run (Step c) w es w') : Accounted c w' p := by
  induction hrun with
  | nil => exact hacc
  | cons head _ ih => exact ih (h.step head) (hacc.step hp h.stage head)

/-! What the server answers. -/

theorem findPeer_eq_some {peers : List PeerInfo} (h : findPeer peers name = some info) :
    info ∈ peers ∧ info.name = name := by
  unfold findPeer at h
  split_ifs at h
  have hname := List.find?_some h
  exact ⟨List.mem_of_find?_eq_some h, of_decide_eq_true hname⟩

theorem safeSendFile_cases (c : ServerConfig) (r : Resolver) (p : Path) (content : Content) :
    safeSendFile c r p content = .file (r.resolve p) content ∧
        r.resolve c.outputDir <+: r.resolve p ∨
      safeSendFile c r p content = .forbidden ∧
        ¬(r.resolve c.outputDir ≠ [] ∧ r.resolve c.outputDir <+: r.resolve p) := by
  have hwithin := Paths.within_iff (r.normal c.outputDir) (r.normal p)
  unfold safeSendFile
  split_ifs with h
  · refine Or.inl ⟨rfl, ?_⟩
    rcases hwithin.mp h with heq | ⟨-, hprefix⟩
    · rw [heq]
    · exact hprefix
  · exact Or.inr ⟨rfl, fun hprefix => h (hwithin.mpr (Or.inr hprefix))⟩

/-- A reply is a refusal to look, or what `_safe_send_file` makes of a path that was found. -/
theorem reply_cases (c : ServerConfig) (r : Resolver) (w : Manager) (kind : Kind) (side : Side)
    (name : List Char) : reply c r w kind side name = .notFound ∨
      ∃ path content, filePath w.peers kind side name = some path ∧
        reply c r w kind side name = safeSendFile c r path content := by
  unfold reply
  cases filePath w.peers kind side name with
  | none => exact Or.inl rfl
  | some path =>
    cases hget : w.store.files.get path with
    | none => exact Or.inl (by simp [hget])
    | some content => exact Or.inr ⟨path, content, rfl, by simp [hget]⟩

/-- While the loop waits, the files are those of the last scan. -/
theorem reply_eq_answer (hpublished : ∀ info ∈ scan.infos c, ∀ x ∈ info.written, Settled w.store x)
    (hpeers : w.peers = scan.infos c)
    (hsaved : kind = .qr → ∀ p ∈ w.store.unsaved, p ≠ filedAt c.outputDir name side .qr) :
    reply c r w kind side name = answer c r scan kind side name := by
  unfold reply answer filePath
  rw [hpeers]
  cases hfind : findPeer (scan.infos c) name with
  | none => rfl
  | some info =>
    obtain ⟨hinfo, rfl⟩ := findPeer_eq_some hfind
    cases hside : sideOf info side with
    | none => simp [hside]
    | some x =>
      have hsettled := hpublished info hinfo x (mem_written.mpr ⟨side, hside⟩)
      have hget : w.store.files.get (pathOf x kind) = some (kind.content x.config) := by
        cases kind with
        | conf => exact hsettled.conf
        | qr => exact hsettled.qr fun hin => hsaved rfl _ hin (pathOf_eq hinfo hside .qr)
      simp only [Option.bind_some, hside, Option.map_some, hget]

/-- What clients can download at any time. Nothing outside the output directory is ever sent. While
the loop waits, the replies are those of its last scan, for the addresses that are known now,
whatever files of earlier addresses are still there; codes that could not be saved apart. A path
that was looked up can be read later, and holds nothing yet or a configuration for the same peer
and the same side. And without links in the output directory no file is refused. -/
theorem configs_served (c : ServerConfig) (r : Resolver) {lanIp : IpText} {wanIp : Option IpText}
    {files : FinMap Path Content} (h : Run (Step c) (init lanIp wanIp files) es w) :
    (∀ kind side name path content, reply c r w kind side name = .file path content →
      r.resolve c.outputDir <+: path) ∧
    (w.stage = .waiting → ∃ scan, UpToDate w scan ∧ ∀ kind side name,
      (kind = .qr → ∀ p ∈ w.store.unsaved, p ≠ filedAt c.outputDir name side .qr) →
        reply c r w kind side name = answer c r scan kind side name) ∧
    (∀ side name path, filePath w.peers .conf side name = some path →
      ∀ later w', Run (Step c) w later w' → ∃ config,
        w'.store.files.get path = some (.text config) ∧ (config = [] ∨
          ∃ scan ∈ w'.scans, ∃ info ∈ scan.infos c, info.name = name ∧
            ∃ x, sideOf info side = some x ∧ x.config = config)) ∧
    (r.resolve c.outputDir ≠ [] →
      (∀ rest, r.resolve (c.outputDir ++ rest) = r.resolve c.outputDir ++ rest) →
        ∀ kind side name, reply c r w kind side name ≠ .forbidden) := by
  have hinv := inv_run h
  have hlooked : ∀ kind side name path, filePath w.peers kind side name = some path →
      ∃ info ∈ w.peers, ∃ scan ∈ w.scans, info ∈ scan.infos c ∧ info.name = name ∧
        ∃ x, sideOf info side = some x ∧ pathOf x kind = path := by
    intro kind side name path hpath
    obtain ⟨info, hfind, hx⟩ := Option.bind_eq_some_iff.mp hpath
    obtain ⟨x, hside, hx⟩ := Option.map_eq_some_iff.mp hx
    obtain ⟨hinfo, hname⟩ := findPeer_eq_some hfind
    obtain ⟨scan, hscan, hmem⟩ := hinv.known info hinfo
    exact ⟨info, hinfo, scan, hscan, hmem, hname, x, hside, hx⟩
  refine ⟨fun kind side name path content hfile => ?_, fun hwait => ?_,
    fun side name path hpath later w' hrun => ?_, fun hroot hplain kind side name => ?_⟩
  · rcases reply_cases c r w kind side name with hnone | ⟨p, content', -, hreply⟩
    · rw [hnone] at hfile
      cases hfile
    · rcases safeSendFile_cases c r p content' with ⟨hsend, hprefix⟩ | ⟨hsend, -⟩
      · rw [hreply, hsend] at hfile
        obtain ⟨rfl, -⟩ := Reply.file.inj hfile
        exact hprefix
      · rw [hreply, hsend] at hfile
        cases hfile
  · have hstage := hinv.stage
    rw [StageInv, hwait] at hstage
    obtain ⟨scan, hscan, hpeers, hsettled⟩ := hstage
    exact ⟨scan, hscan, fun kind side name => reply_eq_answer (hpeers ▸ hsettled) hpeers⟩
  · obtain ⟨info, hinfo, scan, -, hmem, rfl, x, hside, rfl⟩ := hlooked .conf side name path hpath
    have hpath : x.configPath = filedAt c.outputDir info.name side .conf :=
      pathOf_eq hmem hside .conf
    obtain ⟨config, hget, hconfig⟩ := accounted_run hinv ⟨_, _, hpath⟩
      (hinv.accounted info hinfo x (mem_written.mpr ⟨side, hside⟩)) hrun
    refine ⟨config, hget, hconfig.imp_right ?_⟩
    rintro ⟨scan', hscan', info', hinfo', x', hx', heq, rfl⟩
    obtain ⟨side', hside'⟩ := mem_written.mp hx'
    have hpath' : x'.configPath = filedAt c.outputDir info'.name side' .conf :=
      pathOf_eq hinfo' hside' .conf
    obtain ⟨hname, rfl, -⟩ := filedAt_inj (hpath'.symm.trans (heq.trans hpath))
    exact ⟨scan', hscan', info', hinfo', hname, x', hside', rfl⟩
  · rcases reply_cases c r w kind side name with hnone | ⟨p, content, hpath, hreply⟩
    · rw [hnone]
      exact Reply.noConfusion
    · obtain ⟨info, -, scan, -, hmem, -, x, hside, rfl⟩ := hlooked kind side name p hpath
      rcases safeSendFile_cases c r (pathOf x kind) content with ⟨hsend, -⟩ | ⟨-, hout⟩
      · rw [hreply, hsend]
        exact Reply.noConfusion
      · refine absurd ⟨hroot, ?_⟩ hout
        rw [pathOf_eq hmem hside kind, filedAt, hplain]
        exact List.prefix_append _ _

/-! One peer behind a router whose address is not known. -/

/-- Without links a path resolves to itself. -/
def plainResolver : Resolver where
  resolve p := p.filter Paths.IsName
  normal _ _ hs := of_decide_eq_true (List.mem_filter.mp hs).2

def onePeerServer : ServerConfig := ⟨["clients".toList], 51820, none⟩

def onePeerScan : Scan := ⟨onePeer [], ⟨"10.0.0.5".toList, by decide⟩, none⟩

/-- Once its configuration is written, the server has nothing for the other side. -/
theorem configs_served_one : ∃ w,
    Run (Step onePeerServer) (init onePeerScan.lanIp none .empty)
      [.scan onePeerScan.dir, .fileOp true, .fileOp true, .fileOp true, .publish] w ∧
    reply onePeerServer plainResolver w .conf .wan "peer1".toList = .notFound ∧
    ∃ path content, reply onePeerServer plainResolver w .conf .lan "peer1".toList =
      .file path content := by
  have hlength : (onePeerScan.infos onePeerServer).length = 1 := by decide +kernel
  obtain ⟨info, hinfos⟩ := List.length_eq_one_iff.mp hlength
  have hinfo : info ∈ onePeerScan.infos onePeerServer := hinfos ▸ List.mem_singleton_self info
  obtain ⟨peer, -, -, -, hnone⟩ := mem_infos hinfo
  have hwan : info.wan = none := hnone
  have hops : fileOps (onePeerScan.infos onePeerServer) = writtenOps info.lan := by
    rw [hinfos]
    simp [fileOps, PeerInfo.written, hwan]
  obtain ⟨w, hrun, hwait, hscans⟩ : ∃ w, Run (Step onePeerServer)
      (init onePeerScan.lanIp none .empty)
      [.scan onePeerScan.dir, .fileOp true, .fileOp true, .fileOp true, .publish] w ∧
      w.stage = .waiting ∧ w.scans = [onePeerScan] := by
    exact ⟨_, .cons (.scan rfl onePeerScan.dir)
      (.cons (.fileOp (congrArg₂ Stage.writing hops rfl) true)
        (.cons (.fileOp rfl true) (.cons (.fileOp rfl true) (.single (.publish rfl))))), rfl, rfl⟩
  obtain ⟨-, hserved, -⟩ := configs_served onePeerServer plainResolver hrun
  obtain ⟨scan, ⟨hlast, -, -⟩, hreply⟩ := hserved hwait
  rw [hscans, List.getLast?_singleton] at hlast
  obtain rfl := Option.some.inj hlast
  have hnames : ∀ info ∈ onePeerScan.infos onePeerServer, info.name = "peer1".toList := by
    decide +kernel
  have hname : info.name = "peer1".toList := hnames info hinfo
  have hfind : findPeer (onePeerScan.infos onePeerServer) "peer1".toList = some info := by
    rw [findPeer, if_pos (by decide), hinfos, List.find?_cons_of_pos (by simpa using hname)]
  refine ⟨w, hrun, ?_, ?_⟩
  · rw [hreply .conf .wan _ Kind.noConfusion, answer, hfind, Option.bind_some, sideOf, hwan]
  · rw [hreply .conf .lan _ Kind.noConfusion, answer, hfind, Option.bind_some, sideOf]
    refine ⟨_, _, if_pos ?_⟩
    have hlan : sideOf info .lan = some info.lan := rfl
    rw [pathOf_eq hinfo hlan .conf, hname]
    decide

end VpnGateway.ConfigServer
