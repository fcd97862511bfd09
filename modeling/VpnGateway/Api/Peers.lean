import VpnGateway.Core.Utf8
import VpnGateway.Services.PeerScans

/-! The peers of the WireGuard directory as the web API lists and serves them, beside the scan of
the net manager, which reads the same files. -/
namespace VpnGateway.PeerRoutes

open PyText PeerConfigs

/-- The files below the working directory. A name in a listing is missing where the next entry
cannot be read. -/
structure Files where
  read : Path → Option (List UInt8)
  pathExists : Path → Bool
  isDir : Path → Bool
  readDir : Path → Option (List (Option (List Char)))

namespace Files

def readToString (files : Files) (path : Path) : Option (List Char) :=
  (files.read path).bind Utf8.decode

end Files

def peersDir : Path := ["data".toList, "wg".toList]

def addressStart : List Char := "Address = ".toList

/-- `str::trim_start_matches`: the start is taken off as long as it is there. -/
def trimStartMatches (start line : List Char) : List Char :=
  if start ≠ [] ∧ start <+: line then trimStartMatches start (line.drop start.length) else line
termination_by line.length
decreasing_by
  rename_i h
  rw [List.length_drop]
  have hpos := List.length_pos_of_ne_nil h.1
  have hle := h.2.length_le
  omega

/-- The loop over the lines of a configuration. -/
def addressOf (content : List Char) : List Char :=
  match (Text.lines content).find? fun line => addressStart.isPrefixOf line with
  | some line => trimStartMatches addressStart line
  | none => []

def readPeerAddress (files : Files) (peerDir : Path) : List Char :=
  match peerDir.getLast? with
  | none => []
  | some name =>
    match files.readToString (peerDir ++ [name ++ ".conf".toList]) with
    | some content => addressOf content
    | none => []

def readPeerFile (files : Files) (peerDir : Path) (filename : List Char) : List Char :=
  Text.trim ((files.readToString (peerDir ++ [filename])).getD [])

structure WgPeerInfo where
  name : List Char
  address : List Char
  publicKey : List Char
  hasLanConfig : Bool
  hasWanConfig : Bool
  deriving DecidableEq

/-- What is listed for an entry of the directory. -/
def peerInfo (files : Files) (name : List Char) : Option WgPeerInfo :=
  let peerDir := peersDir ++ [name]
  if "peer".toList.isPrefixOf name && files.isDir peerDir then
    some
      { name := name
        address := readPeerAddress files peerDir
        publicKey := readPeerFile files peerDir ("publickey-".toList ++ name)
        hasLanConfig := files.pathExists (peerDir ++ [name ++ "-lan.conf".toList])
        hasWanConfig := files.pathExists (peerDir ++ [name ++ "-wan.conf".toList]) }
  else none

def listWgPeers (files : Files) : List WgPeerInfo :=
  if files.pathExists peersDir then
    match files.readDir peersDir with
    | some entries => (entries.takeWhile Option.isSome).reduceOption.filterMap (peerInfo files)
    | none => []
  else []

def isSafePeerName (name : List Char) : Bool :=
  !name.isEmpty && (name.map Char.utf8Size).sum ≤ 64 &&
    name.all fun c => c.isAlphanum || c = '-' || c = '_'

inductive Body where
  | text (content : List Char)
  | bytes (content : List UInt8)

/-- A response, with the headers that the handler sets. -/
structure Response where
  status : ℕ
  headers : List (List Char × List Char)
  body : Body

/-- The text of the path of a file that belongs to a peer. -/
def peerPath (name suffix : List Char) : List Char :=
  "data".toList ++ '/' :: ("wg".toList ++ '/' :: (name ++ '/' :: (name ++ suffix)))

/-- A route that serves a file of a peer; the path goes to the system in its components. -/
def servePeerFile {α : Type} (name suffix : List Char) (read : Path → Option α)
    (found : α → Response) (missing : List Char) : Response :=
  if isSafePeerName name then
    match read ((peerPath name suffix).splitOn '/') with
    | some content => found content
    | none => ⟨404, [], .text missing⟩
  else ⟨400, [], .text "Invalid peer name".toList⟩

def attachment (name : List Char) : List Char :=
  "attachment; filename=\"".toList ++ name ++ ".conf\"".toList

def configResponse (name content : List Char) : Response where
  status := 200
  headers := [("content-type".toList, "text/plain; charset=utf-8".toList),
    ("content-disposition".toList, attachment name)]
  body := .text content

def peerConfig (files : Files) (name : List Char) : Response :=
  servePeerFile name ".conf".toList files.readToString (configResponse name)
    "Config not found".toList

def peerQr (files : Files) (name : List Char) : Response :=
  servePeerFile name "-qr.png".toList files.read
    (fun bytes => ⟨200, [("content-type".toList, "image/png".toList)], .bytes bytes⟩)
    "QR code not found".toList

/-! The address on the first line of its key, as both read it. -/

theorem trimStartMatches_eq_self {start line : List Char} (h : ¬ start <+: line) :
    trimStartMatches start line = line := by
  rw [trimStartMatches, if_neg fun hline => h hline.2]

theorem trimStartMatches_append {start : List Char} (hstart : start ≠ []) (line : List Char) :
    trimStartMatches start (start ++ line) = trimStartMatches start line := by
  rw [trimStartMatches, if_pos ⟨hstart, List.prefix_append start line⟩, List.drop_left]

theorem trimStartMatches_suffix (start line : List Char) :
    trimStartMatches start line <:+ line := by
  induction line using trimStartMatches.induct start with
  | case1 line h ih =>
    rw [trimStartMatches, if_pos h]
    exact ih.trans (List.drop_suffix _ _)
  | case2 line h =>
    rw [trimStartMatches, if_neg h]

theorem filter_strip (text : List Char) :
    (strip text).filter (fun c => !isSpace c) = text.filter fun c => !isSpace c := by
  rw [strip, List.rdropWhile, List.filter_reverse, Text.filter_dropWhile, ← List.filter_reverse,
    List.reverse_reverse, Text.filter_dropWhile]

/-- Blanks around a value and the start of a line before it are not the same thing. -/
theorem trimStartMatches_eq_strip_iff {start value : List Char}
    (hstart : ∃ c ∈ start, isSpace c = false) :
    trimStartMatches start value = strip value ↔ strip value = value ∧ ¬ start <+: value := by
  constructor
  · intro h
    have hstarts : ¬ start <+: value := by
      rintro ⟨rest, rfl⟩
      obtain ⟨c, hc, hword⟩ := hstart
      rw [trimStartMatches_append (List.ne_nil_of_mem hc)] at h
      have hfilter := congrArg List.length (filter_strip (start ++ rest))
      have hrest := ((trimStartMatches_suffix start rest).sublist.filter
        fun c => !isSpace c).length_le
      have hpos : 0 < (start.filter fun c => !isSpace c).length :=
        List.length_pos_of_mem (List.mem_filter.mpr ⟨hc, by simp [hword]⟩)
      rw [← h, List.filter_append, List.length_append] at hfilter
      omega
    rw [trimStartMatches_eq_self hstarts] at h
    exact ⟨h.symm, hstarts⟩
  · rintro ⟨hstrip, hstarts⟩
    rw [trimStartMatches_eq_self hstarts, hstrip]

/-- Every carriage return stands before a line feed. -/
def OnlyCrLf (text : List Char) : Prop :=
  ∀ before after, text = before ++ '\r' :: after → after.head? = some '\n'

theorem OnlyCrLf.tail {c : Char} {text : List Char} (h : OnlyCrLf (c :: text)) : OnlyCrLf text :=
  fun before after htext => h (c :: before) after (by rw [htext, List.cons_append])

theorem linesFrom_readText {text line : List Char} (htext : OnlyCrLf text) (hline : '\r' ∉ line) :
    Text.linesFrom line (readText text) = Text.linesFrom line text := by
  induction text using readText.induct generalizing line with
  | case1 => rfl
  | case2 rest ih =>
    have hcr : Text.stripCr (line ++ ['\r']) = Text.stripCr line := by
      rw [Text.stripCr, Text.stripCr, List.getLast?_concat, if_pos rfl, List.dropLast_concat,
        if_neg fun hlast => hline (List.mem_of_getLast? hlast)]
    rw [readText, Text.linesFrom, if_pos rfl, Text.linesFrom, if_neg (by decide), Text.linesFrom,
      if_pos rfl, hcr, ih htext.tail.tail List.not_mem_nil]
  | case3 rest hne ih =>
    obtain ⟨more, rfl⟩ := List.head?_eq_some_iff.mp (htext [] rest rfl)
    exact absurd rfl (hne more)
  | case4 c rest hne hcr ih =>
    rw [readText, Text.linesFrom, Text.linesFrom]
    · split_ifs
      · rw [ih htext.tail List.not_mem_nil]
      · refine ih htext.tail fun hmem => ?_
        rcases List.mem_append.mp hmem with hmem | hmem
        · exact hline hmem
        · exact hcr (List.mem_singleton.mp hmem).symm
    · exact hne
    · exact hcr

theorem stripCr_of_notMem {line : List Char} (h : '\r' ∉ line) : Text.stripCr line = line := by
  rw [Text.stripCr, if_neg fun hlast => h (List.mem_of_getLast? hlast)]

theorem find_lines_render {P : List Char → Bool} (hnil : P [] = false) (lines : List ConfLine) :
    (Text.lines (render lines)).find? P = (lines.map ConfLine.render).find? P := by
  induction lines with
  | nil => rfl
  | cons line rest ih =>
    obtain ⟨hlf, hcr⟩ := line.notMem_render
    rw [render_cons, List.map_cons]
    cases rest with
    | nil =>
      rw [below, List.append_nil, Text.lines_of_notMem hlf]
      split_ifs with hline
      · simp [hline, hnil]
      · rfl
    | cons next rest =>
      rw [below, Text.lines_append hlf, stripCr_of_notMem hcr, List.find?_cons, List.find?_cons, ih]

def addressKey : ConfKey := ⟨"Address".toList, rfl⟩

theorem render_settingWith (value : LineText) :
    (settingWith addressKey value).render = addressStart ++ value.1 := by
  have hstart : addressStart = "Address".toList ++ [' ', '=', ' '] := by decide
  rw [hstart, List.append_assoc]
  rfl

/-- Only a line of the key begins the way both writers begin it. -/
theorem valueOf_of_prefix {line : ConfLine} (h : addressStart <+: line.render) :
    line.valueOf addressKey.1 ≠ none := by
  obtain ⟨more, hmore⟩ := h
  have hblank : ¬ line.isBlank := fun hblank => by
    have hmem : 'A' ∈ line.render := hmore ▸ List.mem_append_left more (by decide)
    have hspace := ConfLine.isSpace_of_isBlank hblank 'A' hmem
    exact absurd hspace (by decide)
  have hword : '\n' ∉ more ∧ '\r' ∉ more := by
    obtain ⟨hlf, hcr⟩ := line.notMem_render
    rw [← hmore, List.mem_append, not_or] at hlf hcr
    exact ⟨hlf.2, hcr.2⟩
  obtain ⟨value, rfl⟩ : ∃ value : LineText, value.1 = more := ⟨⟨more, hword⟩, rfl⟩
  have hnot : ¬ (settingWith addressKey value).isBlank := Bool.false_ne_true
  have hline := matchAt_render addressKey.2 hblank []
  have hsame := matchAt_render addressKey.2 hnot []
  rw [render_settingWith, hmore, hline] at hsame
  intro hnone
  rw [hnone] at hsame
  have hlf := captured_eq_none hsame.symm ' ' (List.mem_append_left _ List.mem_cons_self)
  exact absurd hlf (by decide)

theorem lines_of_readText {text : List Char} {lines : List ConfLine}
    (htext : readText text = render lines) (hcr : OnlyCrLf text) :
    Text.lines text = Text.lines (render lines) := by
  rw [← htext]
  exact (linesFrom_readText hcr List.not_mem_nil).symm

theorem find_address (lines : List ConfLine)
    (h : ∀ line ∈ lines, line.valueOf addressKey.1 = none) :
    (lines.map ConfLine.render).find? (fun line => addressStart.isPrefixOf line) = none := by
  rw [List.find?_eq_none]
  intro text hmem
  obtain ⟨line, hline, rfl⟩ := List.mem_map.mp hmem
  rw [List.isPrefixOf_iff_prefix]
  exact fun hstarts => valueOf_of_prefix hstarts (h line hline)

theorem addressOf_eq {text : List Char} {before rest : List ConfLine} {value : LineText}
    (htext : readText text = render (before ++ settingWith addressKey value :: rest))
    (hcr : OnlyCrLf text) (hbefore : ∀ line ∈ before, line.valueOf addressKey.1 = none) :
    addressOf text = trimStartMatches addressStart value.1 := by
  have hfind : (Text.lines text).find? (fun line => addressStart.isPrefixOf line) =
      some (addressStart ++ value.1) := by
    rw [lines_of_readText htext hcr, find_lines_render (by decide), List.map_append,
      List.find?_append, find_address before hbefore, Option.none_or, List.map_cons,
      render_settingWith, List.find?_cons_of_pos]
    exact List.isPrefixOf_iff_prefix.mpr (List.prefix_append _ _)
  rw [addressOf, hfind]
  exact trimStartMatches_append (by decide) value.1

theorem firstSetting_append {key : List Char} {before lines : List ConfLine}
    (h : ∀ line ∈ before, line.valueOf key = none) :
    firstSetting key (before ++ lines) = firstSetting key lines := by
  induction before with
  | nil => rfl
  | cons line before ih =>
    obtain ⟨hline, hbefore⟩ := List.forall_mem_cons.mp h
    rw [List.cons_append, firstSetting, hline, ih hbefore]

theorem strip_blank (value : List Char) : strip (' ' :: value) = strip value := by
  rw [strip, List.dropWhile_cons_of_pos rfl, strip]

/-- Where the address stands as both writers write it, both readers get it exactly if it has no
blanks around it and does not begin like another such line; an empty one must end the text. -/
theorem address_agrees_iff {text : List Char} {before rest : List ConfLine} {value : LineText}
    (htext : readText text = render (before ++ settingWith addressKey value :: rest))
    (hcr : OnlyCrLf text) (hbefore : ∀ line ∈ before, line.valueOf addressKey.1 = none) :
    addressOf text = address (some text) ↔
      (strip value.1 = value.1 ∧ ¬ addressStart <+: value.1) ∧
        (value.1 = [] → ∀ line ∈ rest, line.isBlank) := by
  have hfirst : firstSetting addressKey.1 (before ++ settingWith addressKey value :: rest) =
      some (' ' :: value.1, rest) := by
    rw [firstSetting_append hbefore]
    rfl
  rw [addressOf_eq htext hcr hbefore]
  by_cases hvalue : strip value.1 = []
  · have hstarts : ¬ addressStart <+: value.1 := fun h => by
      have hspace := strip_eq_nil_iff.mp hvalue 'A' (h.subset (by decide))
      exact absurd hspace (by decide)
    rw [trimStartMatches_eq_self hstarts, and_iff_left hstarts, hvalue, eq_comm (a := [])]
    by_cases hrest : ∀ line ∈ rest, line.isBlank
    · have hread : address (some text) = [] :=
        (configured_of_end addressKey.2 [] htext hfirst ((strip_blank value.1).trans hvalue)
          hrest).mpr (.inl rfl)
      rw [hread, and_iff_left fun _ => hrest]
    · refine iff_of_false ?_ fun h => hrest (h.2 h.1)
      simp only [not_forall, exists_prop] at hrest
      obtain ⟨line, -, hblank, hread⟩ := configured_of_next addressKey.2 [] htext hfirst
        ((strip_blank value.1).trans hvalue) hrest
      obtain ⟨c, hc, hmem⟩ := ConfLine.exists_mark hblank
      have hspace := isSpace_of_mem_marks hc
      intro h
      have hvalue' : c ∈ value.1 := by
        rw [h, show address (some text) = strip line.render from hread]
        exact mem_strip hspace hmem
      rw [strip_eq_nil_iff.mp hvalue c hvalue'] at hspace
      cases hspace
  · have hread : address (some text) = strip value.1 := by
      rw [← strip_blank]
      exact configured_of_value addressKey.2 [] htext hfirst ((strip_blank value.1).symm ▸ hvalue)
    rw [hread, trimStartMatches_eq_strip_iff ⟨'A', by decide, by decide⟩]
    refine (and_iff_left fun hnil => ?_).symm
    rw [hnil] at hvalue
    exact absurd rfl hvalue

/-! The listing. -/

/-- The gateway and the net manager see the same WireGuard directory, the gateway in the order of
the system. -/
structure Files.Shows (files : Files) (dir : WgConfigDir) : Prop where
  present : files.pathExists peersDir = dir.isDir
  listed : ∃ names : List (List Char), files.readDir peersDir = some (names.map some) ∧
    names.Perm (dir.entries.map Entry.name)
  isDir : ∀ e ∈ dir.entries, files.isDir (peersDir ++ [e.name]) = e.isDir
  conf : ∀ e ∈ dir.entries, e.isDir →
    files.readToString (peersDir ++ [e.name, e.name ++ ".conf".toList]) = e.conf
  publicKey : ∀ e ∈ dir.entries, e.isDir →
    files.readToString (peersDir ++ [e.name, "publickey-".toList ++ e.name]) = e.publicKey

/-- A key as the tools print it, with a line feed at its end. -/
def IsKeyLine (text : List Char) : Prop :=
  ∃ key, text = key ++ ['\n'] ∧ ∀ c ∈ key, isSpace c = false

theorem dropWhile_line {p : Char → Bool} {key : List Char} (hkey : ∀ c ∈ key, p c = false)
    {c : Char} (hc : p c = true) : ((key ++ [c]).dropWhile p).rdropWhile p = key := by
  have hend : key.rdropWhile p = key :=
    List.rdropWhile_eq_self_iff.mpr fun hne => by simp [hkey _ (List.getLast_mem hne)]
  cases key with
  | nil => simp [hc]
  | cons first key =>
    have hfirst : ¬ p first = true := by simp [hkey first List.mem_cons_self]
    rw [List.cons_append, List.dropWhile_cons_of_neg hfirst, ← List.cons_append,
      List.rdropWhile_concat_pos _ _ _ hc, hend]

theorem IsKeyLine.trim_eq {text : List Char} (h : IsKeyLine text) :
    Text.trim text = strip (readText text) := by
  obtain ⟨key, rfl, hkey⟩ := h
  have hwhite : ∀ c ∈ key, Text.isWhitespace c = false := fun c hc =>
    (Bool.or_eq_false_iff.mp (hkey c hc)).1
  have hcr : '\r' ∉ key ++ ['\n'] := by
    rw [List.mem_append, not_or]
    exact ⟨fun hmem => absurd (hkey _ hmem) (by decide), by decide⟩
  rw [readText_of_notMem hcr, Text.trim, dropWhile_line hwhite rfl, strip, dropWhile_line hkey rfl]

theorem peerInfo_eq {files : Files} {name : List Char} {info : WgPeerInfo}
    (h : peerInfo files name = some info) :
    info.name = name ∧ info.address = readPeerAddress files (peersDir ++ [name]) ∧
      info.publicKey = readPeerFile files (peersDir ++ [name]) ("publickey-".toList ++ name) := by
  unfold peerInfo at h
  dsimp only at h
  split_ifs at h
  obtain rfl := Option.some.inj h
  exact ⟨rfl, rfl, rfl⟩

variable {files : Files} {dir : WgConfigDir}

theorem Files.Shows.listWgPeers_eq (h : files.Shows dir) (hdir : dir.isDir) :
    ∃ names : List (List Char), listWgPeers files = names.filterMap (peerInfo files) ∧
      names.Perm (dir.entries.map Entry.name) := by
  obtain ⟨names, hread, hperm⟩ := h.listed
  refine ⟨names, ?_, hperm⟩
  rw [listWgPeers, if_pos (h.present.trans hdir), hread]
  dsimp only
  rw [List.takeWhile_eq_self_iff.mpr, List.reduceOption, List.filterMap_map]
  · simp
  · simp

theorem map_name_filterMap (names : List (List Char)) :
    ((names.filterMap (peerInfo files)).map WgPeerInfo.name).Sublist names := by
  induction names with
  | nil => exact .refl []
  | cons name names ih =>
    rw [List.filterMap_cons]
    split
    next => exact ih.cons name
    next info hinfo =>
      rw [List.map_cons, (peerInfo_eq hinfo).1]
      exact ih.cons_cons name

theorem Files.Shows.nodup (h : files.Shows dir) :
    ((listWgPeers files).map WgPeerInfo.name).Nodup := by
  by_cases hdir : dir.isDir
  · obtain ⟨names, hlist, hperm⟩ := h.listWgPeers_eq hdir
    rw [hlist]
    exact (hperm.nodup_iff.mpr dir.nodup).sublist (map_name_filterMap names)
  · rw [listWgPeers, if_neg (by rwa [h.present])]
    exact List.nodup_nil

theorem scanPeer_isDir {configPath : Path} {entry : Entry} {peer : Peer}
    (h : scanPeer configPath entry = some peer) :
    entry.isDir ∧ isPeerDir entry.name ∧
      peer.publicKey = (entry.publicKey.map fun text => strip (readText text)).getD [] := by
  unfold scanPeer at h
  split at h
  next hentry =>
    obtain ⟨file, -, rfl⟩ := Option.map_eq_some_iff.mp h
    obtain ⟨hdir, hname⟩ := Bool.and_eq_true_iff.mp hentry
    exact ⟨hdir, hname, rfl⟩
  next => cases h

/-- The name of a scanned directory; its digits are those of any script. -/
theorem chars_of_isPeerDir {name : List Char} (h : isPeerDir name) : "peer".toList <+: name ∧
    ∀ c ∈ name, c ∈ "peer".toList ∨ isDecimal c ∨ c = '\n' := by
  unfold isPeerDir at h
  split at h
  next => cases h
  next number hnumber =>
    obtain ⟨start, rfl, hstart⟩ := List.dropPrefix?_eq_some_iff.mp hnumber
    obtain rfl := beq_iff_eq.mp hstart
    refine ⟨List.prefix_append _ _, fun c hc => ?_⟩
    refine (List.mem_append.mp hc).imp_right fun hc => ?_
    have hdigits := List.all_eq_true.mp (Bool.and_eq_true_iff.mp h).2
    split_ifs at hdigits with hlast
    · obtain ⟨digits, rfl⟩ := List.getLast?_eq_some_iff.mp hlast
      rw [List.dropLast_concat] at hdigits
      rcases List.mem_append.mp hc with hc | hc
      · exact .inl (hdigits c hc)
      · exact .inr (List.mem_singleton.mp hc)
    · exact .inl (hdigits c hc)

theorem Files.Shows.exists_info (h : files.Shows dir) {peer : Peer} (hpeer : peer ∈ scanPeers dir) :
    ∃ entry ∈ dir.entries, scanPeer dir.path entry = some peer ∧
      ∃ info ∈ listWgPeers files, peerInfo files entry.name = some info := by
  unfold scanPeers at hpeer
  split_ifs at hpeer with hdir
  · obtain ⟨entry, hentry, hscan⟩ := List.mem_filterMap.mp hpeer
    obtain ⟨hisDir, hname, -⟩ := scanPeer_isDir hscan
    obtain ⟨names, hlist, hperm⟩ := h.listWgPeers_eq hdir
    have hstarts : "peer".toList.isPrefixOf entry.name = true :=
      List.isPrefixOf_iff_prefix.mpr (chars_of_isPeerDir hname).1
    obtain ⟨info, hinfo⟩ : ∃ info, peerInfo files entry.name = some info := by
      refine ⟨_, if_pos ?_⟩
      rw [Bool.and_eq_true, h.isDir entry hentry]
      exact ⟨hstarts, hisDir⟩
    refine ⟨entry, hentry, hscan, info, ?_, hinfo⟩
    rw [hlist]
    exact List.mem_filterMap.mpr
      ⟨entry.name, hperm.mem_iff.mpr (List.mem_map_of_mem hentry), hinfo⟩
  · cases hpeer

theorem readPeerAddress_eq (files : Files) (name : List Char) :
    readPeerAddress files (peersDir ++ [name]) = ((files.readToString
      (peersDir ++ [name, name ++ ".conf".toList])).map addressOf).getD [] := by
  rw [readPeerAddress, List.getLast?_concat]
  dsimp only
  rw [List.append_assoc, List.singleton_append]
  cases files.readToString (peersDir ++ [name, name ++ ".conf".toList]) <;> rfl

theorem readPeerFile_eq (files : Files) (name filename : List Char) :
    readPeerFile files (peersDir ++ [name]) filename =
      Text.trim ((files.readToString (peersDir ++ [name, filename])).getD []) := by
  rw [readPeerFile, List.append_assoc, List.singleton_append]

/-! The routes. -/

theorem ascii_of_safe {c : Char} (h : (c.isAlphanum || c = '-' || c = '_') = true) :
    (32 ≤ c.toNat ∧ c.toNat < 127) ∧ c ≠ '/' ∧ c ≠ '.' ∧ c ≠ '"' := by
  simp only [Bool.or_eq_true, decide_eq_true_eq] at h
  rcases h with (h | rfl) | rfl
  · have hrange : 32 ≤ c.toNat ∧ c.toNat < 127 := by
      simp only [Char.isAlphanum, Char.isAlpha, Char.isUpper, Char.isLower, Char.isDigit,
        Bool.or_eq_true, Bool.and_eq_true, decide_eq_true_eq, ge_iff_le, UInt32.le_iff_toNat_le]
        at h
      have htoNat : c.toNat = c.val.toNat := rfl
      simp only [Char.reduceVal, UInt32.reduceToNat] at h
      omega
    refine ⟨hrange, ?_, ?_, ?_⟩ <;> rintro rfl <;> exact absurd h (by decide)
  · decide
  · decide

theorem utf8Size_of_ascii {c : Char} (h : c.toNat < 128) : c.utf8Size = 1 := by
  rw [Char.utf8Size, if_pos]
  exact Nat.le_of_lt_succ h

/-- A safe name has one to 64 letters, digits, hyphens and underscores, all of one byte. -/
theorem isSafePeerName_iff {name : List Char} : isSafePeerName name ↔
    name ≠ [] ∧ name.length ≤ 64 ∧ ∀ c ∈ name, (c.isAlphanum || c = '-' || c = '_') = true := by
  rw [isSafePeerName, Bool.and_eq_true, Bool.and_eq_true, List.all_eq_true, and_assoc,
    Bool.not_eq_true', List.isEmpty_eq_false_iff, decide_eq_true_eq]
  refine and_congr_right fun _ => and_congr_left fun hall => ?_
  have hsizes : name.map Char.utf8Size = List.replicate name.length 1 := by
    rw [List.eq_replicate_iff]
    refine ⟨List.length_map _, fun size hsize => ?_⟩
    obtain ⟨c, hc, rfl⟩ := List.mem_map.mp hsize
    exact utf8Size_of_ascii ((ascii_of_safe (hall c hc)).1.2.trans (by decide))
  rw [hsizes, List.sum_replicate, smul_eq_mul, mul_one]

/-- A name that stays where it is put: no separator, and not the directory or the one above. -/
def IsProper (name : List Char) : Prop :=
  name ≠ [] ∧ '/' ∉ name ∧ name ≠ ['.'] ∧ name ≠ ['.', '.']

theorem isProper_of_safe {name : List Char} (h : isSafePeerName name) : IsProper name := by
  obtain ⟨hne, -, hall⟩ := isSafePeerName_iff.mp h
  have hdot : '.' ∉ name := fun hmem => (ascii_of_safe (hall _ hmem)).2.2.1 rfl
  refine ⟨hne, fun hmem => (ascii_of_safe (hall _ hmem)).2.1 rfl, ?_, ?_⟩ <;>
    rintro rfl <;> exact hdot List.mem_cons_self

theorem splitOn_peerPath {name suffix : List Char} (hname : '/' ∉ name)
    (hsuffix : '/' ∉ suffix) :
    (peerPath name suffix).splitOn '/' = peersDir ++ [name, name ++ suffix] := by
  have hlast : '/' ∉ name ++ suffix := by
    rw [List.mem_append, not_or]
    exact ⟨hname, hsuffix⟩
  rw [peerPath, List.splitOn_append_cons_self_of_not_mem (by decide),
    List.splitOn_append_cons_self_of_not_mem (by decide),
    List.splitOn_append_cons_self_of_not_mem hname, List.splitOn_eq_singleton hlast]
  rfl

theorem isDecimal_ascii {c : Char} (hc : isDecimal c) (h : c.toNat < 128) : c.isAlphanum := by
  obtain ⟨first, hfirst, hrange⟩ := List.any_eq_true.mp hc
  have hzeros : ∀ first ∈ decimalZeros, first = 0x30 ∨ 128 ≤ first := by decide
  rw [Bool.and_eq_true, decide_eq_true_eq, decide_eq_true_eq] at hrange
  obtain rfl := (hzeros first hfirst).resolve_right (by omega)
  rw [Char.isAlphanum, Char.isDigit, Bool.or_eq_true, Bool.and_eq_true, decide_eq_true_eq,
    decide_eq_true_eq]
  refine .inr ⟨UInt32.le_iff_toNat_le.mpr hrange.1, UInt32.le_iff_toNat_le.mpr ?_⟩
  exact Nat.le_of_lt_succ hrange.2

/-- Of the peers that the net manager scans, the routes serve those with a short name in ASCII. -/
theorem safe_iff_of_isPeerDir {name : List Char} (h : isPeerDir name) :
    isSafePeerName name ↔ name.length ≤ 64 ∧ ∀ c ∈ name, c.toNat < 128 ∧ c ≠ '\n' := by
  obtain ⟨hstarts, hchars⟩ := chars_of_isPeerDir h
  have hne : name ≠ [] := by
    rintro rfl
    exact absurd (List.prefix_nil.mp hstarts) (by decide)
  rw [isSafePeerName_iff, and_iff_right hne]
  refine and_congr_right fun _ => forall₂_congr fun c hc => ⟨fun hsafe => ?_, ?_⟩
  · refine ⟨(ascii_of_safe hsafe).1.2.trans (by decide), ?_⟩
    rintro rfl
    exact absurd hsafe (by decide)
  · rintro ⟨hascii, hlf⟩
    rcases hchars c hc with hpeer | hdecimal | rfl
    · have hletters : ∀ c ∈ ['p', 'e', 'e', 'r'],
          (c.isAlphanum || c = '-' || c = '_') = true := by simp
      exact hletters c hpeer
    · rw [isDecimal_ascii hdecimal hascii]
      rfl
    · exact absurd rfl hlf

/-- What is served to whoever asks for a name: nothing of any file, or a file of that peer. -/
theorem servePeerFile_eq {α : Type} (name : List Char) {suffix : List Char} (hsuffix : '/' ∉ suffix)
    (read : Path → Option α) (found : α → Response) (missing : List Char) :
    servePeerFile name suffix read found missing =
      if isSafePeerName name then
        ((read (peersDir ++ [name, name ++ suffix])).map found).getD ⟨404, [], .text missing⟩
      else ⟨400, [], .text "Invalid peer name".toList⟩ := by
  unfold servePeerFile
  split_ifs with hname
  · rw [splitOn_peerPath (isProper_of_safe hname).2.1 hsuffix]
    cases read (peersDir ++ [name, name ++ suffix]) <;> rfl
  · rfl

/-- Printable, and a text in quotes at most. -/
def IsSafeHeader (value : List Char) : Prop :=
  (∀ c ∈ value, 32 ≤ c.toNat ∧ c.toNat < 127) ∧ value.count '"' ≤ 2

/-- A safe name between two parts that are printable and have a quote each. -/
theorem isSafeHeader_append {before name after : List Char} (hname : isSafePeerName name)
    (hbefore : ∀ c ∈ before, 32 ≤ c.toNat ∧ c.toNat < 127)
    (hafter : ∀ c ∈ after, 32 ≤ c.toNat ∧ c.toNat < 127)
    (hcount : before.count '"' + after.count '"' ≤ 2) : IsSafeHeader (before ++ name ++ after) := by
  obtain ⟨-, -, hall⟩ := isSafePeerName_iff.mp hname
  have hquote : name.count '"' = 0 :=
    List.count_eq_zero.mpr fun hmem => (ascii_of_safe (hall _ hmem)).2.2.2 rfl
  constructor
  · rw [List.forall_mem_append, List.forall_mem_append]
    exact ⟨⟨hbefore, fun c hc => (ascii_of_safe (hall c hc)).1⟩, hafter⟩
  · rwa [List.count_append, List.count_append, hquote, add_zero]

theorem isSafeHeader_peerConfig (files : Files) (name : List Char) :
    ∀ header ∈ (peerConfig files name).headers, IsSafeHeader header.2 := by
  rw [peerConfig, servePeerFile_eq name (by decide)]
  split_ifs with hname
  · cases files.readToString (peersDir ++ [name, name ++ ".conf".toList]) with
    | none => exact List.forall_mem_nil _
    | some content =>
      rw [Option.map_some, Option.getD_some, configResponse]
      refine List.forall_mem_cons.mpr ⟨?_, List.forall_mem_singleton.mpr ?_⟩
      · simp [IsSafeHeader]
      · exact isSafeHeader_append hname (by simp) (by simp) (by simp)
  · exact List.forall_mem_nil _

/-- Two disks that agree on the files directly inside the directory of a peer. -/
def SameInside (name : List Char) (files other : Files) : Prop :=
  ∀ file, IsProper name → IsProper file →
    files.read (peersDir ++ [name, file]) = other.read (peersDir ++ [name, file])

theorem isProper_append {name suffix : List Char} (hname : '/' ∉ name) (hsuffix : '/' ∉ suffix)
    (hlen : 2 < suffix.length) : IsProper (name ++ suffix) := by
  refine ⟨?_, ?_, ?_, ?_⟩
  · exact List.append_ne_nil_of_right_ne_nil _ (List.ne_nil_of_length_pos (by omega))
  · rw [List.mem_append, not_or]
    exact ⟨hname, hsuffix⟩
  all_goals
    intro h
    have := congrArg List.length h
    simp only [List.length_append, List.length_cons, List.length_nil] at this
    omega

/-- What a route answers depends on the files directly inside the directory of that peer only. -/
theorem SameInside.responses {name : List Char} {files other : Files}
    (h : SameInside name files other) :
    peerConfig files name = peerConfig other name ∧ peerQr files name = peerQr other name := by
  have hread : ∀ suffix : List Char, '/' ∉ suffix → 2 < suffix.length → isSafePeerName name →
      files.read (peersDir ++ [name, name ++ suffix]) =
        other.read (peersDir ++ [name, name ++ suffix]) := by
    intro suffix hsuffix hlen hname
    have hproper := isProper_of_safe hname
    exact h _ hproper (isProper_append hproper.2.1 hsuffix hlen)
  constructor
  · rw [peerConfig, servePeerFile_eq name (by decide), peerConfig,
      servePeerFile_eq name (by decide)]
    split_ifs with hname
    · rw [Files.readToString, hread _ (by decide) (by decide) hname, Files.readToString]
    · rfl
  · rw [peerQr, servePeerFile_eq name (by decide), peerQr, servePeerFile_eq name (by decide)]
    split_ifs with hname
    · rw [hread _ (by decide) (by decide) hname]
    · rfl

/-- The two readers of one entry show the same peer. -/
structure Agrees (files : Files) (entry : Entry) (peer : Peer) (info : WgPeerInfo) : Prop where
  name : info.name = peer.name
  publicKey : (∀ text, entry.publicKey = some text → IsKeyLine text) →
    info.publicKey = peer.publicKey
  missing : entry.conf = none → info.address = [] ∧ peer.address = []
  absent : ∀ text lines, entry.conf = some text → readText text = render lines → OnlyCrLf text →
    (∀ line ∈ lines, line.valueOf addressKey.1 = none) → info.address = [] ∧ peer.address = []
  address : ∀ text before value rest, entry.conf = some text →
    readText text = render (before ++ settingWith addressKey value :: rest) → OnlyCrLf text →
    (∀ line ∈ before, line.valueOf addressKey.1 = none) →
    (info.address = peer.address ↔
      (strip value.1 = value.1 ∧ ¬ addressStart <+: value.1) ∧
        (value.1 = [] → ∀ line ∈ rest, line.isBlank))
  served : peerConfig files peer.name =
    if isSafePeerName peer.name then
      (entry.conf.map (configResponse peer.name)).getD ⟨404, [], .text "Config not found".toList⟩
    else ⟨400, [], .text "Invalid peer name".toList⟩

theorem addressOf_absent {text : List Char} {lines : List ConfLine}
    (htext : readText text = render lines) (hcr : OnlyCrLf text)
    (habsent : ∀ line ∈ lines, line.valueOf addressKey.1 = none) :
    addressOf text = [] ∧ address (some text) = [] := by
  have hfind : (Text.lines text).find? (fun line => addressStart.isPrefixOf line) = none := by
    rw [lines_of_readText htext hcr, find_lines_render (by decide), find_address lines habsent]
  have hfirst : firstSetting addressKey.1 lines = none := by
    rw [← List.append_nil lines, firstSetting_append habsent]
    rfl
  rw [addressOf, hfind]
  refine ⟨rfl, ?_⟩
  rw [show address (some text) = configured addressKey.1 [] (some text) from rfl,
    configured_eq addressKey.2 [] htext, hfirst]
  rfl

theorem Files.Shows.agrees (h : files.Shows dir) {entry : Entry} {peer : Peer} {info : WgPeerInfo}
    (hentry : entry ∈ dir.entries) (hpeer : scanPeer dir.path entry = some peer)
    (hinfo : peerInfo files entry.name = some info) : Agrees files entry peer info := by
  obtain ⟨hname, -, haddress, -, -⟩ := scanPeer_eq_some hpeer
  obtain ⟨hdir, -, hkey⟩ := scanPeer_isDir hpeer
  obtain ⟨hname', haddress', hkey'⟩ := peerInfo_eq hinfo
  rw [readPeerAddress_eq, h.conf entry hentry hdir] at haddress'
  rw [readPeerFile_eq, h.publicKey entry hentry hdir] at hkey'
  constructor
  case name => rw [hname', hname]
  case publicKey =>
    intro hline
    rw [hkey, hkey']
    cases htext : entry.publicKey with
    | none => rfl
    | some text => exact (hline text htext).trim_eq
  case missing =>
    intro hconf
    rw [haddress, haddress', hconf]
    exact ⟨rfl, rfl⟩
  case absent =>
    intro text lines hconf htext hcr habsent
    rw [haddress, haddress', hconf]
    exact addressOf_absent htext hcr habsent
  case address =>
    intro text before value rest hconf htext hcr hbefore
    rw [haddress, haddress', hconf]
    exact address_agrees_iff htext hcr hbefore
  case served =>
    rw [peerConfig, servePeerFile_eq _ (by decide), hname, h.conf entry hentry hdir]

theorem Files.Shows.of_listed (h : files.Shows dir) {info : WgPeerInfo}
    (hinfo : info ∈ listWgPeers files) : ∃ entry ∈ dir.entries,
      info.name = entry.name ∧ entry.isDir ∧ "peer".toList <+: entry.name := by
  by_cases hdir : dir.isDir
  · obtain ⟨names, hlist, hperm⟩ := h.listWgPeers_eq hdir
    rw [hlist, List.mem_filterMap] at hinfo
    obtain ⟨name, hname, hpeer⟩ := hinfo
    obtain ⟨entry, hentry, rfl⟩ := List.mem_map.mp (hperm.mem_iff.mp hname)
    refine ⟨entry, hentry, (peerInfo_eq hpeer).1, ?_⟩
    unfold peerInfo at hpeer
    dsimp only at hpeer
    split_ifs at hpeer with hkept
    rw [Bool.and_eq_true, h.isDir entry hentry, List.isPrefixOf_iff_prefix] at hkept
    exact hkept.symm
  · rw [listWgPeers, if_neg (by rwa [h.present])] at hinfo
    cases hinfo

def oneConf : List ConfLine :=
  [settingWith addressKey ⟨"10.13.13.2/32".toList, by decide⟩]

def oneDir : WgConfigDir where
  path := ["config".toList]
  isDir := true
  entries := [⟨"peer1".toList, true, some peerKey, none, some (render oneConf)⟩]
  nodup := List.nodup_singleton _
  serverPublicKey := none

def onePath : Path := peersDir ++ ["peer1".toList, "peer1".toList ++ ".conf".toList]

def readOne (path : Path) : Option (List UInt8) :=
  if path = onePath then some (Utf8.encode (String.ofList (render oneConf))) else none

/-- A directory with the configuration of one peer. -/
def oneFiles : Files where
  read := readOne
  pathExists _ := true
  isDir _ := true
  readDir _ := some [some "peer1".toList]

theorem shows_one : oneFiles.Shows oneDir where
  present := rfl
  listed := ⟨["peer1".toList], rfl, .refl _⟩
  isDir e he := by
    obtain rfl := List.mem_singleton.mp he
    rfl
  conf e he _ := by
    obtain rfl := List.mem_singleton.mp he
    have hread : readOne onePath = some (Utf8.encode (String.ofList (render oneConf))) := if_pos rfl
    show (readOne onePath).bind Utf8.decode = some (render oneConf)
    rw [hread, Option.bind_some, Utf8.decode_encode, String.toList_ofList]
  publicKey e he _ := by
    obtain rfl := List.mem_singleton.mp he
    rfl

end VpnGateway.PeerRoutes
