import VpnGateway.Core.Ini
import VpnGateway.Core.PyText

/-! The client configurations that the net manager writes for the peers it finds in the WireGuard
directory, and which settings of a peer's own configuration they keep. -/
namespace VpnGateway.PeerConfigs

open PyText Ini

abbrev Path := List (List Char)

/-- A file with one line, as `wg genkey` and `wg pubkey` write it. -/
def KeyFile := {text : List Char // '\n' ∉ strip (readText text)}

def KeyFile.read (file : KeyFile) : List Char := strip (readText file.1)

/-- An address as the detection of the network returns it. -/
def IpText := {ip : List Char // '\n' ∉ ip}

/-- An entry of the WireGuard directory, with the files the scan reads when it is a directory. -/
structure Entry where
  name : List Char
  isDir : Bool
  privateKey : Option KeyFile
  publicKey : Option (List Char)
  conf : Option (List Char)

/-- The WireGuard directory, its entries in sorted order. -/
structure WgConfigDir where
  path : Path
  isDir : Bool
  entries : List Entry
  nodup : (entries.map Entry.name).Nodup
  serverPublicKey : Option KeyFile

/-- The pattern `^peer\d+$`, which a line feed at the end also meets. -/
def isPeerDir (name : List Char) : Bool :=
  match name.dropPrefix? "peer".toList with
  | none => false
  | some number =>
    let digits := if number.getLast? = some '\n' then number.dropLast else number
    !digits.isEmpty && digits.all isDecimal

/-- The group of `\s*(.+)$`: what remains of a line behind blanks and line feeds, and the last
blank of the text if nothing else remains. -/
def captured (text : List Char) : Option (List Char) :=
  match text.dropWhile isSpace with
  | [] => (text.filter (· ≠ '\n')).getLast?.map fun blank => [blank]
  | c :: rest => some ((c :: rest).takeWhile (· ≠ '\n'))

/-- The pattern `^\s*key\s*=\s*(.+)$` where a line starts. -/
def matchAt (key text : List Char) : Option (List Char) :=
  match (text.dropWhile isSpace).dropPrefix? key with
  | none => none
  | some rest =>
    match rest.dropWhile isSpace with
    | '=' :: value => captured value
    | _ => none

def searchFrom (key : List Char) (lineStart : Bool) : List Char → Option (List Char)
  | [] => none
  | c :: rest =>
    match if lineStart then matchAt key (c :: rest) else none with
    | some group => some group
    | none => searchFrom key (c = '\n') rest

/-- The group of the first match. -/
def search (key text : List Char) : Option (List Char) := searchFrom key true text

/-- The value that the scan reads for a key of the existing configuration. -/
def configured (key default : List Char) (conf : Option (List Char)) : List Char :=
  ((conf.bind fun text => search key (readText text)).map strip).getD default

def address (conf : Option (List Char)) : List Char := configured "Address".toList [] conf

def allowedIps (conf : Option (List Char)) : List Char :=
  configured "AllowedIPs".toList "0.0.0.0/0, ::/0".toList conf

def dns (conf : Option (List Char)) : List Char :=
  configured "DNS".toList "10.13.13.1".toList conf

structure Peer where
  name : List Char
  dir : Path
  privateKey : List Char
  publicKey : List Char
  address : List Char
  allowedIps : List Char
  dns : List Char

def scanPeer (configPath : Path) (entry : Entry) : Option Peer :=
  if entry.isDir && isPeerDir entry.name then
    entry.privateKey.map fun file =>
      { name := entry.name
        dir := configPath ++ [entry.name]
        privateKey := file.read
        publicKey := (entry.publicKey.map fun text => strip (readText text)).getD []
        address := address entry.conf
        allowedIps := allowedIps entry.conf
        dns := dns entry.conf }
  else none

def scanPeers (dir : WgConfigDir) : List Peer :=
  if dir.isDir then dir.entries.filterMap (scanPeer dir.path) else []

def readServerPublicKey (dir : WgConfigDir) : List Char :=
  (dir.serverPublicKey.map KeyFile.read).getD []

def generatePeerConfig (_peerName peerPrivateKey peerAddress serverPublicKey endpoint dns
    allowedIps : List Char) : List Char :=
  "[Interface]\n".toList ++
  "PrivateKey = ".toList ++ peerPrivateKey ++ "\n".toList ++
  "Address = ".toList ++ peerAddress ++ "\n".toList ++
  "DNS = ".toList ++ dns ++ "\n".toList ++
  "\n".toList ++
  "[Peer]\n".toList ++
  "PublicKey = ".toList ++ serverPublicKey ++ "\n".toList ++
  "AllowedIPs = ".toList ++ allowedIps ++ "\n".toList ++
  "Endpoint = ".toList ++ endpoint ++ "\n".toList ++
  "PersistentKeepalive = 25\n".toList

structure Written where
  configPath : Path
  qrPath : Path
  config : List Char

structure PeerInfo extends Peer where
  lan : Written
  wan : Option Written

/-- The configuration and the QR code of a peer, for clients on one side of the router. -/
def write (outputDir : Path) (serverPubkey : List Char) (wgPort : ℕ) (peer : Peer)
    (side ip : List Char) : Written :=
  let peerOut := outputDir ++ [peer.name]
  { configPath := peerOut ++ [peer.name ++ '-' :: side ++ ".conf".toList]
    qrPath := peerOut ++ [peer.name ++ '-' :: side ++ "-qr.png".toList]
    config := generatePeerConfig peer.name peer.privateKey peer.address serverPubkey
      (ip ++ ':' :: (toString wgPort).toList) peer.dns peer.allowedIps }

def generateAllConfigs (dir : WgConfigDir) (outputDir : Path) (lanIp : IpText)
    (wanIp : Option IpText) (wgPort : ℕ) : List PeerInfo :=
  let serverPubkey := readServerPublicKey dir
  if serverPubkey.isEmpty then []
  else
    (scanPeers dir).map fun peer =>
      { peer with
        lan := write outputDir serverPubkey wgPort peer "lan".toList lanIp.1
        wan := (wanIp.filter fun ip => !ip.1.isEmpty).map fun ip =>
          write outputDir serverPubkey wgPort peer "wan".toList ip.1 }

/-- The configurations that are written for a peer. -/
def PeerInfo.written (info : PeerInfo) : List Written := info.lan :: info.wan.toList

def Entry.source (entry : Entry) : List Char := entry.conf.getD []

def Entry.key (entry : Entry) : List Char := (entry.privateKey.map KeyFile.read).getD []

/-- The settings of the two parts, without those the net manager replaces. -/
def compared (source : List Char) : List Setting :=
  (settings source).filter fun setting =>
    (setting.part = "Interface".toList ∨ setting.part = "Peer".toList) ∧
      setting.key ≠ "Endpoint".toList ∧ setting.key ≠ "PersistentKeepalive".toList

/-- Every setting of the source stands in the configuration, in its part and with its value. -/
def Keeps (source config : List Char) : Prop := compared source ⊆ settings config

instance (source config : List Char) : Decidable (Keeps source config) :=
  inferInstanceAs (Decidable (compared source ⊆ settings config))

/-- What can be kept: the private key of the key file, the public key of the server, and the
values of the first lines with the three keys that the scan looks for. -/
def carried (serverPubkey privateKey : List Char) (conf : Option (List Char)) : List Setting :=
  [⟨"Interface".toList, "PrivateKey".toList, clean privateKey⟩,
    ⟨"Interface".toList, "Address".toList, clean (address conf)⟩,
    ⟨"Interface".toList, "DNS".toList, clean (dns conf)⟩,
    ⟨"Peer".toList, "PublicKey".toList, clean serverPubkey⟩,
    ⟨"Peer".toList, "AllowedIPs".toList, clean (allowedIps conf)⟩]

/-! The scan reads single lines. -/

theorem notMem_of_captured {text group : List Char} (h : captured text = some group) :
    '\n' ∉ group := by
  unfold captured at h
  split at h
  next hblank =>
    obtain ⟨blank, hlast, rfl⟩ := Option.map_eq_some_iff.mp h
    have hne := (List.mem_filter.mp (List.mem_of_getLast? hlast)).2
    rw [List.mem_singleton]
    rintro rfl
    simp at hne
  next c rest htext =>
    obtain rfl := Option.some.inj h
    intro hmem
    simpa using List.mem_takeWhile_imp hmem

theorem notMem_of_matchAt {key text group : List Char} (h : matchAt key text = some group) :
    '\n' ∉ group := by
  unfold matchAt at h
  split at h
  · cases h
  · split at h
    · exact notMem_of_captured h
    · cases h

theorem notMem_of_searchFrom {key text group : List Char} {lineStart : Bool}
    (h : searchFrom key lineStart text = some group) : '\n' ∉ group := by
  induction text generalizing lineStart with
  | nil => cases h
  | cons c rest ih =>
    unfold searchFrom at h
    split at h
    next hmatch =>
      obtain rfl := Option.some.inj h
      split at hmatch
      · exact notMem_of_matchAt hmatch
      · cases hmatch
    next => exact ih h

theorem notMem_configured (key : List Char) {default : List Char} (hdefault : '\n' ∉ default)
    (conf : Option (List Char)) : '\n' ∉ configured key default conf := by
  unfold configured
  cases hfound : (conf.bind fun text => search key (readText text)) with
  | none => exact hdefault
  | some group =>
    obtain ⟨text, -, hsearch⟩ := Option.bind_eq_some_iff.mp hfound
    exact fun hmem => notMem_of_searchFrom hsearch (mem_of_mem_strip hmem)

theorem notMem_readServerPublicKey (dir : WgConfigDir) : '\n' ∉ readServerPublicKey dir := by
  unfold readServerPublicKey
  cases dir.serverPublicKey with
  | none => exact List.not_mem_nil
  | some file => exact file.2

/-! The template, line by line. -/

def templateLines (key address dns server allowed endpoint : List Char) : List (List Char) :=
  ["[Interface]".toList, settingLine "PrivateKey".toList key,
    settingLine "Address".toList address, settingLine "DNS".toList dns, [],
    "[Peer]".toList, settingLine "PublicKey".toList server,
    settingLine "AllowedIPs".toList allowed, settingLine "Endpoint".toList endpoint,
    settingLine "PersistentKeepalive".toList "25".toList, []]

theorem generatePeerConfig_eq (name key address server endpoint dns allowed : List Char) :
    generatePeerConfig name key address server endpoint dns allowed =
      ['\n'].intercalate (templateLines key address dns server allowed endpoint) := by
  delta generatePeerConfig templateLines
  simp [settingLine]

theorem notMem_settingLine {key value : List Char} (hkey : isKey key = true) (h : '\n' ∉ value) :
    '\n' ∉ settingLine key value := by
  have hword : '\n' ∉ key := notMem_of_isKey hkey rfl
  simp [settingLine, hword, h]

/-- What a generated configuration holds besides the settings it may keep. -/
def added (endpoint : List Char) : List Setting :=
  [⟨"Peer".toList, "Endpoint".toList, clean endpoint⟩,
    ⟨"Peer".toList, "PersistentKeepalive".toList, "25".toList⟩]

theorem settings_generatePeerConfig (name : List Char) {key server endpoint : List Char}
    (conf : Option (List Char)) (hkey : '\n' ∉ key) (hserver : '\n' ∉ server)
    (hendpoint : '\n' ∉ endpoint) :
    settings (generatePeerConfig name key (address conf) server endpoint (dns conf)
      (allowedIps conf)) = carried server key conf ++ added endpoint := by
  have hlines : ∀ line ∈ templateLines key (address conf) (dns conf) server (allowedIps conf)
      endpoint, '\n' ∉ line := by
    simp only [templateLines, List.forall_mem_cons]
    refine ⟨by decide, ?_, ?_, ?_, by decide, by decide, ?_, ?_, ?_, ?_, by decide, nofun⟩
    · exact notMem_settingLine (by decide) hkey
    · exact notMem_settingLine (by decide) (notMem_configured _ (by decide) conf)
    · exact notMem_settingLine (by decide) (notMem_configured _ (by decide) conf)
    · exact notMem_settingLine (by decide) hserver
    · exact notMem_settingLine (by decide) (notMem_configured _ (by decide) conf)
    · exact notMem_settingLine (by decide) hendpoint
    · exact notMem_settingLine (by decide) (by decide)
  have hinterface : parseLine "[Interface]".toList = .header "Interface".toList := by decide
  have hpeer : parseLine "[Peer]".toList = .header "Peer".toList := by decide
  have hkeepalive : clean "25".toList = "25".toList := by decide
  rw [settings, generatePeerConfig_eq, List.splitOn_intercalate _ hlines (by simp [templateLines]),
    templateLines, settingsFrom_header hinterface, settingsFrom_settingLine (by decide),
    settingsFrom_settingLine (by decide), settingsFrom_settingLine (by decide),
    settingsFrom_other rfl, settingsFrom_header hpeer, settingsFrom_settingLine (by decide),
    settingsFrom_settingLine (by decide), settingsFrom_settingLine (by decide),
    settingsFrom_settingLine (by decide), settingsFrom_other rfl, hkeepalive]
  rfl

/-! What the configurations keep. -/

theorem notMem_added_of_compared {source : List Char} {setting : Setting}
    (h : setting ∈ compared source) (endpoint : List Char) : setting ∉ added endpoint := by
  have hkeys := of_decide_eq_true (List.mem_filter.mp h).2
  simp only [added, List.mem_cons, List.not_mem_nil, or_false, not_or]
  constructor
  · rintro rfl
    exact hkeys.2.1 rfl
  · rintro rfl
    exact hkeys.2.2 rfl

/-- The scan reads the fields of a peer from the files of its directory. -/
theorem scanPeer_eq_some {configPath : Path} {entry : Entry} {peer : Peer}
    (h : scanPeer configPath entry = some peer) :
    peer.name = entry.name ∧ peer.privateKey = entry.key ∧ peer.address = address entry.conf ∧
      peer.allowedIps = allowedIps entry.conf ∧ peer.dns = dns entry.conf := by
  unfold scanPeer at h
  split at h
  · obtain ⟨file, hfile, rfl⟩ := Option.map_eq_some_iff.mp h
    simp [Entry.key, hfile]
  · cases h

theorem notMem_key (entry : Entry) : '\n' ∉ entry.key := by
  unfold Entry.key
  cases entry.privateKey with
  | none => exact List.not_mem_nil
  | some file => exact file.2

/-- Neither the address in the endpoint nor the side of the router changes what is kept. -/
theorem keeps_write_iff (source : List Char) {server : List Char} (hserver : '\n' ∉ server)
    {configPath : Path} {entry : Entry} {peer : Peer}
    (hpeer : scanPeer configPath entry = some peer)
    (outputDir : Path) (wgPort : ℕ) (side : List Char) (ip : IpText) :
    Keeps source (write outputDir server wgPort peer side ip.1).config ↔
      compared source ⊆ carried server entry.key entry.conf := by
  obtain ⟨-, hkey, haddress, hallowed, hdns⟩ := scanPeer_eq_some hpeer
  have hendpoint : '\n' ∉ ip.1 ++ ':' :: (toString wgPort).toList := by
    rw [List.mem_append, List.mem_cons, not_or, not_or]
    exact ⟨ip.2, by decide, Text.notMem_toString rfl wgPort⟩
  rw [Keeps, write, hkey, haddress, hallowed, hdns,
    settings_generatePeerConfig _ _ (notMem_key entry) hserver hendpoint]
  constructor
  · intro h setting hsetting
    refine (List.mem_append.mp (h hsetting)).resolve_right ?_
    exact notMem_added_of_compared hsetting _
  · intro h setting hsetting
    exact List.mem_append_left _ (h hsetting)

theorem entry_of_mem {dir : WgConfigDir} {outputDir : Path} {lanIp : IpText}
    {wanIp : Option IpText} {wgPort : ℕ} {info : PeerInfo}
    (h : info ∈ generateAllConfigs dir outputDir lanIp wanIp wgPort) :
    ∃ entry ∈ dir.entries, ∃ peer, scanPeer dir.path entry = some peer ∧ peer.name = info.name ∧
      ∀ written ∈ info.written, ∃ side, ∃ ip : IpText,
        written = write outputDir (readServerPublicKey dir) wgPort peer side ip.1 := by
  simp only [generateAllConfigs] at h
  split at h
  · cases h
  obtain ⟨peer, hpeer, rfl⟩ := List.mem_map.mp h
  unfold scanPeers at hpeer
  split at hpeer
  · obtain ⟨entry, hentry, hscan⟩ := List.mem_filterMap.mp hpeer
    refine ⟨entry, hentry, peer, hscan, rfl, ?_⟩
    intro written hwritten
    rcases List.mem_cons.mp hwritten with rfl | hwan
    · exact ⟨_, lanIp, rfl⟩
    · obtain ⟨ip, -, rfl⟩ := Option.map_eq_some_iff.mp (Option.mem_toList.mp hwan)
      exact ⟨_, ip, rfl⟩
  · cases hpeer

theorem keeps_written_iff {dir : WgConfigDir} {outputDir : Path} {lanIp : IpText}
    {wanIp : Option IpText} {wgPort : ℕ} {entry : Entry} {info : PeerInfo}
    (hentry : entry ∈ dir.entries)
    (hinfo : info ∈ generateAllConfigs dir outputDir lanIp wanIp wgPort)
    (hname : info.name = entry.name) {written : Written} (hwritten : written ∈ info.written) :
    Keeps entry.source written.config ↔
      compared entry.source ⊆ carried (readServerPublicKey dir) entry.key entry.conf := by
  obtain ⟨found, hfound, peer, hscan, hpeer, hwrite⟩ := entry_of_mem hinfo
  have hsame : found = entry := by
    apply List.inj_on_of_nodup_map dir.nodup hfound hentry
    rw [← hname, ← hpeer, (scanPeer_eq_some hscan).1]
  subst hsame
  obtain ⟨side, ip, rfl⟩ := hwrite written hwritten
  exact keeps_write_iff _ (notMem_readServerPublicKey dir) hscan _ _ _ _

/-- A setting with a key that the scan does not look for is lost, whatever its value. -/
theorem not_keeps_of_key {dir : WgConfigDir} {outputDir : Path} {lanIp : IpText}
    {wanIp : Option IpText} {wgPort : ℕ} {entry : Entry} {info : PeerInfo}
    (hentry : entry ∈ dir.entries)
    (hinfo : info ∈ generateAllConfigs dir outputDir lanIp wanIp wgPort)
    (hname : info.name = entry.name) {setting : Setting} (hsource : setting ∈ compared entry.source)
    (hkey : setting.key ∉ ["PrivateKey".toList, "Address".toList, "DNS".toList,
      "PublicKey".toList, "AllowedIPs".toList]) :
    ∀ written ∈ info.written, ¬Keeps entry.source written.config := by
  intro written hwritten hkeeps
  have hcarried := (keeps_written_iff hentry hinfo hname hwritten).mp hkeeps hsource
  exact hkey (List.mem_map_of_mem hcarried)

/-- All configurations of a peer keep the settings of its own one when these are settings that
the scan reads, with the values it reads. -/
theorem configs_keep_iff (dir : WgConfigDir) (outputDir : Path) (lanIp : IpText)
    (wanIp : Option IpText) (wgPort : ℕ) :
    ∀ entry ∈ dir.entries, ∀ info ∈ generateAllConfigs dir outputDir lanIp wanIp wgPort,
      info.name = entry.name →
      ((∀ written ∈ info.written, Keeps entry.source written.config) ↔
        compared entry.source ⊆ carried (readServerPublicKey dir) entry.key entry.conf) := by
  intro entry hentry info hinfo hname
  constructor
  · intro h
    have hlan : info.lan ∈ info.written := List.mem_cons_self ..
    exact (keeps_written_iff hentry hinfo hname hlan).mp (h _ hlan)
  · intro h written hwritten
    exact (keeps_written_iff hentry hinfo hname hwritten).mpr h

def serverKey : KeyFile :=
  ⟨"Hj8Q0yF1sKx3vB2nM5lPz7cWgT4dRaEuJi6oXq9tYkA=\n".toList, by decide⟩

def peerKey : KeyFile := ⟨"mN4bVcXz1LkJhGfDsAp0OiUyTrEwQ9876543210abEg=\n".toList, by decide⟩

/-- The files of a single peer, with more settings of the server in its configuration. -/
def onePeer (more : List Char) : WgConfigDir where
  path := ["config".toList]
  isDir := true
  entries :=
    [{ name := "peer1".toList
       isDir := true
       privateKey := some peerKey
       publicKey := none
       conf := some ("[Interface]\n".toList ++
         "PrivateKey = ".toList ++ peerKey.1 ++
         "Address = 10.13.13.2/32\n".toList ++
         "DNS = 10.13.13.1\n".toList ++
         "\n".toList ++
         "[Peer]\n".toList ++
         "PublicKey = ".toList ++ serverKey.1 ++ more ++
         "AllowedIPs = 0.0.0.0/0, ::/0\n".toList ++
         "PersistentKeepalive = 25\n".toList) }]
  nodup := List.nodup_singleton _
  serverPublicKey := some serverKey

theorem plain_config_kept :
    let dir := onePeer []
    let infos := generateAllConfigs dir ["out".toList] ⟨"10.0.0.5".toList, by decide⟩ none 51820
    infos.length = 1 ∧ ∀ entry ∈ dir.entries, ∀ info ∈ infos, ∀ written ∈ info.written,
      Keeps entry.source written.config := by
  intro dir infos
  have hnames : ∀ entry ∈ dir.entries, ∀ info ∈ infos, info.name = entry.name := by decide +kernel
  have hcarried : ∀ entry ∈ dir.entries, compared entry.source ⊆
      carried (readServerPublicKey dir) entry.key entry.conf := by decide +kernel
  refine ⟨by decide +kernel, ?_⟩
  intro entry hentry info hinfo
  exact (configs_keep_iff dir _ _ _ _ entry hentry info hinfo (hnames entry hentry info hinfo)).mpr
    (hcarried entry hentry)

/-- The configuration as the key script writes it. -/
theorem presharedKey_lost :
    let dir := onePeer "PresharedKey = Zr5tGb9yHn3uJm7iKo1pLq2wSe4dRf6vTg8bYh0nUj4=\n".toList
    let infos := generateAllConfigs dir ["out".toList] ⟨"10.0.0.5".toList, by decide⟩
      (some ⟨"203.0.113.7".toList, by decide⟩) 51820
    infos.length = 1 ∧ ∀ entry ∈ dir.entries, ∀ info ∈ infos, info.name = entry.name ∧
      ∀ written ∈ info.written, ¬Keeps entry.source written.config := by
  decide +kernel

end VpnGateway.PeerConfigs
