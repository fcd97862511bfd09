import VpnGateway.Core.Json

/-! The network status on its way from net-manager, which writes it to a file, to the gateway's
web API, which reads it back. -/
namespace VpnGateway

/-! The writer. -/

/-- A peer as the config generator lists it. -/
structure PeerEntry where
  name : String
  address : Option String

/-- What `_write_network_status` reads of net-manager's state. -/
structure NetManagerState where
  lanIp : String
  wanIp : Option String
  upnpAvailable : Bool
  peers : List PeerEntry

namespace NetManagerState

/-- The payload of `_write_network_status`. -/
def writeNetworkStatus (state : NetManagerState) (wgPort : ℤ) : Json :=
  .obj [
    ("lan_ip", .str state.lanIp),
    ("wan_ip", state.wanIp.elim .null .str),
    ("upnp_available", .bool state.upnpAvailable),
    ("wg_port", .int wgPort),
    ("peer_count", .int state.peers.length),
    ("peers", .arr (state.peers.map fun p =>
      .obj [("name", .str p.name), ("address", .str (p.address.getD ""))]))]

end NetManagerState

/-! The reader. -/

structure NetworkStatus where
  lanIp : Option String
  wanIp : Option String
  upnpActive : Bool
  wgPort : ℕ
  peerCount : ℕ
  peers : List String
  deriving DecidableEq

namespace NetworkStatus

/-- The derived `Deserialize`. -/
def decode (j : Json) : Option NetworkStatus := do
  let lanIp ← j.field "lan_ip" (Json.decodeOption Json.decodeString) (some none)
  let wanIp ← j.field "wan_ip" (Json.decodeOption Json.decodeString) (some none)
  let upnpActive ← j.field "upnp_active" Json.decodeBool none
  let wgPort ← j.field "wg_port" (Json.decodeUint (2 ^ 16)) none
  let peerCount ← j.field "peer_count" (Json.decodeUint (2 ^ 64)) none
  let peers ← j.field "peers" (Json.decodeVec Json.decodeString) none
  pure ⟨lanIp, wanIp, upnpActive, wgPort, peerCount, peers⟩

end NetworkStatus

/-- The handler; the file is missing where it does not exist or holds no JSON. -/
def networkStatus (file : Option Json) : NetworkStatus :=
  match file.bind NetworkStatus.decode with
  | some status => status
  | none => ⟨none, none, false, 51820, 0, []⟩

/-- The file is accepted, and the status that is returned carries what net-manager knows. -/
structure Delivered (state : NetManagerState) (wgPort : ℤ) (status : NetworkStatus) : Prop where
  accepted : NetworkStatus.decode (state.writeNetworkStatus wgPort) = some status
  lanIp : status.lanIp = some state.lanIp
  wanIp : status.wanIp = state.wanIp
  upnp : status.upnpActive = state.upnpAvailable
  wgPort : (status.wgPort : ℤ) = wgPort
  peerCount : status.peerCount = state.peers.length
  peers : status.peers = state.peers.map PeerEntry.name

namespace NetManagerState

/-- The flag is written under another name than it is read. -/
theorem field_upnpActive (state : NetManagerState) (wgPort : ℤ) :
    (state.writeNetworkStatus wgPort).field "upnp_active" Json.decodeBool none = none :=
  Json.field_missing (by simp [writeNetworkStatus, Json.valuesOf])

/-- Peers are written as objects and read as names, so that only an empty list passes. -/
theorem field_peers (state : NetManagerState) (wgPort : ℤ) :
    (state.writeNetworkStatus wgPort).field "peers" (Json.decodeVec Json.decodeString) none =
      if state.peers = [] then some [] else none := by
  have hvalues : (state.writeNetworkStatus wgPort).valuesOf "peers" = [.arr (state.peers.map
      fun p => .obj [("name", .str p.name), ("address", .str (p.address.getD ""))])] := by
    simp [writeNetworkStatus, Json.valuesOf]
  rw [Json.field_of_valuesOf hvalues]
  cases h : state.peers with
  | nil => rfl
  | cons p peers => rfl

theorem decode_writeNetworkStatus (state : NetManagerState) (wgPort : ℤ) :
    NetworkStatus.decode (state.writeNetworkStatus wgPort) = none := by
  unfold NetworkStatus.decode
  rw [field_upnpActive]
  cases (state.writeNetworkStatus wgPort).field "lan_ip"
    (Json.decodeOption Json.decodeString) (some none) with
  | none => rfl
  | some lanIp =>
    cases (state.writeNetworkStatus wgPort).field "wan_ip"
      (Json.decodeOption Json.decodeString) (some none) <;> rfl

/-- No status is ever delivered: whatever net-manager knows, the handler returns its default. -/
theorem networkStatus_not_delivered (state : NetManagerState) (wgPort : ℤ) :
    ¬Delivered state wgPort (networkStatus (some (state.writeNetworkStatus wgPort))) ∧
      networkStatus (some (state.writeNetworkStatus wgPort)) =
        ⟨none, none, false, 51820, 0, []⟩ := by
  have hnone := state.decode_writeNetworkStatus wgPort
  constructor
  · intro h
    have haccepted := h.accepted
    rw [hnone] at haccepted
    cases haccepted
  · simp only [networkStatus, Option.bind_some, hnone]

/-- A server without peers whose port is mapped: the address and the flag are lost. -/
theorem networkStatus_lost :
    let state : NetManagerState := ⟨"192.168.1.10", some "203.0.113.7", true, []⟩
    let status := networkStatus (some (state.writeNetworkStatus 51820))
    ¬Delivered state 51820 status ∧ status.lanIp ≠ some "192.168.1.10" ∧
      status.upnpActive = false := by
  refine ⟨fun h => ?_, by decide, by decide⟩
  have hlan := h.lanIp
  revert hlan
  decide

end NetManagerState

end VpnGateway
