import VpnGateway.Core.Wire

/-! The messages of SOCKS version 5 without authentication, as RFC 1928 lays them out: what a
server reads from a client and what it answers. -/
namespace Socks5

open Wire

/-- An address together with its type. A domain has a length byte in front of it. -/
inductive Addr where
  | ipv4 (octets : {b : Bytes // b.length = 4})
  | domain (name : {b : Bytes // b.length ≤ 255})
  | ipv6 (octets : {b : Bytes // b.length = 16})
  deriving DecidableEq

namespace Addr

def type : Addr → UInt8
  | ipv4 _ => 1
  | domain _ => 3
  | ipv6 _ => 4

/-- The address behind its type. -/
def body : Addr → Bytes
  | ipv4 octets => octets.val
  | domain name => UInt8.ofNat name.val.length :: name.val
  | ipv6 octets => octets.val

def encode (addr : Addr) : Bytes := addr.type :: addr.body

/-- The address at the front of the bytes, and what follows it. -/
def decode : Bytes → Option (Addr × Bytes)
  | 1 :: rest => if h : (rest.take 4).length = 4 then some (ipv4 ⟨_, h⟩, rest.drop 4) else none
  | 3 :: len :: rest =>
    if h : (rest.take len.toNat).length = len.toNat then
      some (domain ⟨rest.take len.toNat, by have := len.toNat_lt; omega⟩, rest.drop len.toNat)
    else none
  | 4 :: rest => if h : (rest.take 16).length = 16 then some (ipv6 ⟨_, h⟩, rest.drop 16) else none
  | _ => none

theorem decode_encode (addr : Addr) (rest : Bytes) :
    decode (addr.encode ++ rest) = some (addr, rest) := by
  cases addr with
  | ipv4 octets =>
    obtain ⟨bytes, hlen⟩ := octets
    have htake : (bytes ++ rest).take 4 = bytes := by rw [← hlen, List.take_left]
    have hdrop : (bytes ++ rest).drop 4 = rest := by rw [← hlen, List.drop_left]
    simp [encode, type, body, decode, htake, hdrop, hlen]
  | ipv6 octets =>
    obtain ⟨bytes, hlen⟩ := octets
    have htake : (bytes ++ rest).take 16 = bytes := by rw [← hlen, List.take_left]
    have hdrop : (bytes ++ rest).drop 16 = rest := by rw [← hlen, List.drop_left]
    simp [encode, type, body, decode, htake, hdrop, hlen]
  | domain name =>
    obtain ⟨bytes, hlen⟩ := name
    have hnat : (UInt8.ofNat bytes.length).toNat = bytes.length := by
      rw [UInt8.toNat_ofNat', Nat.mod_eq_of_lt (by omega)]
    simp [encode, type, body, decode, hnat]

end Addr

/-- Version 5 and one method, "no authentication". -/
def greeting : Bytes := [5, 1, 0]

/-- The methods that a greeting offers, and what follows it. -/
def decodeGreeting : Bytes → Option (Bytes × Bytes)
  | 5 :: count :: rest =>
    if count.toNat ≤ rest.length then some (rest.take count.toNat, rest.drop count.toNat) else none
  | _ => none

theorem decodeGreeting_append (rest : Bytes) :
    decodeGreeting (greeting ++ rest) = some ([0], rest) := by
  simp [greeting, decodeGreeting]

/-- The server's choice of "no authentication". -/
def noAuth : Bytes := [5, 0]

def encodeRequest (addr : Addr) (port : UInt16) : Bytes :=
  [5, 1, 0] ++ addr.encode ++ be16 port.toNat

/-- The address and the port of a CONNECT request, and what follows it. -/
def decodeRequest : Bytes → Option (Addr × UInt16 × Bytes)
  | 5 :: 1 :: 0 :: rest =>
    match Addr.decode rest with
    | some (addr, high :: low :: rest) => some (addr, UInt16.ofNat (fromBe16 high low), rest)
    | _ => none
  | _ => none

/-- The reply of a server that has connected to the target from this address. -/
def encodeReply (reserved : UInt8) (bound : Addr) (port : UInt16) : Bytes :=
  [5, 0, reserved] ++ bound.encode ++ be16 port.toNat

theorem decodeRequest_encodeRequest (addr : Addr) (port : UInt16) (rest : Bytes) :
    decodeRequest (encodeRequest addr port ++ rest) = some (addr, port, rest) := by
  have haddr := addr.decode_encode (be16 port.toNat ++ rest)
  have hport : UInt16.ofNat (fromBe16 (UInt8.ofNat (port.toNat / 256)) (UInt8.ofNat port.toNat)) =
      port := by
    rw [fromBe16_be16 port.toNat_lt, UInt16.ofNat_toNat]
  rw [encodeRequest, List.append_assoc, List.append_assoc]
  simp only [List.cons_append, List.nil_append, decodeRequest, haddr]
  simp only [be16, List.cons_append, List.nil_append, hport]

/-- A server without authentication that reaches every target: what it sends after the greeting
and after the request, cut into segments in any way, with the target's first bytes behind the
reply. -/
structure Server where
  methodSegments : List Segment
  flatten_method : flatten methodSegments = noAuth
  reserved : UInt8
  bound : Addr
  boundPort : UInt16
  payload : Bytes
  replySegments : List Segment
  flatten_reply : flatten replySegments = encodeReply reserved bound boundPort ++ payload
  closes : Bool

namespace Server

/-- It reads what it is sent as a greeting and a request, and answers each when it is complete. -/
def peer (server : Server) : Peer where
  refusal := none
  respond sent :=
    match decodeGreeting sent with
    | none => ([], false)
    | some (methods, rest) =>
      if rest = [] then
        if 0 ∈ methods then (server.methodSegments, false) else ([], true)
      else if (decodeRequest rest).isSome then (server.replySegments, server.closes)
      else ([], false)

theorem respond_request (server : Server) (addr : Addr) (port : UInt16) :
    server.peer.respond (greeting ++ encodeRequest addr port) =
      (server.replySegments, server.closes) := by
  have hread := decodeRequest_encodeRequest addr port []
  have hne : encodeRequest addr port ≠ [] := by simp [encodeRequest]
  rw [List.append_nil] at hread
  simp only [peer, decodeGreeting_append, if_neg hne, hread, Option.isSome_some, ↓reduceIte]

end Server

end Socks5
