import VpnGateway.Core.Utf8
import VpnGateway.Core.Wire

/-! The ClientHello of TLS in a record of its own, as RFC 8446 lays it out, and the
`server_name` extension of RFC 6066. -/
namespace Tls

open Wire

/-- An extension: its type, and its data behind a length of two bytes. -/
structure Extension where
  type : UInt16
  data : {b : Bytes // b.length < 65536}
  deriving DecidableEq

def Extension.encode (ext : Extension) : Bytes :=
  be16 ext.type.toNat ++ (be16 ext.data.val.length ++ ext.data.val)

theorem Extension.length_encode (ext : Extension) :
    ext.encode.length = 4 + ext.data.val.length := by
  simp only [encode, List.length_append, length_be16]
  omega

/-- The type of the `server_name` extension. -/
def serverNameType : UInt16 := 0

/-- The data of a `server_name` extension whose first entry is a host name. -/
def hostNameFirst (name more : Bytes) : Bytes :=
  be16 (3 + name.length + more.length) ++ 0 :: (be16 name.length ++ (name ++ more))

theorem length_hostNameFirst (name more : Bytes) :
    (hostNameFirst name more).length = 5 + name.length + more.length := by
  simp only [hostNameFirst, List.length_append, List.length_cons, length_be16]
  omega

/-- Every list fits behind its length field. -/
structure ClientHello where
  version : UInt16
  random : {b : Bytes // b.length = 32}
  sessionId : {b : Bytes // b.length < 256}
  cipherSuites : {l : List UInt16 // 2 * l.length < 65536}
  compressionMethods : {b : Bytes // b.length < 256}
  extensions : {l : List Extension // (l.flatMap Extension.encode).length < 65536}

namespace ClientHello

def cipherSuiteBytes (hello : ClientHello) : Bytes :=
  hello.cipherSuites.val.flatMap fun suite => be16 suite.toNat

def extensionBytes (hello : ClientHello) : Bytes := hello.extensions.val.flatMap Extension.encode

/-- What stands between the random bytes and the extensions. -/
def lists (hello : ClientHello) : Bytes :=
  UInt8.ofNat hello.sessionId.val.length :: (hello.sessionId.val ++
    (be16 hello.cipherSuiteBytes.length ++ (hello.cipherSuiteBytes ++
      (UInt8.ofNat hello.compressionMethods.val.length :: (hello.compressionMethods.val ++
        be16 hello.extensionBytes.length)))))

def body (hello : ClientHello) : Bytes :=
  be16 hello.version.toNat ++ (hello.random.val ++ (hello.lists ++ hello.extensionBytes))

/-- The message with its type and its length of three bytes. -/
def handshake (hello : ClientHello) : Bytes :=
  1 :: UInt8.ofNat (hello.body.length / 65536) :: (be16 hello.body.length ++ hello.body)

/-- The extensions before the first one for the server's name. -/
def beforeServerName (hello : ClientHello) : List Extension :=
  hello.extensions.val.takeWhile (·.type ≠ serverNameType)

def serverName (hello : ClientHello) : Option Extension :=
  hello.extensions.val.find? (·.type = serverNameType)

end ClientHello

theorem ClientHello.length_handshake (hello : ClientHello) : hello.handshake.length =
    44 + hello.sessionId.val.length + hello.cipherSuiteBytes.length +
      hello.compressionMethods.val.length + hello.extensionBytes.length := by
  simp only [handshake, body, lists, List.length_append, List.length_cons, length_be16,
    hello.random.property]
  omega

/-- A record that holds one ClientHello. -/
structure Record where
  version : UInt16
  hello : ClientHello
  fits : hello.handshake.length < 65536

namespace Record

/-- The record up to the lists of the ClientHello: these bytes are always 43. -/
def fixed (record : Record) : Bytes :=
  0x16 :: (be16 record.version.toNat ++ (be16 record.hello.handshake.length ++
    1 :: UInt8.ofNat (record.hello.body.length / 65536) :: (be16 record.hello.body.length ++
      (be16 record.hello.version.toNat ++ record.hello.random.val))))

def encode (record : Record) : Bytes :=
  0x16 :: (be16 record.version.toNat ++ (be16 record.hello.handshake.length ++
    record.hello.handshake))

/-- Where the host name of the first `server_name` extension begins: behind the extension's type
and length, the length of the list, the type of the entry and the length of the name. -/
def nameStart (record : Record) : ℕ :=
  (record.fixed ++ record.hello.lists ++
    record.hello.beforeServerName.flatMap Extension.encode).length + 9

theorem length_fixed (record : Record) : record.fixed.length = 43 := by
  simp [fixed, record.hello.random.property]

theorem encode_eq (record : Record) :
    record.encode = record.fixed ++ record.hello.lists ++ record.hello.extensionBytes := by
  simp only [encode, fixed, ClientHello.handshake, ClientHello.body, List.append_assoc,
    List.cons_append]

end Record

/-- The extensions, split at the first one for the server's name. -/
theorem ClientHello.extensionBytes_eq {hello : ClientHello} {ext : Extension}
    (h : hello.serverName = some ext) : ext.type = serverNameType ∧ ∃ after,
      hello.extensionBytes =
        hello.beforeServerName.flatMap Extension.encode ++ (ext.encode ++ after) := by
  obtain ⟨htype, before, after, hsplit, hbefore⟩ := List.find?_eq_some_iff_append.mp h
  have htype : ext.type = serverNameType := by simpa using htype
  have hwhile : hello.beforeServerName = before := by
    rw [beforeServerName, hsplit, List.takeWhile_append_of_pos (by simpa using hbefore)]
    simp [htype]
  exact ⟨htype, after.flatMap Extension.encode, by
    rw [extensionBytes, hwhile, hsplit, List.flatMap_append, List.flatMap_cons]⟩

/-- The name stands where `nameStart` says. -/
theorem Record.encode_eq_name {record : Record} {ext : Extension}
    (h : record.hello.serverName = some ext) {name more : Bytes}
    (hdata : ext.data.val = hostNameFirst name more) : ∃ before after,
      record.encode = before ++ (name ++ after) ∧ before.length = record.nameStart := by
  obtain ⟨-, after, hext⟩ := ClientHello.extensionBytes_eq h
  refine ⟨record.fixed ++ record.hello.lists ++
    record.hello.beforeServerName.flatMap Extension.encode ++ be16 ext.type.toNat ++
    be16 ext.data.val.length ++ be16 (3 + name.length + more.length) ++ 0 :: be16 name.length,
    more ++ after, ?_, ?_⟩
  · rw [encode_eq, hext, Extension.encode, hdata]
    simp only [hostNameFirst, List.append_assoc, List.cons_append]
  · simp only [nameStart, List.length_append, length_be16, List.length_cons]

end Tls
