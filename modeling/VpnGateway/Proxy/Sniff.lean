import VpnGateway.Core.Text
import VpnGateway.Core.Utf8
import VpnGateway.Core.Wire

/-! What `sniff` finds out about the target from the first bytes of a connection: the server name
of a TLS ClientHello, or the host of an HTTP request. -/
namespace VpnGateway

open Wire

inductive SniffedTarget where
  | tlsSni (name : String)
  | httpHost (host : String)
  | unknown
  deriving DecidableEq

/-- `u16::from_be_bytes([buf[pos], buf[pos + 1]])`. An index out of range is a panic, here and
below the outer `none`. -/
def u16At (buf : Bytes) (pos : ℕ) : Option ℕ := do
  pure (fromBe16 (← buf[pos]?) (← buf[pos + 1]?))

/-- `&buf[pos..pos + len]`. -/
def slice (buf : Bytes) (pos len : ℕ) : Option Bytes :=
  if pos + len ≤ buf.length then some ((buf.drop pos).take len) else none

/-- The first entry of the server names at `pos`. -/
def parseServerName (buf : Bytes) (extensionsEnd pos : ℕ) : Option (Option String) := do
  if extensionsEnd < pos + 5 then return none
  let _sniListLen ← u16At buf pos
  let sniType ← buf[pos + 2]?
  let nameLen ← u16At buf (pos + 3)
  if sniType = 0 ∧ pos + 5 + nameLen ≤ extensionsEnd then
    let name ← slice buf (pos + 5) nameLen
    return (Utf8.decode name).map String.ofList
  return none

/-- The loop over the extensions. -/
def scanExtensions (buf : Bytes) (extensionsEnd pos : ℕ) : Option (Option String) := do
  if pos + 4 ≤ extensionsEnd then
    let extType ← u16At buf pos
    let extLen ← u16At buf (pos + 2)
    if extType = 0 then parseServerName buf extensionsEnd (pos + 4)
    else scanExtensions buf extensionsEnd (pos + 4 + extLen)
  else return none
termination_by extensionsEnd - pos

def parseTlsSni (buf : Bytes) : Option (Option String) := do
  if buf.length < 43 then return none
  if (← buf[0]?) ≠ 0x16 then return none
  let _recordLen ← u16At buf 3
  if (← buf[5]?) ≠ 0x01 then return none
  let pos := 5 + 4 + 2 + 32
  if buf.length ≤ pos then return none
  let sessionIdLen ← buf[pos]?
  let pos := pos + (1 + sessionIdLen.toNat)
  if buf.length < pos + 2 then return none
  let cipherSuitesLen ← u16At buf pos
  let pos := pos + (2 + cipherSuitesLen)
  if buf.length < pos + 1 then return none
  let compressionLen ← buf[pos]?
  let pos := pos + (1 + compressionLen.toNat)
  if buf.length < pos + 2 then return none
  let extensionsLen ← u16At buf pos
  let pos := pos + 2
  scanExtensions buf (min (pos + extensionsLen) buf.length) pos

/-- `line.to_lowercase().starts_with("host:")`: no character outside ASCII has a lower case that
begins with one of these letters. -/
def isHostHeader (line : List Char) : Bool := (line.take 5).map Char.toLower == "host:".toList

/-- What `split(':')` yields first. -/
def beforeColon (s : List Char) : List Char := s.takeWhile (· ≠ ':')

/-- The loop over the lines after the first one. -/
def findHostHeader : List (List Char) → Option (List Char)
  | [] => none
  | line :: rest =>
    if isHostHeader line then some (beforeColon (Text.trim (line.drop 5)))
    else if line = [] then none
    else findHostHeader rest

def hostOfRequest (text : List Char) : Option (List Char) := do
  let firstLine ← (Text.lines text)[0]?
  if "CONNECT ".toList <+: firstLine then
    let target ← (Text.splitWhitespace firstLine)[1]?
    return beforeColon target
  findHostHeader ((Text.lines text).drop 1)

def parseHttpHost (buf : Bytes) : Option String := do
  let text ← Utf8.decode buf
  let host ← hostOfRequest text
  return String.ofList host

def sniff (buf : Bytes) : Option SniffedTarget := do
  if buf = [] then return .unknown
  let sni ← if (← buf[0]?) = 0x16 then parseTlsSni buf else pure none
  match sni with
  | some name => return .tlsSni name
  | none =>
    match parseHttpHost buf with
    | some host => return .httpHost host
    | none => return .unknown

end VpnGateway
