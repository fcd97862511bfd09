import VpnGateway.Core.Http
import VpnGateway.Proxy.SniffCuts
import VpnGateway.Proxy.Upstream

/-! The CONNECT request for a name that the client chose: when an upstream proxy reads it as the
one request it is meant to be. -/
namespace VpnGateway

open Wire

/-- The bytes are one CONNECT request for the host and port, with a Host header that repeats them
and a Proxy-Connection header, and nothing else. -/
def IsOneConnect (request : Bytes) (host : String) (port : UInt16) : Prop :=
  Http.parseConnect request = some
    (⟨Utf8.encode host, port.toNat,
      [(Utf8.encode "Host", Http.authority (Utf8.encode host) port.toNat),
        (Utf8.encode "Proxy-Connection", Utf8.encode "keep-alive")]⟩, [])

/-- The name in the first bytes of a connection: the server name of a ClientHello, or else the
host of an HTTP request. -/
inductive NamedIn (buf : Bytes) : String → Prop
  | serverName {start len : ℕ} {name : String} (hat : ServerNameAt buf start len)
      (hname : nameAt buf start len = some name) : NamedIn buf name
  | host {text host : List Char} (hno : ¬HasServerName buf) (htext : Utf8.decode buf = some text)
      (hhost : HostIn text host) : NamedIn buf (String.ofList host)

theorem connectRequest_eq (host : String) (port : UInt16) :
    connectRequest host port = Http.encodeHead
      [Http.connectLine (Http.authority (Utf8.encode host) port.toNat),
        Utf8.encode "Host: " ++ Http.authority (Utf8.encode host) port.toNat,
        Utf8.encode "Proxy-Connection: keep-alive"] := by
  have hport : toString port = toString port.toNat := rfl
  have hline : Utf8.encode " HTTP/1.1\r\nHost: " =
      32 :: (Utf8.encode "HTTP/1.1" ++ 13 :: 10 :: Utf8.encode "Host: ") := rfl
  have hend : Utf8.encode "\r\nProxy-Connection: keep-alive\r\n\r\n" =
      13 :: 10 :: (Utf8.encode "Proxy-Connection: keep-alive" ++ [13, 10, 13, 10]) := rfl
  have hstart : Utf8.encode "CONNECT " = Utf8.encode "CONNECT" ++ [32] := rfl
  have hcolon : Utf8.encode ":" = [58] := rfl
  have hself (s : String) : toString s = s := rfl
  simp only [connectRequest, Utf8.encode_append, hself, hport, hline, hend, hstart, hcolon,
    Http.encodeHead, Http.connectLine, Http.authority, List.flatMap_cons, List.flatMap_nil,
    List.append_assoc, List.cons_append, List.nil_append, List.append_nil]

/-- The request for the host of a URI is read as it is meant. -/
theorem isOneConnect_connectRequest_iff (host : String) (port : UInt16) :
    IsOneConnect (connectRequest host port) host port ↔
      Http.isUriHost (Utf8.encode host) = true := by
  constructor
  · intro h
    exact Http.isUriHost_of_parseConnect h
  · intro h
    have hvisible := Http.isVchar_of_authority h port.toNat
    let hostLine := Utf8.encode "Host: " ++ Http.authority (Utf8.encode host) port.toNat
    let keepAlive := Utf8.encode "Proxy-Connection: keep-alive"
    have hlines : ∀ line ∈ [hostLine, keepAlive], Http.IsLine line := by
      simp only [List.forall_mem_cons]
      refine ⟨⟨?_, ?_⟩, ⟨by decide, by decide⟩, by simp⟩
      · simp [hostLine, Utf8.encode]
      · rw [List.mem_append, not_or]
        exact ⟨by decide, (Http.notMem_of_isVchar hvisible).2⟩
    have hhostLine : Http.parseField hostLine =
        some (Utf8.encode "Host", Http.authority (Utf8.encode host) port.toNat) := by
      have hne : Utf8.encode "Host" ≠ [] := by decide
      exact Http.parseField_append hne (by decide) hvisible
    have hfields : [hostLine, keepAlive].mapM Http.parseField = some
        [(Utf8.encode "Host", Http.authority (Utf8.encode host) port.toNat),
          (Utf8.encode "Proxy-Connection", Utf8.encode "keep-alive")] := by
      have hkeepAlive : Http.parseField keepAlive =
          some (Utf8.encode "Proxy-Connection", Utf8.encode "keep-alive") := by decide
      simp [hhostLine, hkeepAlive]
    have hparse := Http.parseConnect_encodeHead h port.toNat hlines hfields []
    rwa [List.append_nil, ← connectRequest_eq] at hparse

theorem sniff_iff_namedIn {buf : Bytes} {name : String} :
    sniff buf = some (.tlsSni name) ∨ sniff buf = some (.httpHost name) ↔ NamedIn buf name := by
  constructor
  · intro h
    rcases sniff_cases buf with ⟨start, len, name', hat, hname, hsniff⟩ | ⟨hno, hsniff⟩
    · rw [hsniff] at h
      rcases h with h | h
      · cases h
        exact .serverName hat hname
      · cases h
    · cases hparse : parseHttpHost buf with
      | none =>
        rw [hsniff, hparse] at h
        rcases h with h | h <;> cases h
      | some host =>
        rw [hsniff, hparse] at h
        rcases h with h | h
        · cases h
        · cases h
          obtain ⟨text, htext, hhost⟩ := parseHttpHost_eq_some_iff.mp hparse
          have hnamed := NamedIn.host hno htext (hostOfRequest_eq_some_iff.mp hhost)
          rwa [String.ofList_toList] at hnamed
  · intro h
    cases h with
    | serverName hat hname => exact .inl (sniff_of_serverName hat hname)
    | @host text host hno htext hhost =>
      have hparse : parseHttpHost buf = some (String.ofList host) :=
        parseHttpHost_eq_some_iff.mpr
          ⟨text, htext, by rw [String.toList_ofList, hostOfRequest_eq_some_iff.mpr hhost]⟩
      rcases sniff_cases buf with ⟨start, len, name, hat, hname, -⟩ | ⟨-, hsniff⟩
      · exact absurd ⟨start, len, hat, by rw [hname]; rfl⟩ hno
      · right
        rw [hsniff, hparse]
        rfl

/-- Whatever a client sends, the request for the name in it is what it should be exactly if the
name is the host of a URI, and not empty. -/
theorem sniffed_request_iff (buf : Bytes) (port : UInt16) :
    (∀ name, sniff buf = some (.tlsSni name) ∨ sniff buf = some (.httpHost name) →
      name ≠ "" ∧ IsOneConnect (connectRequest name port) name port) ↔
    ∀ name, NamedIn buf name → name ≠ "" ∧ Http.isUriHost (Utf8.encode name) = true := by
  simp only [sniff_iff_namedIn, isOneConnect_connectRequest_iff]

/-- A name with line breaks that makes the upstream proxy connect to a target of its own. -/
def injectingName (host : String) (port : UInt16) : String := s!"{host}:{port} HTTP/1.1\r\n\r\n"

/-- The proxy reads a whole request for that target, and more bytes behind it. -/
theorem connectRequest_injectingName {host : String}
    (hhost : Http.isUriHost (Utf8.encode host) = true) (port targetPort : UInt16) :
    ∃ rest, rest ≠ [] ∧ Http.parseConnect (connectRequest (injectingName host port) targetPort) =
      some (⟨Utf8.encode host, port.toNat, []⟩, rest) := by
  have hport : toString port = toString port.toNat := rfl
  have hend : Utf8.encode " HTTP/1.1\r\n\r\n" =
      32 :: (Utf8.encode "HTTP/1.1" ++ [13, 10, 13, 10]) := rfl
  have hstart : Utf8.encode "CONNECT " = Utf8.encode "CONNECT" ++ [32] := rfl
  have hcolon : Utf8.encode ":" = [58] := rfl
  have hself (s : String) : toString s = s := rfl
  have hsplit : ∃ rest, connectRequest (injectingName host port) targetPort =
      Http.encodeHead [Http.connectLine (Http.authority (Utf8.encode host) port.toNat)] ++
        58 :: rest := by
    simp only [connectRequest, injectingName, Utf8.encode_append, hself, hport, hend, hstart,
      hcolon, Http.encodeHead, Http.connectLine, Http.authority, List.flatMap_cons,
      List.flatMap_nil, List.append_assoc, List.cons_append, List.nil_append]
    exact ⟨_, rfl⟩
  obtain ⟨rest, hrest⟩ := hsplit
  refine ⟨58 :: rest, List.cons_ne_nil _ _, ?_⟩
  rw [hrest]
  exact Http.parseConnect_encodeHead hhost port.toNat (by simp) rfl _

/-- Any name can be sent as the server name of a ClientHello. -/
theorem sniff_recordOf (name : String) (h : (Utf8.encode name).length < 256) :
    sniff (recordOf name h).encode = some (.tlsSni name) := by
  obtain ⟨upTo, after, hencode, -, hat, hname⟩ :=
    serverNameAt_record (serverName_recordOf name h) rfl
  rw [hencode]
  refine sniff_of_serverName (hat.append after) ?_
  rw [nameAt_append hat.le_length, hname]

/-- An empty Host header leads to a target without a host, and a server name with line breaks to a
whole request for another target, with more bytes behind it. -/
theorem sniffed_request_broken :
    let empty := Utf8.encode "GET / HTTP/1.1\r\nHost:\r\n\r\n"
    let evil := injectingName "a" 1
    sniff empty = some (.httpHost "") ∧
      sniff (recordOf evil (by decide)).encode = some (.tlsSni evil) ∧
      (∃ rest, rest ≠ [] ∧ Http.parseConnect (connectRequest evil 443) =
        some (⟨Utf8.encode "a", 1, []⟩, rest)) ∧
      ¬∀ (buf : Bytes) (port : UInt16) (name : String),
        sniff buf = some (.tlsSni name) ∨ sniff buf = some (.httpHost name) →
          name ≠ "" ∧ IsOneConnect (connectRequest name port) name port := by
  intro empty evil
  have hempty : sniff empty = some (.httpHost "") := by decide
  exact ⟨hempty, sniff_recordOf evil _, connectRequest_injectingName (by decide) 1 443,
    fun h => (h empty 80 "" (.inr hempty)).1 rfl⟩

end VpnGateway
