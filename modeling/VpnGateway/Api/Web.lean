import VpnGateway.Core.Text
import VpnGateway.Pool.State

/-! The handlers of the web API that move proxies into, out of and back into the pool. -/
namespace VpnGateway

structure AddProxyRequest where
  host : String
  port : UInt16
  protocol : Option String
  deriving DecidableEq

structure ApiResponse where
  success : Bool
  message : String
  deriving DecidableEq

namespace AddProxyRequest

/-- Only these two spellings mean SOCKS5; everything else is an HTTP proxy. -/
def proxyProtocol (payload : AddProxyRequest) : Protocol :=
  if payload.protocol = some "socks5" ∨ payload.protocol = some "socks5 " then .socks5 else .http

def key (payload : AddProxyRequest) : String := s!"{payload.host}:{payload.port}"

def proxy (payload : AddProxyRequest) : Proxy :=
  .new payload.host payload.port payload.proxyProtocol

end AddProxyRequest

namespace SharedState

def addProxy (s : SharedState) (payload : AddProxyRequest) : ApiResponse × SharedState :=
  if payload.key ∈ s.proxies then (⟨false, "Proxy already exists"⟩, s)
  else
    (⟨true, s!"Proxy {payload.host}:{payload.port} added"⟩,
      { s with proxies := s.proxies.insert payload.key payload.proxy })

/-- A well-formed key has two parts, and the second one is a port number. -/
def banProxy (s : SharedState) (proxyKey : String) : ApiResponse × SharedState :=
  match proxyKey.toList.splitOn ':' with
  | [host, port] =>
    if (Text.parseU16 port).isNone then (⟨false, "Invalid port number"⟩, s)
    else
      let key := s!"{String.ofList host}:{String.ofList port}"
      match s.proxies.get key with
      | some proxy =>
        (⟨true, s!"Proxy {key} banned"⟩,
          { s with
            proxies := s.proxies.remove key
            banned := s.banned.insert key proxy })
      | none => (⟨false, "Proxy not found"⟩, s)
  | _ => (⟨false, "Invalid proxy key format. Use host:port"⟩, s)

/-- The record goes back under its own endpoint. -/
def unbanProxy (s : SharedState) (proxyKey : String) : ApiResponse × SharedState :=
  match s.banned.get proxyKey with
  | some proxy =>
    (⟨true, s!"Proxy {proxyKey} unbanned"⟩,
      { s with
        banned := s.banned.remove proxyKey
        proxies := s.proxies.insert proxy.key proxy })
  | none => (⟨false, "Banned proxy not found"⟩, s)

/-- A text of two parts is its parts around the colon. -/
theorem eq_of_splitOn {text : String} {host port : List Char}
    (h : text.toList.splitOn ':' = [host, port]) :
    s!"{String.ofList host}:{String.ofList port}" = text := by
  have hjoin : List.intercalate [':'] (text.toList.splitOn ':') = text.toList :=
    List.intercalate_splitOn ':'
  rw [h] at hjoin
  have hlist : host ++ ':' :: port = text.toList := by
    simpa [List.intercalate, List.intersperse] using hjoin
  rw [← String.toList_inj, ← hlist]
  simp [toString, String.toList_append]

theorem addProxy_cases (s : SharedState) (payload : AddProxyRequest) :
    (∃ message, s.addProxy payload = (⟨false, message⟩, s)) ∨
    (payload.key ∉ s.proxies ∧ ∃ message, s.addProxy payload = (⟨true, message⟩,
      { s with proxies := s.proxies.insert payload.key payload.proxy })) := by
  unfold addProxy
  split_ifs with h
  · exact Or.inl ⟨_, rfl⟩
  · exact Or.inr ⟨h, _, rfl⟩

/-- A ban either refuses and changes nothing, or moves the record it names. -/
theorem banProxy_cases (s : SharedState) (k : String) :
    (∃ message, s.banProxy k = (⟨false, message⟩, s)) ∨
    (∃ p message, s.proxies.get k = some p ∧ s.banProxy k = (⟨true, message⟩,
      { s with proxies := s.proxies.remove k, banned := s.banned.insert k p })) := by
  unfold banProxy
  split
  next host port hsplit =>
    split_ifs
    · exact Or.inl ⟨_, rfl⟩
    · rw [eq_of_splitOn hsplit]
      dsimp only
      cases hp : s.proxies.get k with
      | none => exact Or.inl ⟨_, rfl⟩
      | some p => exact Or.inr ⟨p, _, rfl, rfl⟩
  · exact Or.inl ⟨_, rfl⟩

theorem unbanProxy_cases (s : SharedState) (k : String) :
    (s.banned.get k = none ∧ ∃ message, s.unbanProxy k = (⟨false, message⟩, s)) ∨
    (∃ p message, s.banned.get k = some p ∧ s.unbanProxy k = (⟨true, message⟩,
      { s with banned := s.banned.remove k, proxies := s.proxies.insert p.key p })) := by
  unfold unbanProxy
  cases hp : s.banned.get k with
  | none => exact Or.inl ⟨rfl, _, rfl⟩
  | some p => exact Or.inr ⟨p, _, rfl, rfl⟩

end SharedState

end VpnGateway
