import VpnGateway.Core.Http

/-! Requests in origin form, as RFC 9112 lets a client send them. -/
namespace Http

open Wire

/-- Optional whitespace. -/
def isOws (b : UInt8) : Bool := b == 32 || b == 9

/-- The name of a field in any letter case. -/
def isNamed (word : String) (name : Bytes) : Bool :=
  (Utf8.chars name).map Char.toLower == word.toList

/-- A field with a colon right behind its name. Whitespace around the value is part of it. -/
structure Field where
  name : Bytes
  value : Bytes
  token : name ≠ [] ∧ name.all isTchar
  bytes : value.all isFieldByte

def Field.line (field : Field) : Bytes := field.name ++ 58 :: field.value

/-- The host of a Host field. -/
inductive UriHost where
  | regName (name : {s : Bytes // isRegName s})
  | ipv4 (address : {s : Bytes // isIpv4 s})
  | ipv6 (address : {s : Bytes // isIpv6 s})

def UriHost.bytes : UriHost → Bytes
  | regName name => name.val
  | ipv4 address => address.val
  | ipv6 address => 91 :: address.val ++ [93]

/-- A request for a path, with one Host field among the others. Its target may hold any visible
characters. -/
structure OriginRequest where
  method : Bytes
  target : Bytes
  before : List Field
  hostName : Bytes
  host : UriHost
  port : Option {s : Bytes // s.all isDigit}
  blanks : {s : Bytes // s.all isOws} × {s : Bytes // s.all isOws}
  after : List Field
  body : Bytes
  method_token : method ≠ [] ∧ method.all isTchar
  method_ne : method ≠ Utf8.encode "CONNECT"
  target_path : target.head? = some 47 ∧ target.all isVchar
  before_other : ∀ field ∈ before, isNamed "host" field.name = false
  host_name : isNamed "host" hostName
  after_other : ∀ field ∈ after, isNamed "host" field.name = false

namespace OriginRequest

def requestLine (r : OriginRequest) : Bytes :=
  r.method ++ 32 :: r.target ++ 32 :: Utf8.encode "HTTP/1.1"

/-- The host, and the port behind a colon if there is one. -/
def hostValue (r : OriginRequest) : Bytes :=
  match r.port with
  | none => r.host.bytes
  | some port => r.host.bytes ++ 58 :: port.val

def hostLine (r : OriginRequest) : Bytes :=
  r.hostName ++ 58 :: (r.blanks.1.val ++ r.hostValue ++ r.blanks.2.val)

def encode (r : OriginRequest) : Bytes :=
  encodeHead ([r.requestLine] ++ r.before.map Field.line ++ [r.hostLine] ++
    r.after.map Field.line) ++ r.body

end OriginRequest

theorem lt_of_isVchar {b : UInt8} (h : isVchar b = true) : b.toNat < 128 := by
  have := (isVchar_iff.mp h).2
  omega

theorem isVchar_of_tchar {b : UInt8} (h : isTchar b = true) : isVchar b = true := by
  have hall : (Utf8.encode "!#$%&'*+-.^_`|~").all isVchar = true := by decide
  rw [isTchar, Bool.or_eq_true, Bool.or_eq_true] at h
  rcases h with (h | h) | h
  · exact isVchar_of_digit h
  · exact isVchar_of_alpha h
  · exact List.all_eq_true.mp hall b (List.contains_iff_mem.mp h)

theorem mem_intercalate {sep b : UInt8} {parts : List Bytes}
    (h : b ∈ List.intercalate [sep] parts) : b = sep ∨ ∃ part ∈ parts, b ∈ part := by
  induction parts with
  | nil => simp [List.intercalate] at h
  | cons part parts ih =>
    cases parts with
    | nil => exact .inr ⟨part, by simp, by simpa [List.intercalate] using h⟩
    | cons next parts =>
      rw [List.intercalate_cons_cons, List.mem_append, List.mem_append, List.mem_singleton] at h
      rcases h with (h | rfl) | h
      · exact .inr ⟨part, List.mem_cons_self, h⟩
      · exact .inl rfl
      · refine (ih h).imp_right ?_
        rintro ⟨other, hmem, hb⟩
        exact ⟨other, List.mem_cons_of_mem _ hmem, hb⟩

theorem ipv4_cases {s : Bytes} (h : isIpv4 s = true) : ∀ b ∈ s, b = 46 ∨ isDigit b = true := by
  intro b hb
  rw [isIpv4, Bool.and_eq_true, List.all_eq_true] at h
  have hsplit : [46].intercalate (s.splitOn 46) = s := List.intercalate_splitOn 46
  rw [← hsplit] at hb
  refine (mem_intercalate hb).imp_right ?_
  rintro ⟨octet, hoctet, hmem⟩
  have hdigits := h.2 octet hoctet
  simp only [isDecOctet, Bool.and_eq_true, List.all_eq_true] at hdigits
  exact hdigits.1.1 b hmem

theorem cutDoubleColon_eq_none {s : Bytes} (h : 58 ∉ s) : cutDoubleColon s = none := by
  induction s with
  | nil => rfl
  | cons b rest ih =>
    rw [List.mem_cons, not_or] at h
    rw [cutDoubleColon, if_neg, ih h.2]
    · rfl
    · intro htake
      exact h.1 (List.cons.inj htake).1.symm

/-- An IPv6 address has a colon. -/
theorem colon_mem_of_ipv6 {s : Bytes} (h : isIpv6 s = true) : 58 ∈ s := by
  by_contra hno
  rw [isIpv6, cutDoubleColon_eq_none hno, Bool.and_eq_true] at h
  obtain ⟨-, h⟩ := h
  by_cases hnil : s = []
  · simp [hnil, groups, countGroups] at h
  · rw [groups, if_neg hnil, List.splitOn_eq_singleton hno] at h
    dsimp only [countGroups] at h
    split_ifs at h <;> simp at h

theorem colon_notMem_of_regName {s : Bytes} (h : isRegName s = true) : 58 ∉ s := by
  induction s using isRegName.induct with
  | case1 => simp
  | case2 high low rest ih =>
    simp only [isRegName, Bool.and_eq_true] at h
    have hcolon : isHexDigit 58 = false := by decide
    simp only [List.mem_cons, not_or]
    refine ⟨by decide, ?_, ?_, ih h.2⟩
    · rintro rfl
      simp [hcolon] at h
    · rintro rfl
      simp [hcolon] at h
  | case3 b rest hno ih =>
    rw [isRegName, Bool.and_eq_true] at h
    · have hcolon : (isUnreserved 58 || isSubDelim 58) = false := by decide
      rw [List.mem_cons, not_or]
      refine ⟨?_, ih h.2⟩
      rintro rfl
      simp [hcolon] at h
    · exact hno

namespace UriHost

theorem isVchar_bytes (host : UriHost) : ∀ b ∈ host.bytes, isVchar b = true := by
  cases host with
  | regName name => exact isVchar_of_regName name.property
  | ipv4 address =>
    intro b hb
    rcases ipv4_cases address.property b hb with rfl | hdigit
    · rfl
    · exact isVchar_of_digit hdigit
  | ipv6 address =>
    simp only [bytes, List.cons_append, List.forall_mem_cons, List.forall_mem_append]
    exact ⟨rfl, isVchar_of_ipv6 address.property, by simp; rfl⟩

theorem colon_mem_iff (host : UriHost) : 58 ∈ host.bytes ↔ ∃ address, host = .ipv6 address := by
  cases host with
  | regName name => simpa [bytes] using colon_notMem_of_regName name.property
  | ipv4 address =>
    have hno : 58 ∉ address.val := fun hmem =>
      absurd (ipv4_cases address.property 58 hmem) (by decide)
    simpa [bytes] using hno
  | ipv6 address => simp [bytes, colon_mem_of_ipv6 address.property]

end UriHost

end Http
