import VpnGateway.Core.Text
import VpnGateway.Core.Utf8
import VpnGateway.Core.Wire

/-! CONNECT requests as RFC 9112 reads them from a stream of bytes, with the host of RFC 3986 in
their target. -/
namespace Http

open Wire

def isDigit (b : UInt8) : Bool := 48 ≤ b.toNat && b.toNat ≤ 57

def isAlpha (b : UInt8) : Bool :=
  (65 ≤ b.toNat && b.toNat ≤ 90) || (97 ≤ b.toNat && b.toNat ≤ 122)

def isHexDigit (b : UInt8) : Bool :=
  isDigit b || (65 ≤ b.toNat && b.toNat ≤ 70) || (97 ≤ b.toNat && b.toNat ≤ 102)

/-- A character of a token. -/
def isTchar (b : UInt8) : Bool :=
  isDigit b || isAlpha b || (Utf8.encode "!#$%&'*+-.^_`|~").contains b

def isVchar (b : UInt8) : Bool := 33 ≤ b.toNat && b.toNat ≤ 126

/-- A byte of a field value: visible, beyond ASCII, a space or a tab. -/
def isFieldByte (b : UInt8) : Bool := isVchar b || 128 ≤ b.toNat || b == 32 || b == 9

def isUnreserved (b : UInt8) : Bool :=
  isAlpha b || isDigit b || (Utf8.encode "-._~").contains b

def isSubDelim (b : UInt8) : Bool := (Utf8.encode "!$&'()*+,;=").contains b

/-- A registered name: unreserved characters, delimiters and percent-encoded bytes. An IPv4 address
is one, too. -/
def isRegName : Bytes → Bool
  | [] => true
  | 37 :: high :: low :: rest => isHexDigit high && isHexDigit low && isRegName rest
  | b :: rest => (isUnreserved b || isSubDelim b) && isRegName rest

/-- A number from 0 to 255 without leading zeros. -/
def isDecOctet (s : Bytes) : Bool :=
  s.all isDigit && (s.length == 1 || (s.length ≤ 3 && s.head? != some 48 && s != [])) &&
    s.foldl (fun n b => n * 10 + (b.toNat - 48)) 0 ≤ 255

def isIpv4 (s : Bytes) : Bool := (s.splitOn 46).length == 4 && (s.splitOn 46).all isDecOctet

/-- A group of an IPv6 address. -/
def isH16 (s : Bytes) : Bool := s != [] && s.length ≤ 4 && s.all isHexDigit

/-- How many groups these are; an IPv4 address at the end stands for two. -/
def countGroups : List Bytes → Option ℕ
  | [] => some 0
  | [s] => if isH16 s then some 1 else if isIpv4 s then some 2 else none
  | s :: rest => if isH16 s then (countGroups rest).map (· + 1) else none

def groups (s : Bytes) : List Bytes := if s = [] then [] else s.splitOn 58

/-- What stands before and behind the first `::`. -/
def cutDoubleColon : Bytes → Option (Bytes × Bytes)
  | [] => none
  | b :: rest =>
    if (b :: rest).take 2 = [58, 58] then some ([], rest.drop 1)
    else (cutDoubleColon rest).map fun parts => (b :: parts.1, parts.2)

/-- Eight groups, or up to seven around `::`. -/
def isIpv6 (s : Bytes) : Bool :=
  s.all (fun b => isHexDigit b || b == 58 || b == 46) &&
    match cutDoubleColon s with
    | none => countGroups (groups s) == some 8
    | some (left, right) => (groups left).all isH16 &&
        (countGroups (groups right)).any fun n => (groups left).length + n ≤ 7

/-- A version and an address of a kind yet to come. -/
def isIpvFuture (s : Bytes) : Bool :=
  match s with
  | [] => false
  | v :: rest =>
    let version := rest.takeWhile (· ≠ 46)
    let address := (rest.dropWhile (· ≠ 46)).drop 1
    (v == 118 || v == 86) && version != [] && version.all isHexDigit && address != [] &&
      address.all fun b => isUnreserved b || isSubDelim b || b == 58

/-- The host of a URI: an IP address in brackets, or a name. -/
def isUriHost (s : Bytes) : Bool :=
  isRegName s || (s.head? == some 91 && s.getLast? == some 93 &&
    (isIpv6 (s.drop 1).dropLast || isIpvFuture (s.drop 1).dropLast))

/-- At least one digit. -/
def decimal (s : Bytes) : Option ℕ :=
  if s ≠ [] ∧ s.all isDigit then some (s.foldl (fun n b => n * 10 + (b.toNat - 48)) 0) else none

/-- What stands before and behind the first byte `sep`. -/
def cut (sep : UInt8) (s : Bytes) : Option (Bytes × Bytes) :=
  if sep ∈ s then some (s.takeWhile (· ≠ sep), (s.dropWhile (· ≠ sep)).drop 1) else none

/-- A host and a port, behind the last colon. -/
def parseAuthority (s : Bytes) : Option (Bytes × ℕ) := do
  let (port, host) ← cut 58 s.reverse
  let port ← decimal port.reverse
  if isUriHost host.reverse then some (host.reverse, port) else none

/-- Optional whitespace around a value does not belong to it. -/
def trimOws (s : Bytes) : Bytes :=
  (s.dropWhile fun b => b == 32 || b == 9).rdropWhile fun b => b == 32 || b == 9

/-- A field line: its name and its value. -/
def parseField (line : Bytes) : Option (Bytes × Bytes) := do
  let (name, value) ← cut 58 line
  if name ≠ [] ∧ name.all isTchar ∧ value.all isFieldByte then some (name, trimOws value) else none

/-- The method and the target of a request line. -/
def parseRequestLine (line : Bytes) : Option (Bytes × Bytes) := do
  let (method, rest) ← cut 32 line
  let (target, version) ← cut 32 rest
  if method ≠ [] ∧ method.all isTchar ∧ version = Utf8.encode "HTTP/1.1" then some (method, target)
  else none

/-- The lines before the first empty one, and what follows that; `line` has been read since the
last line break. -/
def headFrom (line : Bytes) : Bytes → Option (List Bytes × Bytes)
  | [] => none
  | 13 :: 10 :: rest =>
    if line = [] then some ([], rest)
    else (headFrom [] rest).map fun head => (line :: head.1, head.2)
  | b :: rest => headFrom (line ++ [b]) rest

/-- A CONNECT request. -/
structure Connect where
  host : Bytes
  port : ℕ
  headers : List (Bytes × Bytes)
  deriving DecidableEq

/-- The CONNECT request at the start of a stream, and what follows it. Without a header that
announces content, it ends at the empty line. -/
def parseConnect (s : Bytes) : Option (Connect × Bytes) := do
  let (lines, rest) ← headFrom [] s
  let (method, target) ← parseRequestLine (← lines[0]?)
  let headers ← (lines.drop 1).mapM parseField
  let (host, port) ← parseAuthority target
  if method = Utf8.encode "CONNECT" then some (⟨host, port, headers⟩, rest) else none

example : isUriHost (Utf8.encode "[fe80::1:192.0.2.1]") = true := by decide

theorem cut_append {sep : UInt8} {a : Bytes} (h : sep ∉ a) (b : Bytes) :
    cut sep (a ++ sep :: b) = some (a, b) := by
  have hall := Text.forall_ne_of_notMem h
  rw [cut, if_pos (by simp), List.takeWhile_append_of_pos hall, List.dropWhile_append_of_pos hall]
  simp

theorem headFrom_cons {line : Bytes} {b : UInt8} (hb : b ≠ 13) (rest : Bytes) :
    headFrom line (b :: rest) = headFrom (line ++ [b]) rest := by
  rw [headFrom]
  rintro _ rfl
  exact absurd rfl hb

/-- A line that a line break ends. -/
theorem headFrom_append {line more : Bytes} (hcr : 13 ∉ more) (hne : line ++ more ≠ [])
    (rest : Bytes) : headFrom line (more ++ 13 :: 10 :: rest) =
      (headFrom [] rest).map fun head => ((line ++ more) :: head.1, head.2) := by
  induction more generalizing line with
  | nil =>
    rw [List.append_nil] at hne ⊢
    rw [List.nil_append, headFrom, if_neg hne]
  | cons b more ih =>
    rw [List.mem_cons, not_or] at hcr
    rw [List.cons_append, headFrom_cons (Ne.symm hcr.1), ih hcr.2 (by simp), List.append_assoc,
      List.singleton_append]

theorem isVchar_iff {b : UInt8} : isVchar b = true ↔ 33 ≤ b.toNat ∧ b.toNat ≤ 126 := by
  simp [isVchar]

theorem isVchar_of_digit {b : UInt8} (h : isDigit b = true) : isVchar b = true := by
  simp only [isDigit, Bool.and_eq_true, decide_eq_true_iff] at h
  rw [isVchar_iff]
  omega

theorem isVchar_of_alpha {b : UInt8} (h : isAlpha b = true) : isVchar b = true := by
  simp only [isAlpha, Bool.or_eq_true, Bool.and_eq_true, decide_eq_true_iff] at h
  rw [isVchar_iff]
  omega

theorem isVchar_of_hexDigit {b : UInt8} (h : isHexDigit b = true) : isVchar b = true := by
  simp only [isHexDigit, isDigit, Bool.or_eq_true, Bool.and_eq_true, decide_eq_true_iff] at h
  rw [isVchar_iff]
  omega

theorem isVchar_of_subDelim {b : UInt8} (h : isSubDelim b = true) : isVchar b = true := by
  have hall : (Utf8.encode "!$&'()*+,;=").all isVchar = true := by decide
  exact List.all_eq_true.mp hall b (List.contains_iff_mem.mp h)

theorem isVchar_of_unreserved {b : UInt8} (h : isUnreserved b = true) : isVchar b = true := by
  have hall : (Utf8.encode "-._~").all isVchar = true := by decide
  rw [isUnreserved, Bool.or_eq_true, Bool.or_eq_true] at h
  rcases h with (h | h) | h
  · exact isVchar_of_alpha h
  · exact isVchar_of_digit h
  · exact List.all_eq_true.mp hall b (List.contains_iff_mem.mp h)

theorem isVchar_of_regName {s : Bytes} (h : isRegName s = true) : ∀ b ∈ s, isVchar b = true := by
  induction s using isRegName.induct with
  | case1 => simp
  | case2 high low rest ih =>
    simp only [isRegName, Bool.and_eq_true] at h
    have hpercent : isVchar 37 = true := rfl
    simp only [List.forall_mem_cons]
    exact ⟨hpercent, isVchar_of_hexDigit h.1.1, isVchar_of_hexDigit h.1.2, ih h.2⟩
  | case3 b rest hno ih =>
    rw [isRegName, Bool.and_eq_true, Bool.or_eq_true] at h
    · rw [List.forall_mem_cons]
      exact ⟨h.1.elim isVchar_of_unreserved isVchar_of_subDelim, ih h.2⟩
    · exact hno

theorem isVchar_of_ipv6 {s : Bytes} (h : isIpv6 s = true) : ∀ b ∈ s, isVchar b = true := by
  rw [isIpv6, Bool.and_eq_true, List.all_eq_true] at h
  intro b hb
  have hchar := h.1 b hb
  simp only [Bool.or_eq_true, beq_iff_eq] at hchar
  rcases hchar with (hchar | rfl) | rfl
  · exact isVchar_of_hexDigit hchar
  · rfl
  · rfl

theorem isVchar_of_ipvFuture {s : Bytes} (h : isIpvFuture s = true) :
    ∀ b ∈ s, isVchar b = true := by
  cases s with
  | nil => simp
  | cons v rest =>
    simp only [isIpvFuture, Bool.and_eq_true, Bool.or_eq_true, beq_iff_eq, List.all_eq_true] at h
    obtain ⟨⟨⟨⟨hv, -⟩, hversion⟩, -⟩, haddress⟩ := h
    rw [List.forall_mem_cons, ← List.takeWhile_append_dropWhile (p := (· ≠ 46)) (l := rest),
      List.forall_mem_append]
    refine ⟨by rcases hv with rfl | rfl <;> rfl, fun b hb => isVchar_of_hexDigit (hversion b hb),
      fun b hb => ?_⟩
    have hdot := List.head?_dropWhile_not (fun c : UInt8 => decide (c ≠ 46)) rest
    cases hdrop : rest.dropWhile (fun c => decide (c ≠ 46)) with
    | nil =>
      rw [hdrop] at hb
      cases hb
    | cons c address =>
      rw [hdrop] at hb hdot haddress
      rcases List.mem_cons.mp hb with rfl | hb
      · have heq : b = 46 := by simpa using hdot
        rw [heq]
        rfl
      · rcases haddress b hb with (hchar | hchar) | rfl
        · exact isVchar_of_unreserved hchar
        · exact isVchar_of_subDelim hchar
        · rfl

/-- The host of a URI has visible characters only. -/
theorem isVchar_of_uriHost {s : Bytes} (h : isUriHost s = true) : ∀ b ∈ s, isVchar b = true := by
  simp only [isUriHost, Bool.or_eq_true, Bool.and_eq_true, beq_iff_eq] at h
  rcases h with h | ⟨⟨hhead, hlast⟩, hinner⟩
  · exact isVchar_of_regName h
  · obtain ⟨rest, rfl⟩ := List.head?_eq_some_iff.mp hhead
    obtain ⟨start, hstart⟩ := List.getLast?_eq_some_iff.mp hlast
    cases start with
    | nil => cases hstart
    | cons b inner =>
      rw [List.cons_append, List.cons.injEq] at hstart
      obtain ⟨rfl, rfl⟩ := hstart
      rw [List.drop_succ_cons, List.drop_zero, List.dropLast_concat] at hinner
      have hall := hinner.elim isVchar_of_ipv6 isVchar_of_ipvFuture
      simp only [List.forall_mem_cons, List.forall_mem_append]
      exact ⟨rfl, hall, by simp; rfl⟩

theorem encodeChar_digitChar {d : ℕ} (h : d < 10) :
    String.utf8EncodeChar d.digitChar = [UInt8.ofNat (48 + d)] := by
  interval_cases d <;> rfl

/-- The last digit of a number, and those before it. -/
theorem encode_toString (n : ℕ) : Utf8.encode (toString n) =
    if n < 10 then [UInt8.ofNat (48 + n)]
    else Utf8.encode (toString (n / 10)) ++ [UInt8.ofNat (48 + n % 10)] := by
  have hdigits (m : ℕ) :
      Utf8.encode (toString m) = (Nat.toDigits 10 m).flatMap String.utf8EncodeChar := by
    rw [Utf8.encode, Nat.toString_eq_repr, Nat.repr_eq_ofList_toDigits, String.toList_ofList]
  rw [hdigits, hdigits, Nat.toDigits_eq_if (by norm_num)]
  split_ifs with hlt
  · rw [List.flatMap_singleton, encodeChar_digitChar hlt]
  · rw [List.flatMap_append, List.flatMap_singleton,
      encodeChar_digitChar (Nat.mod_lt n (by norm_num))]

/-- The digits of a number, and their value. -/
theorem digits_toString (n : ℕ) : (∀ b ∈ Utf8.encode (toString n), isDigit b = true) ∧
    (Utf8.encode (toString n)).foldl (fun n b => n * 10 + (b.toNat - 48)) 0 = n := by
  have hdigit {d : ℕ} (h : d < 10) : (UInt8.ofNat (48 + d)).toNat = 48 + d := by
    rw [UInt8.toNat_ofNat', Nat.mod_eq_of_lt (by omega)]
  have hchar {d : ℕ} (h : d < 10) : isDigit (UInt8.ofNat (48 + d)) = true := by
    simp only [isDigit, hdigit h, Bool.and_eq_true, decide_eq_true_iff]
    omega
  induction n using Nat.strong_induction_on with
  | _ n ih =>
    rw [encode_toString]
    split_ifs with hlt
    · refine ⟨by simpa using hchar hlt, ?_⟩
      rw [List.foldl_cons, List.foldl_nil, hdigit hlt]
      omega
    · obtain ⟨hall, hvalue⟩ := ih (n / 10) (by omega)
      have hmod := Nat.mod_lt n (show 10 > 0 by norm_num)
      rw [List.forall_mem_append, List.foldl_append, hvalue, List.foldl_cons, List.foldl_nil,
        hdigit hmod]
      exact ⟨⟨hall, by simpa using hchar hmod⟩, by omega⟩

theorem decimal_toString (n : ℕ) : decimal (Utf8.encode (toString n)) = some n := by
  obtain ⟨hall, hvalue⟩ := digits_toString n
  have hne : Utf8.encode (toString n) ≠ [] := by
    rw [encode_toString]
    split_ifs <;> simp
  rw [decimal, if_pos ⟨hne, List.all_eq_true.mpr hall⟩, hvalue]

theorem trimOws_eq_self {s : Bytes} (h : ∀ b ∈ s, isVchar b = true) : trimOws s = s := by
  have hsome : ∀ b ∈ s, (b == 32 || b == 9) = false := by
    intro b hb
    have hrange := isVchar_iff.mp (h b hb)
    rw [Bool.or_eq_false_iff, beq_eq_false_iff_ne, beq_eq_false_iff_ne]
    constructor
    · rintro rfl
      exact absurd hrange.1 (by decide)
    · rintro rfl
      exact absurd hrange.1 (by decide)
  have hstart : s.dropWhile (fun b => b == 32 || b == 9) = s := by
    rw [List.dropWhile_eq_self_iff]
    intro hlen
    rw [hsome _ (List.getElem_mem hlen)]
    exact Bool.false_ne_true
  rw [trimOws, hstart, List.rdropWhile_eq_self_iff]
  intro hne
  rw [hsome _ (List.getLast_mem hne)]
  exact Bool.false_ne_true

/-- A field whose value has visible characters only, behind a space. -/
theorem parseField_append {name value : Bytes} (hne : name ≠ []) (hname : name.all isTchar = true)
    (hvalue : ∀ b ∈ value, isVchar b = true) :
    parseField (name ++ 58 :: 32 :: value) = some (name, value) := by
  have hcolon : 58 ∉ name := by
    intro hmem
    have := List.all_eq_true.mp hname 58 hmem
    revert this
    decide
  have hfield : (32 :: value).all isFieldByte = true := by
    rw [List.all_eq_true, List.forall_mem_cons]
    refine ⟨rfl, fun b hb => ?_⟩
    rw [isFieldByte, hvalue b hb]
    rfl
  have htrim : trimOws (32 :: value) = value := by
    have hskip : trimOws (32 :: value) = trimOws value := by
      rw [trimOws, trimOws, List.dropWhile_cons_of_pos rfl]
    rw [hskip, trimOws_eq_self hvalue]
  rw [parseField, cut_append hcolon]
  simp only [Option.bind_eq_bind, Option.bind_some]
  rw [if_pos ⟨hne, hname, hfield⟩, htrim]

/-- Every line with its line break, and the empty line. -/
def encodeHead (lines : List Bytes) : Bytes := lines.flatMap (· ++ [13, 10]) ++ [13, 10]

/-- A line of a head is not empty and holds no carriage return. -/
def IsLine (line : Bytes) : Prop := line ≠ [] ∧ 13 ∉ line

theorem headFrom_encodeHead {lines : List Bytes} (h : ∀ line ∈ lines, IsLine line) (rest : Bytes) :
    headFrom [] (encodeHead lines ++ rest) = some (lines, rest) := by
  induction lines with
  | nil => rfl
  | cons line lines ih =>
    obtain ⟨⟨hne, hcr⟩, hlines⟩ := List.forall_mem_cons.mp h
    have hsplit : encodeHead (line :: lines) ++ rest =
        line ++ 13 :: 10 :: (encodeHead lines ++ rest) := by
      simp [encodeHead]
    rw [hsplit, headFrom_append hcr (by simpa using hne), ih hlines]
    rfl

def authority (host : Bytes) (port : ℕ) : Bytes := host ++ 58 :: Utf8.encode (toString port)

theorem isVchar_of_authority {host : Bytes} (h : isUriHost host = true) (port : ℕ) :
    ∀ b ∈ authority host port, isVchar b = true := by
  rw [authority, List.forall_mem_append, List.forall_mem_cons]
  exact ⟨isVchar_of_uriHost h, rfl, fun b hb => isVchar_of_digit ((digits_toString port).1 b hb)⟩

/-- Visible characters are none of those that structure a head. -/
theorem notMem_of_isVchar {s : Bytes} (h : ∀ b ∈ s, isVchar b = true) : 32 ∉ s ∧ 13 ∉ s :=
  ⟨fun hmem => absurd (h 32 hmem) (by decide), fun hmem => absurd (h 13 hmem) (by decide)⟩

theorem parseAuthority_authority {host : Bytes} (h : isUriHost host = true) (port : ℕ) :
    parseAuthority (authority host port) = some (host, port) := by
  have hcolon : 58 ∉ (Utf8.encode (toString port)).reverse := by
    intro hmem
    have := (digits_toString port).1 58 (List.mem_reverse.mp hmem)
    revert this
    decide
  have hreverse : (authority host port).reverse =
      (Utf8.encode (toString port)).reverse ++ 58 :: host.reverse := by
    simp [authority]
  rw [parseAuthority, hreverse, cut_append hcolon]
  simp only [Option.bind_eq_bind, Option.bind_some, List.reverse_reverse, decimal_toString, h,
    if_true]

/-- The request line of a CONNECT request. -/
def connectLine (target : Bytes) : Bytes :=
  Utf8.encode "CONNECT" ++ 32 :: (target ++ 32 :: Utf8.encode "HTTP/1.1")

theorem parseRequestLine_connectLine {target : Bytes} (h : 32 ∉ target) :
    parseRequestLine (connectLine target) = some (Utf8.encode "CONNECT", target) := by
  rw [parseRequestLine, connectLine, cut_append (by decide)]
  simp only [Option.bind_eq_bind, Option.bind_some, cut_append h]
  exact if_pos ⟨by decide, by decide, trivial⟩

theorem isLine_connectLine {target : Bytes} (h : 13 ∉ target) : IsLine (connectLine target) := by
  refine ⟨by simp [connectLine], ?_⟩
  simp only [connectLine, List.mem_append, List.mem_cons, not_or]
  exact ⟨by decide, by decide, h, by decide, by decide⟩

/-- The lines of a CONNECT request are read as what they say. -/
theorem parseConnect_encodeHead {host : Bytes} (hhost : isUriHost host = true) (port : ℕ)
    {fields : List Bytes} (hlines : ∀ line ∈ fields, IsLine line) {headers : List (Bytes × Bytes)}
    (hfields : fields.mapM parseField = some headers) (rest : Bytes) :
    parseConnect (encodeHead (connectLine (authority host port) :: fields) ++ rest) =
      some (⟨host, port, headers⟩, rest) := by
  obtain ⟨hspace, hcr⟩ := notMem_of_isVchar (isVchar_of_authority hhost port)
  have hall : ∀ line ∈ connectLine (authority host port) :: fields, IsLine line :=
    List.forall_mem_cons.mpr ⟨isLine_connectLine hcr, hlines⟩
  rw [parseConnect, headFrom_encodeHead hall]
  simp only [Option.bind_eq_bind, Option.bind_some, List.getElem?_cons_zero, List.drop_succ_cons,
    List.drop_zero, parseRequestLine_connectLine hspace, hfields,
    parseAuthority_authority hhost port, if_true]

/-- The host of a request that has been read is the host of a URI. -/
theorem isUriHost_of_parseConnect {s rest : Bytes} {request : Connect}
    (h : parseConnect s = some (request, rest)) : isUriHost request.host = true := by
  simp only [parseConnect, Option.bind_eq_bind, Option.bind_eq_some_iff] at h
  obtain ⟨⟨lines, rest'⟩, -, start, -, ⟨method, target⟩, -, headers, -, ⟨host, port⟩, htarget,
    h⟩ := h
  obtain ⟨-, heq⟩ := Option.ite_none_right_eq_some.mp h
  simp only [parseAuthority, Option.bind_eq_bind, Option.bind_eq_some_iff] at htarget
  obtain ⟨⟨digits, name⟩, -, value, -, htarget⟩ := htarget
  obtain ⟨hhost, hpair⟩ := Option.ite_none_right_eq_some.mp htarget
  cases heq
  cases hpair
  exact hhost

end Http
