import VpnGateway.Core.Tls
import VpnGateway.Proxy.Sniff

/-! Where `parse_tls_sni` takes the server name from, and what a ClientHello that has arrived in
part only yields. -/
namespace VpnGateway

open Wire

/-- The extensions at `pos` lead to a host name of so many bytes at `start`, all of it before the
limit. -/
inductive NameInExtensions (buf : Bytes) (limit : ℕ) : ℕ → ℕ → ℕ → Prop
  | here {pos len : ℕ} (hlimit : pos + 9 + len ≤ limit) (htype : u16At buf pos = some 0)
      (hentry : buf[pos + 6]? = some 0) (hlen : u16At buf (pos + 7) = some len) :
      NameInExtensions buf limit pos (pos + 9) len
  | next {pos extType extLen start len : ℕ} (hlimit : pos + 4 ≤ limit)
      (htype : u16At buf pos = some extType) (hne : extType ≠ 0)
      (hlen : u16At buf (pos + 2) = some extLen)
      (hrest : NameInExtensions buf limit (pos + 4 + extLen) start len) :
      NameInExtensions buf limit pos start len

/-- The lengths of the lists of a ClientHello. -/
structure HelloLengths where
  sessionId : UInt8
  cipherSuites : ℕ
  compression : UInt8
  extensions : ℕ

namespace HelloLengths

def cipherSuitesPos (l : HelloLengths) : ℕ := 44 + l.sessionId.toNat

def compressionPos (l : HelloLengths) : ℕ := l.cipherSuitesPos + (2 + l.cipherSuites)

def extensionsPos (l : HelloLengths) : ℕ := l.compressionPos + (1 + l.compression.toNat)

/-- The bytes begin a ClientHello that has these lengths. -/
structure ReadFrom (l : HelloLengths) (buf : Bytes) : Prop where
  handshake : buf[0]? = some 0x16
  clientHello : buf[5]? = some 0x01
  sessionId : buf[43]? = some l.sessionId
  cipherSuites : u16At buf l.cipherSuitesPos = some l.cipherSuites
  compression : buf[l.compressionPos]? = some l.compression
  extensions : u16At buf l.extensionsPos = some l.extensions

end HelloLengths

/-- The bytes begin a ClientHello up to the end of its server name, of so many bytes at
`start`. -/
def ServerNameAt (buf : Bytes) (start len : ℕ) : Prop :=
  ∃ l : HelloLengths, l.ReadFrom buf ∧
    NameInExtensions buf (min (l.extensionsPos + 2 + l.extensions) buf.length)
      (l.extensionsPos + 2) start len

theorem getElem?_append_of_eq_some {buf : Bytes} {pos : ℕ} {b : UInt8} (h : buf[pos]? = some b)
    (more : Bytes) : (buf ++ more)[pos]? = some b := by
  obtain ⟨hlt, -⟩ := List.getElem?_eq_some_iff.mp h
  rw [List.getElem?_append_left hlt, h]

theorem u16At_eq_some_iff {buf : Bytes} {pos n : ℕ} : u16At buf pos = some n ↔
    ∃ high low, buf[pos]? = some high ∧ buf[pos + 1]? = some low ∧ fromBe16 high low = n := by
  unfold u16At
  simp only [Option.bind_eq_bind, Option.pure_def, Option.bind_eq_some_iff, Option.some.injEq]
  constructor
  · rintro ⟨high, hhigh, low, hlow, heq⟩
    exact ⟨high, low, hhigh, hlow, heq⟩
  · rintro ⟨high, low, hhigh, hlow, heq⟩
    exact ⟨high, hhigh, low, hlow, heq⟩

theorem u16At_append {buf : Bytes} {pos n : ℕ} (h : u16At buf pos = some n) (more : Bytes) :
    u16At (buf ++ more) pos = some n := by
  obtain ⟨high, low, hhigh, hlow, heq⟩ := u16At_eq_some_iff.mp h
  exact u16At_eq_some_iff.mpr ⟨high, low, getElem?_append_of_eq_some hhigh more,
    getElem?_append_of_eq_some hlow more, heq⟩

theorem exists_getElem? (buf : Bytes) (pos : ℕ) (h : pos < buf.length) : ∃ b, buf[pos]? = some b :=
  ⟨_, List.getElem?_eq_getElem h⟩

theorem exists_u16At (buf : Bytes) (pos : ℕ) (h : pos + 2 ≤ buf.length) :
    ∃ n, u16At buf pos = some n :=
  ⟨_, u16At_eq_some_iff.mpr ⟨_, _, List.getElem?_eq_getElem (by omega),
    List.getElem?_eq_getElem (by omega), rfl⟩⟩

theorem u16At_le {buf : Bytes} {pos n : ℕ} (h : u16At buf pos = some n) :
    pos + 2 ≤ buf.length := by
  obtain ⟨-, low, -, hlow, -⟩ := u16At_eq_some_iff.mp h
  obtain ⟨hlt, -⟩ := List.getElem?_eq_some_iff.mp hlow
  omega

namespace NameInExtensions

theorem le_limit {buf : Bytes} {limit pos start len : ℕ}
    (h : NameInExtensions buf limit pos start len) : start + len ≤ limit := by
  induction h with
  | here hlimit => exact hlimit
  | next _ _ _ _ _ ih => exact ih

/-- More bytes, and a limit farther behind, leave a name where it is. -/
theorem append {buf : Bytes} {limit limit' pos start len : ℕ}
    (h : NameInExtensions buf limit pos start len) (hle : limit ≤ limit') (more : Bytes) :
    NameInExtensions (buf ++ more) limit' pos start len := by
  induction h with
  | here hlimit htype hentry hlen =>
    exact .here (hlimit.trans hle) (u16At_append htype more)
      (getElem?_append_of_eq_some hentry more) (u16At_append hlen more)
  | next hlimit htype hne hlen _ ih =>
    exact .next (hlimit.trans hle) (u16At_append htype more) hne (u16At_append hlen more) ih

theorem unique {buf : Bytes} {limit limit' pos start len start' len' : ℕ}
    (h : NameInExtensions buf limit pos start len)
    (h' : NameInExtensions buf limit' pos start' len') : start = start' ∧ len = len' := by
  induction h with
  | here _ htype _ hlen =>
    cases h' with
    | here _ _ _ hlen' => exact ⟨rfl, Option.some.inj (hlen.symm.trans hlen')⟩
    | next _ htype' hne => exact absurd (Option.some.inj (htype'.symm.trans htype)) hne
  | next _ htype hne hlen _ ih =>
    cases h' with
    | here _ htype' => exact absurd (Option.some.inj (htype.symm.trans htype')) hne
    | next _ _ _ hlen' hrest' =>
      cases Option.some.inj (hlen.symm.trans hlen')
      exact ih hrest'

end NameInExtensions

theorem HelloLengths.ReadFrom.append {l : HelloLengths} {buf : Bytes} (h : l.ReadFrom buf)
    (more : Bytes) : l.ReadFrom (buf ++ more) where
  handshake := getElem?_append_of_eq_some h.handshake more
  clientHello := getElem?_append_of_eq_some h.clientHello more
  sessionId := getElem?_append_of_eq_some h.sessionId more
  cipherSuites := u16At_append h.cipherSuites more
  compression := getElem?_append_of_eq_some h.compression more
  extensions := u16At_append h.extensions more

theorem HelloLengths.ReadFrom.unique {l l' : HelloLengths} {buf : Bytes} (h : l.ReadFrom buf)
    (h' : l'.ReadFrom buf) : l = l' := by
  obtain ⟨sessionId, cipherSuites, compression, extensions⟩ := l
  obtain ⟨sessionId', cipherSuites', compression', extensions'⟩ := l'
  cases Option.some.inj (h.sessionId.symm.trans h'.sessionId)
  cases Option.some.inj (h.cipherSuites.symm.trans h'.cipherSuites)
  cases Option.some.inj (h.compression.symm.trans h'.compression)
  cases Option.some.inj (h.extensions.symm.trans h'.extensions)
  rfl

namespace ServerNameAt

theorem le_length {buf : Bytes} {start len : ℕ} (h : ServerNameAt buf start len) :
    start + len ≤ buf.length := by
  obtain ⟨l, -, hname⟩ := h
  exact hname.le_limit.trans (Nat.min_le_right _ _)

/-- The name stays where it is when more bytes arrive. -/
theorem append {buf : Bytes} {start len : ℕ} (h : ServerNameAt buf start len) (more : Bytes) :
    ServerNameAt (buf ++ more) start len := by
  obtain ⟨l, hread, hname⟩ := h
  refine ⟨l, hread.append more, hname.append ?_ more⟩
  exact min_le_min_left _ (by simp)

theorem unique {buf : Bytes} {start len start' len' : ℕ} (h : ServerNameAt buf start len)
    (h' : ServerNameAt buf start' len') : start = start' ∧ len = len' := by
  obtain ⟨l, hread, hname⟩ := h
  obtain ⟨l', hread', hname'⟩ := h'
  cases hread.unique hread'
  exact hname.unique hname'

end ServerNameAt

/-- The text of so many bytes at `start`, if they are UTF-8. -/
def nameAt (buf : Bytes) (start len : ℕ) : Option String :=
  ((slice buf start len).bind Utf8.decode).map String.ofList

/-- The first entry is taken if it is a host name within the limit. -/
theorem parseServerName_cases {buf : Bytes} {limit : ℕ} (hlimit : limit ≤ buf.length) (pos : ℕ) :
    (∃ len, pos + 5 + len ≤ limit ∧ buf[pos + 2]? = some 0 ∧ u16At buf (pos + 3) = some len ∧
      parseServerName buf limit pos = some (nameAt buf (pos + 5) len)) ∨
    ((∀ len, pos + 5 + len ≤ limit → buf[pos + 2]? = some 0 → u16At buf (pos + 3) ≠ some len) ∧
      parseServerName buf limit pos = some none) := by
  by_cases hshort : limit < pos + 5
  · refine .inr ⟨fun len hle => absurd hle (by omega), ?_⟩
    rw [parseServerName, if_pos hshort]
    rfl
  · obtain ⟨listLen, hlist⟩ := exists_u16At buf pos (by omega)
    obtain ⟨nameLen, hname⟩ := exists_u16At buf (pos + 3) (by omega)
    obtain ⟨entry, hentry⟩ := exists_getElem? buf (pos + 2) (by omega)
    rw [parseServerName, if_neg hshort, hlist, hentry, hname]
    by_cases htake : entry = 0 ∧ pos + 5 + nameLen ≤ limit
    · have hslice : slice buf (pos + 5) nameLen = some ((buf.drop (pos + 5)).take nameLen) :=
        if_pos (htake.2.trans hlimit)
      refine .inl ⟨nameLen, htake.2, by rw [htake.1], rfl, ?_⟩
      simp only [Option.bind_eq_bind, Option.bind_some, if_pos htake, nameAt, hslice,
        Option.pure_def]
    · refine .inr ⟨fun len hle hzero hlen => htake ?_, ?_⟩
      · cases Option.some.inj hlen
        exact ⟨Option.some.inj hzero, hle⟩
      · simp only [Option.bind_eq_bind, Option.bind_some, if_neg htake, Option.pure_def]

theorem scanExtensions_cases {buf : Bytes} {limit : ℕ} (hlimit : limit ≤ buf.length) (pos : ℕ) :
    (∃ start len, NameInExtensions buf limit pos start len ∧
      scanExtensions buf limit pos = some (nameAt buf start len)) ∨
    ((∀ start len, ¬NameInExtensions buf limit pos start len) ∧
      scanExtensions buf limit pos = some none) := by
  induction pos using scanExtensions.induct limit with
  | case1 pos hmore ih =>
    obtain ⟨extType, htype⟩ := exists_u16At buf pos (by omega)
    obtain ⟨extLen, hlen⟩ := exists_u16At buf (pos + 2) (by omega)
    rw [scanExtensions, if_pos hmore, htype, hlen]
    simp only [Option.bind_eq_bind, Option.bind_some]
    by_cases hzero : extType = 0
    · cases hzero
      rw [if_pos rfl]
      rcases parseServerName_cases hlimit (pos + 4) with ⟨len, hle, hentry, hname, heq⟩ | ⟨hno, heq⟩
      · exact .inl ⟨pos + 9, len, .here hle htype hentry hname, heq⟩
      · refine .inr ⟨fun start len h => ?_, heq⟩
        cases h with
        | here hle _ hentry hname => exact hno len hle hentry hname
        | next _ htype' hne => exact hne (Option.some.inj (htype'.symm.trans htype))
    · rw [if_neg hzero]
      rcases ih extLen with ⟨start, len, hname, heq⟩ | ⟨hno, heq⟩
      · exact .inl ⟨start, len, .next hmore htype hzero hlen hname, heq⟩
      · refine .inr ⟨fun start len h => ?_, heq⟩
        cases h with
        | here _ htype' => exact hzero (Option.some.inj (htype.symm.trans htype'))
        | next _ _ _ hlen' hrest =>
          cases Option.some.inj (hlen'.symm.trans hlen)
          exact hno _ _ hrest
  | case2 pos hend =>
    rw [scanExtensions, if_neg hend]
    refine .inr ⟨fun start len h => ?_, rfl⟩
    cases h with
    | here hle => omega
    | next hle => exact hend hle

/-- The positions of the lists are within the bytes that they are read from. -/
theorem HelloLengths.ReadFrom.le_length {l : HelloLengths} {buf : Bytes} (h : l.ReadFrom buf) :
    43 < buf.length ∧ l.cipherSuitesPos + 2 ≤ buf.length ∧ l.compressionPos + 1 ≤ buf.length ∧
      l.extensionsPos + 2 ≤ buf.length := by
  obtain ⟨hsession, -⟩ := List.getElem?_eq_some_iff.mp h.sessionId
  obtain ⟨hcompression, -⟩ := List.getElem?_eq_some_iff.mp h.compression
  exact ⟨hsession, u16At_le h.cipherSuites, hcompression, u16At_le h.extensions⟩

/-- The loop over the extensions is reached if and only if the lists can be read. -/
theorem parseTlsSni_eq (buf : Bytes) :
    (∃ l : HelloLengths, l.ReadFrom buf ∧ parseTlsSni buf = scanExtensions buf
      (min (l.extensionsPos + 2 + l.extensions) buf.length) (l.extensionsPos + 2)) ∨
    ((∀ l : HelloLengths, ¬l.ReadFrom buf) ∧ parseTlsSni buf = some none) := by
  unfold parseTlsSni
  simp only [Option.bind_eq_bind, Option.pure_def]
  by_cases h43 : buf.length < 43
  · exact .inr ⟨fun l h => by have := h.le_length.1; omega, if_pos h43⟩
  obtain ⟨b0, h0⟩ := exists_getElem? buf 0 (by omega)
  obtain ⟨b5, h5⟩ := exists_getElem? buf 5 (by omega)
  obtain ⟨recordLen, h3⟩ := exists_u16At buf 3 (by omega)
  rw [if_neg h43, h0, h3, h5]
  simp only [Option.bind_some]
  by_cases hb0 : b0 ≠ 0x16
  · exact .inr ⟨fun l h => hb0 (Option.some.inj (h0.symm.trans h.handshake)), if_pos hb0⟩
  rw [if_neg hb0]
  by_cases hb5 : b5 ≠ 0x01
  · exact .inr ⟨fun l h => hb5 (Option.some.inj (h5.symm.trans h.clientHello)), if_pos hb5⟩
  rw [if_neg hb5]
  by_cases h44 : buf.length ≤ 43
  · exact .inr ⟨fun l h => by have := h.le_length.1; omega, if_pos h44⟩
  obtain ⟨sessionId, hsession⟩ := exists_getElem? buf 43 (by omega)
  rw [if_neg h44, hsession]
  simp only [Option.bind_some]
  have hcipherPos : 5 + 4 + 2 + 32 + (1 + sessionId.toNat) = 44 + sessionId.toNat := by omega
  rw [hcipherPos]
  have hsame1 (l : HelloLengths) (h : l.ReadFrom buf) :
      l.cipherSuitesPos = 44 + sessionId.toNat := by
    rw [HelloLengths.cipherSuitesPos, Option.some.inj (h.sessionId.symm.trans hsession)]
  generalize hpos1 : 44 + sessionId.toNat = pos1 at hsame1
  by_cases h1 : buf.length < pos1 + 2
  · exact .inr ⟨fun l h => by have := h.le_length.2.1; rw [hsame1 l h] at this; omega, if_pos h1⟩
  obtain ⟨cipherSuites, hcipher⟩ := exists_u16At buf pos1 (by omega)
  rw [if_neg h1, hcipher]
  simp only [Option.bind_some]
  have hsame2 (l : HelloLengths) (h : l.ReadFrom buf) :
      l.compressionPos = pos1 + (2 + cipherSuites) := by
    have heq := h.cipherSuites
    rw [hsame1 l h, hcipher] at heq
    rw [HelloLengths.compressionPos, hsame1 l h, Option.some.inj heq]
  generalize hpos2 : pos1 + (2 + cipherSuites) = pos2 at hsame2
  by_cases h2 : buf.length < pos2 + 1
  · exact .inr ⟨fun l h => by have := h.le_length.2.2.1; rw [hsame2 l h] at this; omega, if_pos h2⟩
  obtain ⟨compression, hcompression⟩ := exists_getElem? buf pos2 (by omega)
  rw [if_neg h2, hcompression]
  simp only [Option.bind_some]
  have hsame3 (l : HelloLengths) (h : l.ReadFrom buf) :
      l.extensionsPos = pos2 + (1 + compression.toNat) := by
    have heq := h.compression
    rw [hsame2 l h, hcompression] at heq
    rw [HelloLengths.extensionsPos, hsame2 l h, Option.some.inj heq]
  generalize hpos3 : pos2 + (1 + compression.toNat) = pos3 at hsame3
  by_cases h3 : buf.length < pos3 + 2
  · exact .inr ⟨fun l h => by have := h.le_length.2.2.2; rw [hsame3 l h] at this; omega, if_pos h3⟩
  obtain ⟨extensions, hextensions⟩ := exists_u16At buf pos3 (by omega)
  rw [if_neg h3, hextensions]
  subst hpos1 hpos2 hpos3
  exact .inl ⟨⟨sessionId, cipherSuites, compression, extensions⟩,
    ⟨by rw [h0, not_not.mp hb0], by rw [h5, not_not.mp hb5], hsession, hcipher, hcompression,
      hextensions⟩, rfl⟩

/-- `parse_tls_sni` never panics. It takes the name where a ClientHello leads to it. -/
theorem parseTlsSni_cases (buf : Bytes) :
    (∃ start len, ServerNameAt buf start len ∧ parseTlsSni buf = some (nameAt buf start len)) ∨
    ((∀ start len, ¬ServerNameAt buf start len) ∧ parseTlsSni buf = some none) := by
  rcases parseTlsSni_eq buf with ⟨l, hread, heq⟩ | ⟨hno, heq⟩
  · have hlimit : min (l.extensionsPos + 2 + l.extensions) buf.length ≤ buf.length :=
      Nat.min_le_right _ _
    rw [heq]
    rcases scanExtensions_cases hlimit (l.extensionsPos + 2) with
      ⟨start, len, hname, hscan⟩ | ⟨hno, hscan⟩
    · exact .inl ⟨start, len, ⟨l, hread, hname⟩, hscan⟩
    · refine .inr ⟨fun start len h => ?_, hscan⟩
      obtain ⟨l', hread', hname⟩ := h
      cases hread.unique hread'
      exact hno start len hname
  · exact .inr ⟨fun start len h => hno _ h.choose_spec.1, heq⟩

/-! The position of the name in a ClientHello. -/

theorem getElem?_length_append (a : Bytes) (b : UInt8) (rest : Bytes) :
    (a ++ b :: rest)[a.length]? = some b := by
  simp

theorem u16At_length_append (a : Bytes) {n : ℕ} (h : n < 65536) (rest : Bytes) :
    u16At (a ++ (be16 n ++ rest)) a.length = some n := by
  refine u16At_eq_some_iff.mpr ⟨_, _, getElem?_length_append a _ _, ?_, fromBe16_be16 h⟩
  have hsplit : a ++ (be16 n ++ rest) =
      (a ++ [UInt8.ofNat (n / 256)]) ++ UInt8.ofNat n :: rest := by simp [be16]
  have hlen : a.length + 1 = (a ++ [UInt8.ofNat (n / 256)]).length := by simp
  rw [hsplit, hlen, getElem?_length_append]

/-- The lengths that a ClientHello announces. -/
def helloLengths (hello : Tls.ClientHello) : HelloLengths :=
  ⟨UInt8.ofNat hello.sessionId.val.length, hello.cipherSuiteBytes.length,
    UInt8.ofNat hello.compressionMethods.val.length, hello.extensionBytes.length⟩

theorem readFrom_record (record : Tls.Record) (tail : Bytes) :
    (helloLengths record.hello).ReadFrom (record.fixed ++ record.hello.lists ++ tail) ∧
    (helloLengths record.hello).extensionsPos + 2 =
      (record.fixed ++ record.hello.lists).length := by
  let hello := record.hello
  have hfixed : record.fixed.length = 43 := record.length_fixed
  have hsession : (UInt8.ofNat hello.sessionId.val.length).toNat = hello.sessionId.val.length := by
    rw [UInt8.toNat_ofNat', Nat.mod_eq_of_lt hello.sessionId.property]
  have hcompression : (UInt8.ofNat hello.compressionMethods.val.length).toNat =
      hello.compressionMethods.val.length := by
    rw [UInt8.toNat_ofNat', Nat.mod_eq_of_lt hello.compressionMethods.property]
  have hcipher : hello.cipherSuiteBytes.length < 65536 := by
    rw [Tls.ClientHello.cipherSuiteBytes, List.length_flatMap]
    have := hello.cipherSuites.property
    simpa [mul_comm] using this
  let upToSession := record.fixed ++ UInt8.ofNat hello.sessionId.val.length :: hello.sessionId.val
  let upToCiphers := upToSession ++
    (be16 hello.cipherSuiteBytes.length ++ hello.cipherSuiteBytes)
  let upToCompression := upToCiphers ++
    UInt8.ofNat hello.compressionMethods.val.length :: hello.compressionMethods.val
  have hpos1 : (helloLengths hello).cipherSuitesPos = upToSession.length := by
    rw [HelloLengths.cipherSuitesPos, helloLengths, hsession, List.length_append, hfixed,
      List.length_cons]
    omega
  have hpos2 : (helloLengths hello).compressionPos = upToCiphers.length := by
    rw [HelloLengths.compressionPos, hpos1]
    simp only [upToCiphers, List.length_append, length_be16, helloLengths]
  have hpos3 : (helloLengths hello).extensionsPos = upToCompression.length := by
    rw [HelloLengths.extensionsPos, hpos2, helloLengths, hcompression]
    simp only [upToCompression, List.length_append, List.length_cons]
    omega
  have hlists : record.fixed ++ record.hello.lists =
      upToCompression ++ be16 hello.extensionBytes.length := by
    simp only [upToCompression, upToCiphers, upToSession, Tls.ClientHello.lists, List.append_assoc,
      List.cons_append, hello]
  refine ⟨⟨rfl, rfl, ?_, ?_, ?_, ?_⟩, ?_⟩
  · show _ = some (UInt8.ofNat hello.sessionId.val.length)
    rw [← hfixed, Tls.ClientHello.lists, List.append_assoc, List.cons_append]
    exact getElem?_length_append _ _ _
  · rw [hpos1, hlists]
    simp only [upToCompression, upToCiphers, List.append_assoc]
    exact u16At_length_append _ hcipher _
  · rw [hpos2, hlists]
    simp only [upToCompression, List.append_assoc, List.cons_append]
    exact getElem?_length_append _ _ _
  · rw [hpos3, hlists, List.append_assoc]
    exact u16At_length_append _ hello.extensions.property _
  · rw [hpos3, hlists]
    simp only [List.length_append, length_be16]

/-- Extensions of other types are passed over. -/
theorem NameInExtensions.passes {extensions : List Tls.Extension}
    (hother : ∀ ext ∈ extensions, ext.type ≠ Tls.serverNameType) {before after : Bytes}
    {limit start len : ℕ}
    (hlimit : (before ++ extensions.flatMap Tls.Extension.encode).length ≤ limit)
    (h : NameInExtensions (before ++ extensions.flatMap Tls.Extension.encode ++ after) limit
      (before ++ extensions.flatMap Tls.Extension.encode).length start len) :
    NameInExtensions (before ++ extensions.flatMap Tls.Extension.encode ++ after) limit
      before.length start len := by
  induction extensions generalizing before with
  | nil => simpa using h
  | cons ext extensions ih =>
    obtain ⟨hne, hother⟩ := List.forall_mem_cons.mp hother
    have hsplit : before ++ (ext :: extensions).flatMap Tls.Extension.encode =
        before ++ ext.encode ++ extensions.flatMap Tls.Extension.encode := by
      rw [List.flatMap_cons, List.append_assoc]
    rw [hsplit] at h hlimit ⊢
    have hnext := ih hother hlimit h
    have hlen : (before ++ ext.encode).length = before.length + 4 + ext.data.val.length := by
      rw [List.length_append, ext.length_encode, Nat.add_assoc]
    rw [hlen] at hnext
    have hbytes : before ++ ext.encode ++ extensions.flatMap Tls.Extension.encode ++ after =
        before ++ (be16 ext.type.toNat ++ (be16 ext.data.val.length ++ (ext.data.val ++
          (extensions.flatMap Tls.Extension.encode ++ after)))) := by
      simp only [Tls.Extension.encode, List.append_assoc]
    have htype : u16At (before ++ ext.encode ++ extensions.flatMap Tls.Extension.encode ++ after)
        before.length = some ext.type.toNat := by
      rw [hbytes]
      exact u16At_length_append before ext.type.toNat_lt _
    have hdata : u16At (before ++ ext.encode ++ extensions.flatMap Tls.Extension.encode ++ after)
        (before.length + 2) = some ext.data.val.length := by
      have hpos : before.length + 2 = (before ++ be16 ext.type.toNat).length := by simp
      rw [hbytes, hpos, ← List.append_assoc before]
      exact u16At_length_append _ ext.data.property _
    have hnonzero : ext.type.toNat ≠ 0 := fun h0 => hne (UInt16.toNat_inj.mp h0)
    have hle : before.length + 4 ≤ limit := by
      rw [List.length_append, hlen] at hlimit
      omega
    exact .next hle htype hnonzero hdata hnext

/-- The entry of the extension, with nothing behind the name. -/
theorem NameInExtensions.of_entry (before : Bytes) {extLen listLen : ℕ} {name : Bytes}
    (hname : name.length < 65536) {limit : ℕ} :
    let upTo := before ++ (be16 0 ++ (be16 extLen ++ (be16 listLen ++ 0 ::
      (be16 name.length ++ name))))
    upTo.length ≤ limit →
      NameInExtensions upTo limit before.length (before.length + 9) name.length := by
  intro upTo hlimit
  have hentry : upTo = before ++ (be16 0 ++ (be16 extLen ++ be16 listLen)) ++ 0 ::
      (be16 name.length ++ name) := by
    simp only [upTo, List.append_assoc]
  have hlen : upTo = before ++ (be16 0 ++ (be16 extLen ++ (be16 listLen ++ [0]))) ++
      (be16 name.length ++ name) := by
    simp only [upTo, List.append_assoc, List.cons_append, List.nil_append]
  refine .here ?_ (u16At_length_append before (by omega) _) ?_ ?_
  · simpa [upTo, Nat.add_comm, Nat.add_left_comm] using hlimit
  · have hpos : before.length + 6 =
        (before ++ (be16 0 ++ (be16 extLen ++ be16 listLen))).length := by
      simp
    rw [hpos, hentry]
    exact getElem?_length_append _ _ _
  · have hpos : before.length + 7 =
        (before ++ (be16 0 ++ (be16 extLen ++ (be16 listLen ++ [0])))).length := by
      simp
    rw [hpos, hlen]
    exact u16At_length_append _ hname _

theorem nameAt_length_append (before : Bytes) (s : String) (after : Bytes) :
    nameAt (before ++ (Utf8.encode s ++ after)) before.length (Utf8.encode s).length = some s := by
  have hfit : before.length + (Utf8.encode s).length ≤
      (before ++ (Utf8.encode s ++ after)).length := by
    simp only [List.length_append]
    omega
  rw [nameAt, slice, if_pos hfit, List.drop_left, List.take_left, Option.bind_some,
    Utf8.decode_encode, Option.map_some, String.ofList_toList]

/-- A name that lies within the bytes is there whatever follows. -/
theorem nameAt_append {buf : Bytes} {start len : ℕ} (h : start + len ≤ buf.length) (more : Bytes) :
    nameAt (buf ++ more) start len = nameAt buf start len := by
  have hfit : start + len ≤ (buf ++ more).length := by
    rw [List.length_append]
    omega
  rw [nameAt, nameAt, slice, slice, if_pos h, if_pos hfit,
    List.drop_append_of_le_length (by omega), List.take_append_of_le_length]
  rw [List.length_drop]
  omega

/-- The bytes of a record up to the end of the host name lead to it. -/
theorem serverNameAt_record {record : Tls.Record} {ext : Tls.Extension}
    (hext : record.hello.serverName = some ext) {s : String} {more : Bytes}
    (hdata : ext.data.val = Tls.hostNameFirst (Utf8.encode s) more) :
    ∃ upTo after, record.encode = upTo ++ after ∧
      upTo.length = record.nameStart + (Utf8.encode s).length ∧
      ServerNameAt upTo record.nameStart (Utf8.encode s).length ∧
      nameAt upTo record.nameStart (Utf8.encode s).length = some s := by
  obtain ⟨htype, after, hbytes⟩ := Tls.ClientHello.extensionBytes_eq hext
  let head := record.fixed ++ record.hello.lists
  let others := record.hello.beforeServerName.flatMap Tls.Extension.encode
  let listLen := 3 + (Utf8.encode s).length + more.length
  let entry := be16 0 ++ (be16 ext.data.val.length ++ (be16 listLen ++ 0 ::
    (be16 (Utf8.encode s).length ++ Utf8.encode s)))
  have hnameLen : (Utf8.encode s).length < 65536 := by
    have hfits := ext.data.property
    rw [hdata, Tls.length_hostNameFirst] at hfits
    omega
  have hentryLen : entry.length = 9 + (Utf8.encode s).length := by
    simp only [entry, List.length_append, List.length_cons, length_be16]
    omega
  have hencode : ext.encode ++ after = entry ++ (more ++ after) := by
    simp only [Tls.Extension.encode, htype, hdata, Tls.hostNameFirst, entry, List.append_assoc,
      List.cons_append, Tls.serverNameType, UInt16.toNat_zero, listLen]
  have hstart : record.nameStart = (head ++ others).length + 9 := rfl
  have hexts : record.hello.extensionBytes.length =
      others.length + entry.length + (more ++ after).length := by
    rw [hbytes, hencode]
    simp only [List.length_append, others, Nat.add_assoc]
  obtain ⟨hread, hpos⟩ := readFrom_record record (others ++ entry)
  rw [← List.append_assoc] at hread
  have hlimit : (head ++ others ++ entry).length ≤
      min ((helloLengths record.hello).extensionsPos + 2 +
        (helloLengths record.hello).extensions) (head ++ others ++ entry).length := by
    refine le_min ?_ le_rfl
    rw [hpos, helloLengths, hexts]
    simp only [head, List.length_append]
    omega
  have hname := NameInExtensions.of_entry (head ++ others) hnameLen hlimit
  have hother : ∀ ext ∈ record.hello.beforeServerName, ext.type ≠ Tls.serverNameType :=
    fun ext hmem => by simpa using List.mem_takeWhile_imp hmem
  have hpass := hname.passes hother ((by simp [others] : _ ≤ _).trans hlimit)
  refine ⟨head ++ others ++ entry, more ++ after, ?_, ?_, ?_, ?_⟩
  · rw [Tls.Record.encode_eq, hbytes, hencode]
    simp only [head, others, List.append_assoc]
  · rw [List.length_append, hentryLen, hstart]
    omega
  · refine ⟨helloLengths record.hello, hread, ?_⟩
    rw [hpos] at hpass ⊢
    exact hpass
  · have hbefore : head ++ others ++ entry = head ++ others ++ (be16 0 ++
        (be16 ext.data.val.length ++ (be16 listLen ++ 0 :: be16 (Utf8.encode s).length))) ++
        (Utf8.encode s ++ []) := by
      simp only [entry, List.append_assoc, List.cons_append, List.append_nil]
    have hlen : record.nameStart = (head ++ others ++ (be16 0 ++ (be16 ext.data.val.length ++
        (be16 listLen ++ 0 :: be16 (Utf8.encode s).length)))).length := by
      rw [hstart]
      simp only [List.length_append, List.length_cons, length_be16]
    rw [hbefore, hlen]
    exact nameAt_length_append _ s []

/-- Of a ClientHello whose first `server_name` extension begins with a host name, any part from
the start yields the whole name if it reaches the name's end, and nothing otherwise. -/
theorem parseTlsSni_prefix {record : Tls.Record} {ext : Tls.Extension}
    (hext : record.hello.serverName = some ext) {s : String} {more : Bytes}
    (hdata : ext.data.val = Tls.hostNameFirst (Utf8.encode s) more) {rest b : Bytes}
    (hb : b <+: record.encode ++ rest) :
    parseTlsSni b =
      some (if record.nameStart + (Utf8.encode s).length ≤ b.length then some s else none) := by
  obtain ⟨upTo, after, hencode, hlen, hname, htext⟩ := serverNameAt_record hext hdata
  have hprefix : upTo <+: record.encode ++ rest :=
    ⟨after ++ rest, by rw [hencode, List.append_assoc]⟩
  rw [← hlen]
  split_ifs with hreach
  · obtain ⟨between, rfl⟩ := List.prefix_of_prefix_length_le hprefix hb hreach
    have hname' := hname.append between
    rcases parseTlsSni_cases (upTo ++ between) with ⟨start, len, hat, heq⟩ | ⟨hno, -⟩
    · obtain ⟨rfl, rfl⟩ := hat.unique hname'
      rw [heq, nameAt_append hname.le_length, htext]
    · exact absurd hname' (hno _ _)
  · rcases parseTlsSni_cases b with ⟨start, len, hat, -⟩ | ⟨-, heq⟩
    · -- the whole stream would lead to two names that end at different places
      obtain ⟨tail, htail⟩ := hb
      obtain ⟨tail', htail'⟩ := hprefix
      have hfirst := hat.append tail
      have hsecond := hname.append tail'
      rw [htail] at hfirst
      rw [htail'] at hsecond
      obtain ⟨rfl, rfl⟩ := hfirst.unique hsecond
      have := hat.le_length
      omega
    · exact heq

/-- An empty extension of type 23 and the name. -/
def nameExtensions (name : String) (h : (Utf8.encode name).length < 256) : List Tls.Extension :=
  [⟨23, [], by decide⟩, ⟨0, Tls.hostNameFirst (Utf8.encode name) [],
    (Tls.length_hostNameFirst (Utf8.encode name) []).trans_lt (show _ + 0 < 65536 by omega)⟩]

theorem length_nameExtensions (name : String) (h : (Utf8.encode name).length < 256) :
    ((nameExtensions name h).flatMap Tls.Extension.encode).length =
      13 + (Utf8.encode name).length := by
  rw [nameExtensions, List.flatMap_cons, List.flatMap_singleton, List.length_append,
    Tls.Extension.length_encode, Tls.Extension.length_encode, Tls.length_hostNameFirst]
  show 4 + 0 + (4 + (5 + (Utf8.encode name).length + 0)) = _
  omega

/-- A ClientHello with these extensions. -/
def helloOf (name : String) (h : (Utf8.encode name).length < 256) : Tls.ClientHello where
  version := 0x0303
  random := ⟨List.replicate 32 7, rfl⟩
  sessionId := ⟨[], by decide⟩
  cipherSuites := ⟨[0x1301], by decide⟩
  compressionMethods := ⟨[0], by decide⟩
  extensions := ⟨nameExtensions name h, (length_nameExtensions name h).trans_lt (by omega)⟩

theorem length_handshake_helloOf (name : String) (h : (Utf8.encode name).length < 256) :
    (helloOf name h).handshake.length < 65536 := by
  have hextensions : (helloOf name h).extensionBytes.length = 13 + (Utf8.encode name).length :=
    length_nameExtensions name h
  rw [Tls.ClientHello.length_handshake, hextensions]
  show 44 + 0 + 2 + 1 + _ < 65536
  omega

/-- The record of this ClientHello. -/
def recordOf (name : String) (h : (Utf8.encode name).length < 256) : Tls.Record :=
  ⟨0x0301, helloOf name h, length_handshake_helloOf name h⟩

theorem serverName_recordOf (name : String) (h : (Utf8.encode name).length < 256) :
    (recordOf name h).hello.serverName = (nameExtensions name h)[1]? := rfl

theorem parseTlsSni_prefix_small :
    let record := recordOf "a.b" (by decide)
    parseTlsSni record.encode = some (some "a.b") ∧
      parseTlsSni (record.encode.take (record.nameStart + 2)) = some none := by
  intro record
  have hcut {b : Bytes} (hb : b <+: record.encode ++ []) :=
    parseTlsSni_prefix (serverName_recordOf "a.b" _) (s := "a.b") rfl hb
  have hwhole := hcut (List.prefix_append _ _)
  have hpart := hcut ((List.take_prefix (record.nameStart + 2) _).trans (List.prefix_append _ _))
  exact ⟨hwhole.trans (by decide), hpart.trans (by decide)⟩

end VpnGateway
