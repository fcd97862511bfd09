import VpnGateway.Proxy.ServerName

/-! The server name and the extension that it is taken from, in a ClientHello whose lengths may
lie: the parser bounds the name by the end of all the extensions and not by its own one. -/
namespace VpnGateway

open Wire

/-- The lengths of the extensions lead from the first position to an extension of this type and
length at the second one. -/
inductive ExtensionAt (buf : Bytes) (blockEnd : ℕ) : ℕ → ℕ → ℕ → ℕ → Prop
  | here {pos extType extLen : ℕ} (hend : pos + 4 ≤ blockEnd) (htype : u16At buf pos = some extType)
      (hlen : u16At buf (pos + 2) = some extLen) : ExtensionAt buf blockEnd pos pos extType extLen
  | next {first firstLen pos extType extLen : ℕ} (hend : first + 4 ≤ blockEnd)
      (hlen : u16At buf (first + 2) = some firstLen)
      (hrest : ExtensionAt buf blockEnd (first + 4 + firstLen) pos extType extLen) :
      ExtensionAt buf blockEnd first pos extType extLen

/-- So many bytes at `start` lie inside the body of an extension of type 0, which lies inside the
extensions. -/
def InsideServerName (buf : Bytes) (blockEnd first start len : ℕ) : Prop :=
  ∃ pos extLen, ExtensionAt buf blockEnd first pos 0 extLen ∧ pos + 4 + extLen ≤ blockEnd ∧
    pos + 4 ≤ start ∧ start + len ≤ pos + 4 + extLen

/-- The length of the extension at `pos` covers the entry of a name of so many bytes, and the
extension ends with the block or before. Or the length is 1 and the next extension, of type 0 too,
has the name as its body. -/
def CoversName (buf : Bytes) (blockEnd pos len : ℕ) : Prop :=
  ∃ extLen, u16At buf (pos + 2) = some extLen ∧
    (5 + len ≤ extLen ∧ pos + 4 + extLen ≤ blockEnd ∨ extLen = 1 ∧ u16At buf (pos + 5) = some 0)

theorem ExtensionAt.le {buf : Bytes} {blockEnd first pos extType extLen : ℕ}
    (h : ExtensionAt buf blockEnd first pos extType extLen) : first ≤ pos := by
  induction h with
  | here => exact le_rfl
  | next _ _ _ ih => omega

variable {buf : Bytes} {limit blockEnd first pos len : ℕ}

theorem InsideServerName.of_first (hend : pos + 9 + len ≤ blockEnd) (htype : u16At buf pos = some 0)
    (hname : u16At buf (pos + 7) = some len) (h : CoversName buf blockEnd pos len) :
    InsideServerName buf blockEnd pos (pos + 9) len := by
  obtain ⟨extLen, hlen, ⟨hcovers, hblock⟩ | ⟨rfl, hnext⟩⟩ := h
  · exact ⟨pos, extLen, .here (by omega) htype hlen, hblock, by omega, by omega⟩
  · exact ⟨pos + 5, len, .next (by omega) hlen (.here (by omega) hnext hname), by omega, by omega,
      by omega⟩

/-- The length of an empty extension would be the high byte of the length of the name. -/
theorem not_covers_of_empty {extLen : ℕ} (hentry : buf[pos + 6]? = some 0)
    (hname : u16At buf (pos + 7) = some len) (hlen : u16At buf (pos + 6) = some extLen) :
    extLen < len + 1 := by
  obtain ⟨high, low, hhigh, -, rfl⟩ := u16At_eq_some_iff.mp hname
  obtain ⟨zero, high', hzero, hhigh', rfl⟩ := u16At_eq_some_iff.mp hlen
  obtain rfl := Option.some.inj (hzero.symm.trans hentry)
  obtain rfl := Option.some.inj (hhigh'.symm.trans hhigh)
  simp only [fromBe16, UInt8.toNat_zero]
  omega

theorem InsideServerName.covers {extLen : ℕ} (hentry : buf[pos + 6]? = some 0)
    (hname : u16At buf (pos + 7) = some len) (hlen : u16At buf (pos + 2) = some extLen)
    (h : InsideServerName buf blockEnd pos (pos + 9) len) : CoversName buf blockEnd pos len := by
  refine ⟨extLen, hlen, ?_⟩
  obtain ⟨pos', extLen', hext, hblock, hstart, hstop⟩ := h
  cases hext with
  | here _ _ hlen' =>
    obtain rfl := Option.some.inj (hlen.symm.trans hlen')
    exact .inl ⟨by omega, hblock⟩
  | next _ hlen' hrest =>
    obtain rfl := Option.some.inj (hlen.symm.trans hlen')
    have hle := hrest.le
    -- the name begins nine bytes behind the extension, so at most one byte of it was skipped
    obtain rfl | rfl : extLen = 0 ∨ extLen = 1 := by omega
    · cases hrest with
      | here _ _ hlen'' =>
        have := not_covers_of_empty hentry hname hlen''
        omega
      | next _ _ hrest =>
        have := hrest.le
        omega
    · cases hrest with
      | here _ htype _ => exact .inr ⟨rfl, htype⟩
      | next _ _ hrest =>
        have := hrest.le
        omega

/-- The name that the scan arrives at lies inside such an extension exactly if the lengths of the
first extension of type 0 agree. -/
theorem NameInExtensions.inside_iff {start : ℕ} (h : NameInExtensions buf limit first start len)
    (hstart : start = pos + 9) (hlimit : limit ≤ blockEnd) :
    InsideServerName buf blockEnd first start len ↔ CoversName buf blockEnd pos len := by
  induction h with
  | here hle htype hentry hname =>
    obtain rfl : _ = pos := Nat.add_right_cancel hstart
    constructor
    · intro hinside
      obtain ⟨extLen, hlen⟩ : ∃ n, u16At buf (_ + 2) = some n := by
        obtain ⟨pos', extLen', hext, -⟩ := hinside
        cases hext with
        | here _ _ hlen => exact ⟨_, hlen⟩
        | next _ hlen _ => exact ⟨_, hlen⟩
      exact hinside.covers hentry hname hlen
    · exact .of_first (by omega) htype hname
  | @next first extType extLen start len hle htype hne hlen hrest ih =>
    rw [← ih hstart]
    constructor
    · rintro ⟨pos', extLen', hext, hinside⟩
      cases hext with
      | here _ htype' => exact absurd (Option.some.inj (htype.symm.trans htype')) hne
      | next _ hlen' hrest' =>
        obtain rfl := Option.some.inj (hlen.symm.trans hlen')
        exact ⟨pos', extLen', hrest', hinside⟩
    · rintro ⟨pos', extLen', hext, hinside⟩
      exact ⟨pos', extLen', .next (by omega) hlen hext, hinside⟩

/-- The first extension of type 0 holds a name of so many bytes, whose position is nine bytes behind
the extension. -/
theorem NameInExtensions.exists_pos {start : ℕ} (h : NameInExtensions buf limit first start len) :
    ∃ pos, start = pos + 9 := by
  induction h with
  | here => exact ⟨_, rfl⟩
  | next _ _ _ _ _ ih => exact ih

/-- A name that the parser returns is the text of bytes inside the body of one extension of type 0,
which lies inside the block of extensions. -/
def NameInside (buf : Bytes) : Prop :=
  ∀ name, parseTlsSni buf = some (some name) → ∃ (l : HelloLengths) (start len : ℕ),
    l.ReadFrom buf ∧ ServerNameAt buf start len ∧ nameAt buf start len = some name ∧
      InsideServerName buf (l.extensionsPos + 2 + l.extensions) (l.extensionsPos + 2) start len

/-- Where a ClientHello leads to a host name in UTF-8, the lengths of that extension agree. -/
def LengthsAgree (buf : Bytes) : Prop :=
  ∀ (l : HelloLengths) (pos len : ℕ), l.ReadFrom buf →
    NameInExtensions buf (min (l.extensionsPos + 2 + l.extensions) buf.length)
      (l.extensionsPos + 2) (pos + 9) len → nameAt buf (pos + 9) len ≠ none →
    CoversName buf (l.extensionsPos + 2 + l.extensions) pos len

theorem nameInside_iff (buf : Bytes) : NameInside buf ↔ LengthsAgree buf := by
  constructor
  · intro h l pos len hread hname htext
    obtain ⟨name, htext⟩ := Option.ne_none_iff_exists'.mp htext
    have hat : ServerNameAt buf (pos + 9) len := ⟨l, hread, hname⟩
    have hparse : parseTlsSni buf = some (some name) := by
      rcases parseTlsSni_cases buf with ⟨start, len', hat', heq⟩ | ⟨hno, -⟩
      · obtain ⟨rfl, rfl⟩ := hat.unique hat'
        rw [heq, htext]
      · exact absurd hat (hno _ _)
    obtain ⟨l', start, len', hread', hat', -, hinside⟩ := h name hparse
    obtain ⟨rfl, rfl⟩ := hat.unique hat'
    obtain rfl := hread.unique hread'
    exact (hname.inside_iff rfl (min_le_left _ _)).mp hinside
  · intro h name hparse
    rcases parseTlsSni_cases buf with ⟨start, len, hat, heq⟩ | ⟨-, heq⟩
    · have htext : nameAt buf start len = some name := by
        rw [heq] at hparse
        exact Option.some.inj hparse
      obtain ⟨l, hread, hname⟩ := hat
      obtain ⟨pos, rfl⟩ := hname.exists_pos
      refine ⟨l, pos + 9, len, hread, ⟨l, hread, hname⟩, htext, ?_⟩
      exact (hname.inside_iff rfl (min_le_left _ _)).mpr
        (h l pos len hread hname (Option.ne_none_iff_exists'.mpr ⟨name, htext⟩))
    · rw [heq] at hparse
      cases hparse

/-- A ClientHello with an extension of type 0 whose six bytes hold the name "a", and behind it an
empty extension of type `0x2E63`. The entry claims a name of three bytes. -/
def lyingHello : Bytes :=
  [0x16, 3, 1, 0, 61, 1, 0, 0, 57, 3, 3] ++ List.replicate 32 7 ++
    [0, 0, 2, 0x13, 1, 1, 0, 0, 14] ++ [0, 0, 0, 6, 0, 4, 0, 0, 3, 97] ++ [0x2E, 0x63, 0, 0]

/-- The parser returns "a.c", of which two bytes are the type of the next extension. -/
theorem not_nameInside_lying :
    parseTlsSni lyingHello = some (some "a.c") ∧ ¬ NameInside lyingHello := by
  let l : HelloLengths := ⟨0, 2, 1, 14⟩
  have hread : l.ReadFrom lyingHello := by
    constructor <;> decide
  have hname : NameInExtensions lyingHello
      (min (l.extensionsPos + 2 + l.extensions) lyingHello.length) (l.extensionsPos + 2) (52 + 9)
      3 := .here (by decide) (by decide) (by decide) (by decide)
  have hat : ServerNameAt lyingHello (52 + 9) 3 := ⟨l, hread, hname⟩
  have hparse : parseTlsSni lyingHello = some (some "a.c") := by
    rcases parseTlsSni_cases lyingHello with ⟨start, len, hat', heq⟩ | ⟨hno, -⟩
    · obtain ⟨rfl, rfl⟩ := hat.unique hat'
      rw [heq]
      decide
    · exact absurd hat (hno _ _)
  refine ⟨hparse, fun h => ?_⟩
  obtain ⟨l', start, len, hread', hat', -, hinside⟩ := h "a.c" hparse
  obtain ⟨rfl, rfl⟩ := hat.unique hat'
  obtain rfl := hread.unique hread'
  obtain ⟨extLen, hlen, hcovers⟩ := (hname.inside_iff rfl (min_le_left _ _)).mp hinside
  have hsix : u16At lyingHello (52 + 2) = some 6 := by decide
  obtain rfl := Option.some.inj (hsix.symm.trans hlen)
  omega

end VpnGateway
