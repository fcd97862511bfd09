import VpnGateway.Core.Numerals
import VpnGateway.Pool.Sources

/-! The endpoints that the lines of a source denote, and the spellings a line may give them. -/
namespace VpnGateway

open Text

structure Ipv4Addr where
  a : UInt8
  b : UInt8
  c : UInt8
  d : UInt8
  deriving DecidableEq

namespace Ipv4Addr

/-- The octets in decimal, without zeros in front and with dots between them. -/
def text (ip : Ipv4Addr) : List Char :=
  numeral ip.a.toNat ++ '.' :: (numeral ip.b.toNat ++ '.' ::
    (numeral ip.c.toNat ++ '.' :: numeral ip.d.toNat))

theorem splitOn_text (ip : Ipv4Addr) : ip.text.splitOn '.' =
    [numeral ip.a.toNat, numeral ip.b.toNat, numeral ip.c.toNat, numeral ip.d.toNat] := by
  have hdot : ∀ n, '.' ∉ numeral n := notMem_numeral rfl
  rw [text, List.splitOn_append_cons_self, List.splitOn_append_cons_self,
    splitOn_two (hdot _) (hdot _), List.splitOn_eq_singleton (hdot _),
    List.splitOn_eq_singleton (hdot _)]
  rfl

theorem text_injective {ip ip' : Ipv4Addr} (h : ip.text = ip'.text) : ip = ip' := by
  have hsplit := congrArg (List.splitOn '.') h
  rw [splitOn_text, splitOn_text] at hsplit
  simp only [List.cons.injEq, and_true] at hsplit
  obtain ⟨ha, hb, hc, hd⟩ := hsplit
  have hoctet : ∀ {x y : UInt8}, numeral x.toNat = numeral y.toNat → x = y :=
    fun hxy => UInt8.toNat_inj.mp (numeral_injective hxy)
  cases ip
  cases ip'
  rw [mk.injEq]
  exact ⟨hoctet ha, hoctet hb, hoctet hc, hoctet hd⟩

end Ipv4Addr

/-- Nothing but whitespace. -/
def Blank (s : List Char) : Prop := ∀ c ∈ s, isWhitespace c = true

/-- The text is a spelling of the port: its numeral, behind any number of zeros and perhaps a plus
sign. -/
def SpellsPort (text : List Char) (port : UInt16) : Prop :=
  ∃ sign zeros, (sign = [] ∨ sign = ['+']) ∧
    text = sign ++ List.replicate zeros '0' ++ numeral port.toNat

/-- The line is an address and a port with a colon between them and whitespace around each. -/
def Denotes (line : List Char) (ip : Ipv4Addr) (port : UInt16) : Prop :=
  ∃ lead gap gap' tail text, Blank lead ∧ Blank gap ∧ Blank gap' ∧ Blank tail ∧
    SpellsPort text port ∧ line = lead ++ (ip.text ++ gap ++ ':' :: (gap' ++ text)) ++ tail

theorem isWhitespace_of_isDigit {c : Char} (h : c.isDigit) : isWhitespace c = false := by
  rw [Char.isDigit, Bool.and_eq_true, decide_eq_true_iff, decide_eq_true_iff] at h
  have hlow : 48 ≤ c.toNat := UInt32.le_iff_toNat_le.mp h.1
  have hhigh : c.toNat ≤ 57 := UInt32.le_iff_toNat_le.mp h.2
  simp only [isWhitespace, Bool.or_eq_false_iff, Bool.and_eq_false_iff, beq_eq_false_iff_ne,
    decide_eq_false_iff_not]
  omega

theorem isWhitespace_of_mem_text {ip : Ipv4Addr} {c : Char} (h : c ∈ ip.text) :
    isWhitespace c = false := by
  have hnumeral : ∀ n, c ∈ numeral n → isWhitespace c = false :=
    fun n hc => isWhitespace_of_isDigit (isDigit_of_mem_numeral hc)
  simp only [Ipv4Addr.text, List.mem_append, List.mem_cons] at h
  rcases h with h | rfl | h | rfl | h | rfl | h
  · exact hnumeral _ h
  · rfl
  · exact hnumeral _ h
  · rfl
  · exact hnumeral _ h
  · rfl
  · exact hnumeral _ h

theorem notMem_text {c : Char} (hdigit : c.isDigit = false) (hdot : c ≠ '.') (ip : Ipv4Addr) :
    c ∉ ip.text := by
  have hnumeral := notMem_numeral hdigit
  simp [Ipv4Addr.text, hnumeral, hdot]

theorem SpellsPort.isWhitespace {text : List Char} {port : UInt16} (h : SpellsPort text port)
    {c : Char} (hc : c ∈ text) : isWhitespace c = false := by
  obtain ⟨sign, zeros, hsign, rfl⟩ := h
  simp only [List.mem_append] at hc
  rcases hc with (hc | hc) | hc
  · rcases hsign with rfl | rfl
    · simp at hc
    · rw [List.mem_singleton.mp hc]
      rfl
  · rw [List.eq_of_mem_replicate hc]
    rfl
  · exact isWhitespace_of_isDigit (isDigit_of_mem_numeral hc)

theorem SpellsPort.ne_nil {text : List Char} {port : UInt16} (h : SpellsPort text port) :
    text ≠ [] := by
  obtain ⟨sign, zeros, -, rfl⟩ := h
  simp [numeral_ne_nil]

theorem text_ne_nil (ip : Ipv4Addr) : ip.text ≠ [] := by simp [Ipv4Addr.text]

theorem Denotes.trim_eq {line : List Char} {ip : Ipv4Addr} {port : UInt16}
    (h : Denotes line ip port) : ∃ gap gap' text, Blank gap ∧ Blank gap' ∧ SpellsPort text port ∧
      trim line = ip.text ++ gap ++ ':' :: (gap' ++ text) := by
  obtain ⟨lead, gap, gap', tail, text, hlead, hgap, hgap', htail, htext, rfl⟩ := h
  refine ⟨gap, gap', text, hgap, hgap', htext, trim_surrounded hlead ?_ ?_ htail⟩
  · intro c hc
    rw [List.append_assoc, List.head?_append_of_ne_nil _ (text_ne_nil ip)] at hc
    exact isWhitespace_of_mem_text (List.mem_of_mem_head? hc)
  · intro c hc
    rw [← List.cons_append, ← List.append_assoc,
      List.getLast?_append_of_ne_nil _ htext.ne_nil] at hc
    exact htext.isWhitespace (List.mem_of_getLast? hc)

namespace Sources

/-- A number of an address is accepted as its own numeral, and in no other spelling. -/
theorem octet_iff {digits : List Char} {v : ℕ} :
    octet digits = some v ↔ v < 256 ∧ digits = numeral v := by
  constructor
  · intro h
    unfold octet at h
    split at h
    next => cases h
    next => cases h
    next hne hzero =>
      obtain ⟨hv, zeros, rfl⟩ := (foldlM_pushDigit_iff (by norm_num) hne).mp h
      cases zeros with
      | zero => exact ⟨hv, rfl⟩
      | succ zeros =>
        obtain ⟨c, rest, hrest⟩ := List.exists_cons_of_ne_nil
          (show List.replicate zeros '0' ++ numeral v ≠ [] by simp [numeral_ne_nil])
        rw [List.replicate_succ, List.cons_append, hrest] at hzero
        exact absurd rfl (hzero c rest)
  · rintro ⟨hv, rfl⟩
    have hfold := foldlM_numeral hv
    unfold octet
    split
    next hnil => exact absurd hnil (numeral_ne_nil v)
    next c rest hzero =>
      rw [hzero] at hfold
      -- the zero in front adds nothing, so what follows it is as long as the whole numeral
      have hrest : (c :: rest).foldlM (pushDigit 256) 0 = some v := hfold
      obtain ⟨-, zeros, hlen⟩ := (foldlM_pushDigit_iff (by norm_num) (by simp)).mp hrest
      have hlength := congrArg List.length hlen
      simp only [hzero, List.length_append, List.length_cons] at hlength
      omega
    next => exact hfold

theorem isIpv4Addr_iff {s : List Char} : isIpv4Addr s ↔ ∃ ip : Ipv4Addr, s = ip.text := by
  constructor
  · intro h
    simp only [isIpv4Addr, Bool.and_eq_true, decide_eq_true_eq, List.all_eq_true] at h
    obtain ⟨hlen, hall⟩ := h
    obtain ⟨w, x, y, z, hparts⟩ := List.length_eq_four.mp hlen
    have hoctet : ∀ part ∈ s.splitOn '.', ∃ v : UInt8, part = numeral v.toNat := by
      intro part hpart
      obtain ⟨v, hv⟩ := Option.isSome_iff_exists.mp (hall part hpart)
      obtain ⟨hlt, heq⟩ := octet_iff.mp hv
      exact ⟨UInt8.ofNat v, by rw [heq, UInt8.toNat_ofNat', Nat.mod_eq_of_lt hlt]⟩
    rw [hparts] at hoctet
    obtain ⟨a, rfl⟩ := hoctet w (by simp)
    obtain ⟨b, rfl⟩ := hoctet x (by simp)
    obtain ⟨c, rfl⟩ := hoctet y (by simp)
    obtain ⟨d, rfl⟩ := hoctet z (by simp)
    refine ⟨⟨a, b, c, d⟩, ?_⟩
    have hjoin : ['.'].intercalate (s.splitOn '.') = s := List.intercalate_splitOn '.'
    rw [← hjoin, hparts]
    simp [List.intercalate, Ipv4Addr.text]
  · rintro ⟨ip, rfl⟩
    have hoctet : ∀ v : UInt8, (octet (numeral v.toNat)).isSome := by
      intro v
      rw [octet_iff.mpr ⟨v.toNat_lt, rfl⟩]
      rfl
    simp [isIpv4Addr, Ipv4Addr.splitOn_text, hoctet]

theorem splitColon_append {host : List Char} (h : ':' ∉ host) (rest : List Char) :
    splitColon (host ++ ':' :: rest) = (host, some rest) := by
  have hspan : (host ++ ':' :: rest).span (· ≠ ':') = (host, ':' :: rest) := by
    rw [List.span_eq_takeWhile_dropWhile, takeWhile_append_cons h,
      List.dropWhile_append_of_pos (forall_ne_of_notMem h), List.dropWhile_cons_of_neg (by simp)]
  simp only [splitColon, hspan]

theorem eq_of_splitColon {s host rest : List Char} (h : splitColon s = (host, some rest)) :
    s = host ++ ':' :: rest := by
  by_cases hcolon : ':' ∈ s
  · obtain ⟨before, after, rfl, hbefore⟩ := List.eq_append_cons_of_mem hcolon
    rw [splitColon_append hbefore] at h
    obtain ⟨rfl, hrest⟩ := Prod.mk.inj h
    rw [Option.some.inj hrest]
  · have hspan : s.span (· ≠ ':') = (s, []) := by
      rw [List.span_eq_takeWhile_dropWhile,
        List.takeWhile_eq_self_iff.mpr (forall_ne_of_notMem hcolon),
        List.dropWhile_eq_nil_iff.mpr (forall_ne_of_notMem hcolon)]
    simp only [splitColon, hspan] at h
    cases (Prod.mk.inj h).2

theorem parseLine_eq_some {line : List Char} {protocol : Protocol} {p : Proxy} :
    parseLine line protocol = some p ↔
      (trim line ≠ [] ∧ (trim line).head? ≠ some '#') ∧ ∃ host rest n,
        splitColon (trim line) = (host, some rest) ∧ parseU16 (trim rest) = some n ∧
        isIpv4Addr (trim host) ∧
          p = .new (String.ofList (trim host)) (UInt16.ofNat n) protocol := by
  simp only [parseLine]
  by_cases hskip : trim line = [] ∨ (trim line).head? = some '#'
  · rw [if_pos hskip]
    refine iff_of_false (by simp) ?_
    rintro ⟨⟨hne, hhash⟩, -⟩
    exact hskip.elim hne hhash
  · rw [if_neg hskip, and_iff_right (not_or.mp hskip)]
    obtain ⟨host, rest⟩ := splitColon (trim line)
    cases rest with
    | none => simp
    | some rest =>
      simp only [Option.bind_some, Option.bind_eq_some_iff, Option.ite_none_right_eq_some,
        Option.some.injEq, Prod.mk.injEq]
      constructor
      · rintro ⟨n, hn, hip, rfl⟩
        exact ⟨host, rest, n, ⟨rfl, rfl⟩, hn, hip, rfl⟩
      · rintro ⟨_, _, n, ⟨rfl, rfl⟩, hn, hip, rfl⟩
        exact ⟨n, hn, hip, rfl⟩

theorem spellsPort_iff {text : List Char} {port : UInt16} :
    SpellsPort text port ↔ parseU16 text = some port.toNat := by
  rw [parseU16_iff]
  exact ⟨fun h => ⟨port.toNat_lt, h⟩, fun h => h.2⟩

/-- The accepted lines are those that denote an endpoint, and the record is that of the endpoint. -/
theorem parseLine_iff {line : List Char} {protocol : Protocol} {p : Proxy} :
    parseLine line protocol = some p ↔
      ∃ ip port, Denotes line ip port ∧ p = .new (String.ofList ip.text) port protocol := by
  rw [parseLine_eq_some]
  constructor
  · rintro ⟨-, host, rest, n, hsplit, hn, hip, rfl⟩
    obtain ⟨ip, hhost⟩ := isIpv4Addr_iff.mp hip
    obtain ⟨lead, tail, hlead, htail, hline⟩ := exists_trim line
    obtain ⟨lead', gap, hlead', hgap, hhost'⟩ := exists_trim host
    obtain ⟨gap', tail', hgap', htail', hrest⟩ := exists_trim rest
    have hport : parseU16 (trim rest) = some (UInt16.ofNat n).toNat := by
      rw [hn, UInt16.toNat_ofNat', Nat.mod_eq_of_lt (parseU16_iff.mp hn).1]
    refine ⟨ip, UInt16.ofNat n, ⟨lead ++ lead', gap, gap', tail' ++ tail, trim rest, ?_, hgap,
      hgap', ?_, spellsPort_iff.mpr hport, ?_⟩, by rw [hhost]⟩
    · exact List.forall_mem_append.mpr ⟨hlead, hlead'⟩
    · exact List.forall_mem_append.mpr ⟨htail', htail⟩
    · rw [hhost] at hhost'
      have hparts := eq_of_splitColon hsplit
      rw [hparts, hhost'] at hline
      conv at hline => rhs; rw [hrest]
      rw [hline]
      simp only [List.append_assoc, List.cons_append]
  · rintro ⟨ip, port, hdenotes, rfl⟩
    obtain ⟨gap, gap', text, hgap, hgap', htext, htrim⟩ := hdenotes.trim_eq
    have hcolon : ':' ∉ ip.text ++ gap := by
      rw [List.mem_append, not_or]
      exact ⟨notMem_text rfl (by decide) ip, fun hmem => by cases hgap _ hmem⟩
    have hhost : trim (ip.text ++ gap) = ip.text :=
      trim_between (a := []) (by simp) (fun _ => isWhitespace_of_mem_text) hgap
    have hrest : trim (gap' ++ text) = text := by
      have htrimmed := trim_between (d := []) hgap' (fun _ => htext.isWhitespace) (by simp)
      rwa [List.append_nil] at htrimmed
    refine ⟨⟨?_, ?_⟩, ip.text ++ gap, gap' ++ text, port.toNat, ?_, ?_, ?_, ?_⟩
    · simp [htrim]
    · rw [htrim, List.append_assoc, List.head?_append_of_ne_nil _ (text_ne_nil ip)]
      exact fun hhash => notMem_text rfl (by decide) ip (List.mem_of_mem_head? hhash)
    · rw [htrim, splitColon_append hcolon]
    · rw [hrest]
      exact spellsPort_iff.mp htext
    · rw [hhost]
      exact isIpv4Addr_iff.mpr ⟨ip, rfl⟩
    · rw [hhost, UInt16.ofNat_toNat]

theorem parseLine_of_denotes {line : List Char} {ip : Ipv4Addr} {port : UInt16}
    (h : Denotes line ip port) (protocol : Protocol) :
    parseLine line protocol = some (.new (String.ofList ip.text) port protocol) :=
  parseLine_iff.mpr ⟨ip, port, h, rfl⟩

/-- A line denotes one endpoint at most. -/
theorem denotes_unique {line : List Char} {ip ip' : Ipv4Addr} {port port' : UInt16}
    (h : Denotes line ip port) (h' : Denotes line ip' port') : ip = ip' ∧ port = port' := by
  have heq := Option.some.inj
    ((parseLine_of_denotes h .http).symm.trans (parseLine_of_denotes h' .http))
  refine ⟨?_, congrArg Proxy.port heq⟩
  exact Ipv4Addr.text_injective (String.ofList_injective (congrArg Proxy.host heq))

/-- The numeral of the port behind the address is a spelling of it. -/
theorem denotes_canonical {before after : List Char} (hbefore : Blank before) (hafter : Blank after)
    (ip : Ipv4Addr) (port : UInt16) :
    Denotes (before ++ (ip.text ++ ':' :: numeral port.toNat) ++ after) ip port := by
  refine ⟨before, [], [], after, numeral port.toNat, hbefore, by simp [Blank], by simp [Blank],
    hafter, ⟨[], 0, Or.inl rfl, rfl⟩, ?_⟩
  rw [List.append_nil, List.nil_append]

/-- Two accepted lines have one key exactly if they denote one endpoint, which a line does for one
endpoint at most; and every endpoint has its line, with any whitespace around it. -/
theorem keys_eq_iff_denote_same :
    (∀ line line' protocol protocol' p p', parseLine line protocol = some p →
      parseLine line' protocol' = some p' →
      (p.key = p'.key ↔ ∃ ip port, Denotes line ip port ∧ Denotes line' ip port)) ∧
    (∀ line ip ip' port port', Denotes line ip port → Denotes line ip' port' →
      ip = ip' ∧ port = port') ∧
    ∀ (ip : Ipv4Addr) (port : UInt16) before after protocol, Blank before → Blank after →
      parseLine (before ++ (ip.text ++ ':' :: numeral port.toNat) ++ after) protocol =
        some (.new (String.ofList ip.text) port protocol) := by
  refine ⟨fun line line' protocol protocol' p p' hp hp' => ?_,
    fun _ _ _ _ _ h h' => denotes_unique h h', fun ip port before after protocol hbefore hafter =>
      parseLine_of_denotes (denotes_canonical hbefore hafter ip port) protocol⟩
  obtain ⟨ip, port, hline, rfl⟩ := parseLine_iff.mp hp
  obtain ⟨ip', port', hline', rfl⟩ := parseLine_iff.mp hp'
  rw [Proxy.key_inj]
  constructor
  · rintro ⟨hhost, hport⟩
    obtain rfl := Ipv4Addr.text_injective (String.ofList_injective hhost)
    obtain rfl : port = port' := hport
    exact ⟨ip, port, hline, hline'⟩
  · rintro ⟨ip₀, port₀, h, h'⟩
    obtain ⟨rfl, rfl⟩ := denotes_unique h hline
    obtain ⟨rfl, rfl⟩ := denotes_unique h' hline'
    exact ⟨rfl, rfl⟩

/-- A plus sign, zeros and spaces make no second key. -/
theorem keys_eq_two_spellings :
    ∃ p p', parseLine " 1.2.3.4 : +0080\t".toList .http = some p ∧
      parseLine "1.2.3.4:80".toList .socks5 = some p' ∧ p.key = p'.key := by
  obtain ⟨p, hp⟩ : ∃ p, parseLine " 1.2.3.4 : +0080\t".toList .http = some p :=
    Option.isSome_iff_exists.mp (by decide)
  obtain ⟨p', hp'⟩ : ∃ p, parseLine "1.2.3.4:80".toList .socks5 = some p :=
    Option.isSome_iff_exists.mp (by decide)
  refine ⟨p, p', hp, hp', (keys_eq_iff_denote_same.1 _ _ _ _ p p' hp hp').mpr ?_⟩
  have hspace : Blank [' '] := by simp [Blank, isWhitespace]
  have htab : Blank ['\t'] := by simp [Blank, isWhitespace]
  have hnone : Blank [] := by simp [Blank]
  exact ⟨⟨1, 2, 3, 4⟩, 80,
    ⟨[' '], [' '], [' '], ['\t'], "+0080".toList, hspace, hspace, hspace, htab,
      ⟨['+'], 2, Or.inr rfl, by decide⟩, by decide⟩,
    ⟨[], [], [], [], "80".toList, hnone, hnone, hnone, hnone, ⟨[], 0, Or.inl rfl, by decide⟩,
      by decide⟩⟩

end Sources

end VpnGateway
