import Mathlib

/-! A byte stream as a client sees it: the peer's answers arrive in segments, a read takes at
most one of them, and where nothing is left a read meets the end of the stream or waits. -/
namespace Wire

abbrev Bytes := List UInt8

/-- What one read finds: at least one byte. -/
abbrev Segment := {bytes : Bytes // bytes ≠ []}

def flatten (segments : List Segment) : Bytes := (segments.map Subtype.val).flatten

/-- The segments that these bytes can arrive in. -/
abbrev Chunking (bytes : Bytes) := {segments : List Segment // flatten segments = bytes}

/-- The other end of a connection. It refuses the connection with an error, or accepts it and
answers: given every byte it has received, what it sends now and whether it then closes. -/
structure Peer where
  refusal : Option String
  respond : Bytes → List Segment × Bool

structure Conn where
  sent : Bytes
  incoming : List Segment
  closed : Bool

/-- A result, an error, or a wait for bytes that never come. -/
inductive Outcome (α : Type) where
  | ok (a : α)
  | err (message : String)
  | waits
  deriving DecidableEq

namespace Outcome

variable {α β : Type}

def bind (x : Outcome α) (f : α → Outcome β) : Outcome β :=
  match x with
  | ok a => f a
  | err message => err message
  | waits => waits

instance : Monad Outcome where
  pure := ok
  bind := bind

@[simp] theorem pure_eq (a : α) : (pure a : Outcome α) = ok a := rfl

@[simp] theorem ok_bind (a : α) (f : α → Outcome β) : (ok a >>= f) = f a := rfl

@[simp] theorem err_bind (message : String) (f : α → Outcome β) :
    (err message >>= f) = err message := rfl

@[simp] theorem waits_bind (f : α → Outcome β) : (waits >>= f) = waits := rfl

theorem bind_eq_ok {x : Outcome α} {f : α → Outcome β} {b : β} :
    (x >>= f) = ok b ↔ ∃ a, x = ok a ∧ f a = ok b := by
  cases x <;> simp

theorem bind_eq_waits {x : Outcome α} {f : α → Outcome β} :
    (x >>= f) = waits ↔ x = waits ∨ ∃ a, x = ok a ∧ f a = waits := by
  cases x <;> simp

def isOk : Outcome α → Bool
  | ok _ => true
  | _ => false

theorem isOk_iff {x : Outcome α} : x.isOk ↔ ∃ a, x = ok a := by
  cases x <;> simp [isOk]

end Outcome

/-- A fresh connection; the peer may speak first. -/
def Peer.connect (peer : Peer) : Conn :=
  ⟨[], (peer.respond []).1, (peer.respond []).2⟩

/-- Bytes are written, and the peer answers unless it has closed. -/
def Peer.write (peer : Peer) (conn : Conn) (bytes : Bytes) : Conn :=
  let sent := conn.sent ++ bytes
  if conn.closed then { conn with sent := sent }
  else ⟨sent, conn.incoming ++ (peer.respond sent).1, (peer.respond sent).2⟩

namespace Conn

/-- The bytes that can still be read. -/
def unread (conn : Conn) : Bytes := flatten conn.incoming

/-- Put bytes back in front of the stream. -/
def pushBack (bytes : Bytes) (segments : List Segment) : List Segment :=
  if h : bytes = [] then segments else ⟨bytes, h⟩ :: segments

/-- One read into a buffer of this size: no byte at the end of the stream, `waits` where the
peer is silent. -/
def read (n : ℕ) (conn : Conn) : Outcome (Bytes × Conn) :=
  match conn.incoming with
  | [] => if conn.closed then .ok ([], conn) else .waits
  | segment :: rest =>
    .ok (segment.val.take n, { conn with incoming := pushBack (segment.val.drop n) rest })

/-- Up to `n` bytes, across segments. -/
def takeBytes : ℕ → List Segment → Bytes × List Segment
  | _, [] => ([], [])
  | n, segment :: rest =>
    if segment.val.length ≤ n then
      (segment.val ++ (takeBytes (n - segment.val.length) rest).1,
        (takeBytes (n - segment.val.length) rest).2)
    else (segment.val.take n, pushBack (segment.val.drop n) rest)

/-- `read_exact`: whether the buffer was filled, what it was filled with, and the rest. -/
def readExact (n : ℕ) (conn : Conn) : Outcome (Bool × Bytes × Conn) :=
  let (bytes, rest) := takeBytes n conn.incoming
  if bytes.length = n then .ok (true, bytes, { conn with incoming := rest })
  else if conn.closed then .ok (false, bytes, { conn with incoming := [] })
  else .waits

end Conn

@[simp] theorem flatten_nil : flatten [] = [] := rfl

@[simp] theorem flatten_cons (segment : Segment) (rest : List Segment) :
    flatten (segment :: rest) = segment.val ++ flatten rest := rfl

@[simp] theorem flatten_pushBack (bytes : Bytes) (segments : List Segment) :
    flatten (Conn.pushBack bytes segments) = bytes ++ flatten segments := by
  unfold Conn.pushBack
  split_ifs with h
  · rw [h, List.nil_append]
  · rfl

namespace Conn

theorem takeBytes_spec (n : ℕ) (segments : List Segment) :
    (takeBytes n segments).1 = (flatten segments).take n ∧
      flatten (takeBytes n segments).2 = (flatten segments).drop n := by
  induction segments generalizing n with
  | nil => simp [takeBytes]
  | cons segment rest ih =>
    unfold takeBytes
    split_ifs with hle
    · obtain ⟨htake, hdrop⟩ := ih (n - segment.val.length)
      simp only [flatten_cons, List.take_append, List.drop_append]
      rw [htake, hdrop, List.take_of_length_le hle, List.drop_eq_nil_iff.mpr hle]
      simp
    · have hlt : n - segment.val.length = 0 := by omega
      simp [List.take_append, List.drop_append, hlt]

/-- A read takes a piece of what is there, or there is nothing. -/
theorem read_cases {n : ℕ} (hn : 0 < n) (conn : Conn) :
    (∃ chunk conn', conn.read n = .ok (chunk, conn') ∧ chunk ≠ [] ∧ chunk.length ≤ n ∧
      conn.unread = chunk ++ conn'.unread) ∨
    (conn.read n = (if conn.closed then .ok ([], conn) else .waits) ∧ conn.unread = []) := by
  cases hin : conn.incoming with
  | nil => exact Or.inr ⟨by rw [read, hin], by rw [unread, hin, flatten_nil]⟩
  | cons segment rest =>
    let conn' : Conn := { conn with incoming := pushBack (segment.val.drop n) rest }
    have hunread : conn'.unread = segment.val.drop n ++ flatten rest := flatten_pushBack _ _
    left
    refine ⟨segment.val.take n, conn', by simp only [read, hin, conn'], ?_, ?_, ?_⟩
    · rw [ne_eq, List.take_eq_nil_iff, not_or]
      exact ⟨hn.ne', segment.property⟩
    · exact List.length_take_le _ _
    · rw [unread, hin, flatten_cons, hunread, ← List.append_assoc, List.take_append_drop]

theorem closed_of_read {n : ℕ} {conn conn' : Conn} {chunk : Bytes}
    (h : conn.read n = .ok (chunk, conn')) : conn'.closed = conn.closed := by
  unfold read at h
  split at h
  · split_ifs at h
    obtain ⟨-, rfl⟩ := Prod.mk.inj (Outcome.ok.inj h)
    rfl
  · obtain ⟨-, rfl⟩ := Prod.mk.inj (Outcome.ok.inj h)
    rfl

/-- Bytes that are there are read, whatever segments they came in. -/
theorem readExact_append {conn : Conn} {bytes rest : Bytes} (h : conn.unread = bytes ++ rest) :
    ∃ conn', conn.readExact bytes.length = .ok (true, bytes, conn') ∧ conn'.unread = rest ∧
      conn'.sent = conn.sent ∧ conn'.closed = conn.closed := by
  obtain ⟨htake, hdrop⟩ := takeBytes_spec bytes.length conn.incoming
  have hflat : flatten conn.incoming = bytes ++ rest := h
  rw [hflat, List.take_left] at htake
  rw [hflat, List.drop_left] at hdrop
  refine ⟨{ conn with incoming := (takeBytes bytes.length conn.incoming).2 }, ?_, hdrop, rfl, rfl⟩
  simp only [readExact, htake, ↓reduceIte]

end Conn

/-- A write adds to the stream what the peer answers. -/
theorem Peer.unread_write {peer : Peer} {conn : Conn} (hopen : conn.closed = false)
    (bytes : Bytes) : (peer.write conn bytes).unread =
      conn.unread ++ flatten (peer.respond (conn.sent ++ bytes)).1 := by
  simp [Peer.write, hopen, Conn.unread, flatten]

/-- A write adds nothing to the stream of a connection that is closed. -/
theorem Peer.unread_write_closed {peer : Peer} {conn : Conn} (hclosed : conn.closed = true)
    (bytes : Bytes) : (peer.write conn bytes).unread = conn.unread := by
  simp [Peer.write, hclosed, Conn.unread]

/-- Bytes that are read before a write stand in front of what can be read after it. -/
theorem Peer.unread_write_append (peer : Peer) {conn conn' : Conn} {bytes : Bytes}
    (hunread : conn.unread = bytes ++ conn'.unread) (hsent : conn'.sent = conn.sent)
    (hclosed : conn'.closed = conn.closed) (request : Bytes) :
    (peer.write conn request).unread = bytes ++ (peer.write conn' request).unread := by
  cases hopen : conn.closed with
  | true =>
    rw [unread_write_closed hopen, unread_write_closed (hclosed.trans hopen), hunread]
  | false =>
    rw [unread_write hopen, unread_write (hclosed.trans hopen), hunread, hsent, List.append_assoc]

@[simp] theorem Peer.sent_write (peer : Peer) (conn : Conn) (bytes : Bytes) :
    (peer.write conn bytes).sent = conn.sent ++ bytes := by
  unfold Peer.write
  split_ifs <;> rfl

/-! A conversation with a peer, whose connection is still there after an error. -/

/-- What a client does on a connection. -/
def Session (α : Type) := Peer → Conn → Outcome α × Conn

namespace Session

variable {α β : Type}

def fail (message : String) : Session α := fun _ conn => (.err message, conn)

def bind (x : Session α) (f : α → Session β) : Session β := fun peer conn =>
  match x peer conn with
  | (.ok a, conn) => f a peer conn
  | (.err message, conn) => (.err message, conn)
  | (.waits, conn) => (.waits, conn)

instance : Monad Session where
  pure a := fun _ conn => (.ok a, conn)
  bind := bind

def send (bytes : Bytes) : Session Unit := fun peer conn => (.ok (), peer.write conn bytes)

/-- `read_exact`, which fails where the stream ends early. -/
def receive (n : ℕ) : Session Bytes := fun _ conn =>
  match conn.readExact n with
  | .ok (true, bytes, conn) => (.ok bytes, conn)
  | .ok (false, _, conn) => (.err "early eof", conn)
  | .err message => (.err message, conn)
  | .waits => (.waits, conn)

/-- The connection that a successful conversation ends with. -/
def result (x : Session Unit) (peer : Peer) (conn : Conn) : Outcome Conn :=
  match x peer conn with
  | (.ok _, conn) => .ok conn
  | (.err message, _) => .err message
  | (.waits, _) => .waits

theorem bind_of_ok {x : Session α} {f : α → Session β} {peer : Peer} {conn conn' : Conn} {a : α}
    (h : x peer conn = (.ok a, conn')) : (x >>= f) peer conn = f a peer conn' := by
  show bind x f peer conn = f a peer conn'
  simp only [bind, h]

theorem result_bind (x : Session α) (f : α → Session Unit) (peer : Peer) (conn : Conn) :
    result (x >>= f) peer conn = match x peer conn with
      | (.ok a, conn) => result (f a) peer conn
      | (.err message, _) => .err message
      | (.waits, _) => .waits := by
  show result (bind x f) peer conn = _
  unfold result bind
  rcases x peer conn with ⟨a | message | _, conn⟩ <;> rfl

theorem receive_append (peer : Peer) {conn : Conn} {bytes rest : Bytes}
    (h : conn.unread = bytes ++ rest) :
    ∃ conn', receive bytes.length peer conn = (.ok bytes, conn') ∧ conn'.unread = rest ∧
      conn'.sent = conn.sent ∧ conn'.closed = conn.closed := by
  obtain ⟨conn', hread, hrest⟩ := Conn.readExact_append h
  exact ⟨conn', by simp only [receive, hread], hrest⟩

/-- The conversation only reads. -/
def KeepsSent {α : Type} (x : Session α) : Prop :=
  ∀ (peer : Peer) (conn : Conn), (x peer conn).2.sent = conn.sent

theorem keepsSent_pure (a : α) : KeepsSent (pure a : Session α) := fun _ _ => rfl

theorem keepsSent_fail (message : String) : KeepsSent (fail message : Session α) := fun _ _ => rfl

theorem keepsSent_receive (n : ℕ) : KeepsSent (receive n) := by
  intro peer conn
  unfold receive
  cases hread : conn.readExact n with
  | ok read =>
    have hsent : read.2.2.sent = conn.sent := by
      unfold Conn.readExact at hread
      dsimp only at hread
      split_ifs at hread
      · rw [← Outcome.ok.inj hread]
      · rw [← Outcome.ok.inj hread]
    rcases read with ⟨_ | _, bytes, conn'⟩ <;> exact hsent
  | err message => rfl
  | waits => rfl

theorem KeepsSent.bind {x : Session α} {f : α → Session β} (hx : KeepsSent x)
    (hf : ∀ a, KeepsSent (f a)) : KeepsSent (x >>= f) := by
  intro peer conn
  show (Session.bind x f peer conn).2.sent = conn.sent
  have hfirst := hx peer conn
  unfold Session.bind
  rcases hrun : x peer conn with ⟨a | message | _, conn'⟩
  · rw [hrun] at hfirst
    exact (hf a peer conn').trans hfirst
  · rw [hrun] at hfirst
    exact hfirst
  · rw [hrun] at hfirst
    exact hfirst

/-- The conversation writes these bytes, or only the first of them if it does not succeed. -/
def Sends {α : Type} (x : Session α) (bytes : Bytes) : Prop :=
  ∀ (peer : Peer) (conn : Conn), ∃ written, (x peer conn).2.sent = conn.sent ++ written ∧
    written <+: bytes ∧ ((x peer conn).1.isOk → written = bytes)

theorem sends_send (bytes : Bytes) : Sends (send bytes) bytes := fun peer conn =>
  ⟨bytes, peer.sent_write conn bytes, List.prefix_rfl, fun _ => rfl⟩

theorem sends_fail (message : String) (bytes : Bytes) : Sends (fail message : Session α) bytes :=
  fun _ conn => ⟨[], (List.append_nil conn.sent).symm, List.nil_prefix,
    fun h => absurd h Bool.false_ne_true⟩

theorem KeepsSent.sends {x : Session α} (h : KeepsSent x) : Sends x [] := fun peer conn =>
  ⟨[], (h peer conn).trans (List.append_nil conn.sent).symm, List.prefix_rfl, fun _ => rfl⟩

theorem Sends.bind {x : Session α} {f : α → Session β} {before after : Bytes}
    (hx : Sends x before) (hf : ∀ a, Sends (f a) after) : Sends (x >>= f) (before ++ after) := by
  intro peer conn
  show ∃ written, (Session.bind x f peer conn).2.sent = conn.sent ++ written ∧ _ ∧
    ((Session.bind x f peer conn).1.isOk → _)
  obtain ⟨first, hsent, hstarts, hok⟩ := hx peer conn
  unfold Session.bind
  rcases hrun : x peer conn with ⟨a | message | _, conn'⟩ <;> rw [hrun] at hsent hok
  · obtain ⟨second, hsent', hstarts', hok'⟩ := hf a peer conn'
    obtain rfl := hok rfl
    refine ⟨first ++ second, ?_, List.prefix_append_right_inj first |>.mpr hstarts', fun h => ?_⟩
    · rw [← List.append_assoc, ← hsent]
      exact hsent'
    · rw [hok' h]
  · exact ⟨first, hsent, hstarts.trans (List.prefix_append before after),
      fun h => absurd h Bool.false_ne_true⟩
  · exact ⟨first, hsent, hstarts.trans (List.prefix_append before after),
      fun h => absurd h Bool.false_ne_true⟩

end Session

/-! Numbers of two bytes in network order. -/

def be16 (n : ℕ) : Bytes := [UInt8.ofNat (n / 256), UInt8.ofNat n]

/-- `u16::from_be_bytes`. -/
def fromBe16 (high low : UInt8) : ℕ := high.toNat * 256 + low.toNat

@[simp] theorem length_be16 (n : ℕ) : (be16 n).length = 2 := rfl

theorem fromBe16_be16 {n : ℕ} (h : n < 65536) :
    fromBe16 (UInt8.ofNat (n / 256)) (UInt8.ofNat n) = n := by
  simp only [fromBe16, UInt8.toNat_ofNat']
  omega

/-- A reader with a buffer of 8 KiB in front of the connection. -/
structure BufReader where
  conn : Conn
  buf : Bytes

namespace BufReader

def new (conn : Conn) : BufReader := ⟨conn, []⟩

/-- Every byte the reader can still deliver. -/
def pending (r : BufReader) : Bytes := r.buf ++ r.conn.unread

def fillBuf (r : BufReader) : Outcome BufReader :=
  if r.buf = [] then
    match r.conn.read 8192 with
    | .ok (bytes, conn) => .ok ⟨conn, bytes⟩
    | .err message => .err message
    | .waits => .waits
  else .ok r

/-- Append to `line` up to the next line feed, or up to the end of the stream. Every round
takes a byte at least; `fuel` bounds the rounds. -/
def readUntil : ℕ → BufReader → Bytes → Outcome (Bytes × BufReader)
  | 0, _, _ => .waits
  | fuel + 1, r, line =>
    match r.fillBuf with
    | .err message => .err message
    | .waits => .waits
    | .ok r =>
      match r.buf.dropWhile (· ≠ 10) with
      | lf :: rest => .ok (line ++ r.buf.takeWhile (· ≠ 10) ++ [lf], { r with buf := rest })
      | [] =>
        if r.buf = [] then .ok (line, r)
        else readUntil fuel { r with buf := [] } (line ++ r.buf)

def readLine (r : BufReader) : Outcome (Bytes × BufReader) :=
  readUntil (r.pending.length + 1) r []

end BufReader

/-- The first line of a stream, independent of its segments: up to the first line feed, or all
of it once the peer has closed. -/
def lineOf (bytes : Bytes) (closed : Bool) : Option Bytes :=
  match bytes.dropWhile (· ≠ 10) with
  | lf :: _ => some (bytes.takeWhile (· ≠ 10) ++ [lf])
  | [] => if closed then some bytes else none

theorem lineOf_append_of_lf {a rest : Bytes} {lf : UInt8} (h : a.dropWhile (· ≠ 10) = lf :: rest)
    (x : Bytes) (closed : Bool) :
    lineOf (a ++ x) closed = some (a.takeWhile (· ≠ 10) ++ [lf]) := by
  have hne : (a.dropWhile (· ≠ 10)).isEmpty = false := by rw [h]; rfl
  have htake : (a ++ x).takeWhile (· ≠ 10) = a.takeWhile (· ≠ 10) := by
    rw [List.takeWhile_append, if_neg]
    intro hlen
    have happ := List.takeWhile_append_dropWhile (p := (· ≠ (10 : UInt8))) (l := a)
    have := congrArg List.length happ
    rw [List.length_append, h, List.length_cons] at this
    omega
  rw [lineOf, List.dropWhile_append, hne, h, htake]
  rfl

theorem lineOf_append_of_no_lf {a : Bytes} (h : a.dropWhile (· ≠ 10) = []) (x : Bytes)
    (closed : Bool) : lineOf (a ++ x) closed = (lineOf x closed).map (a ++ ·) := by
  have hall : a.takeWhile (· ≠ 10) = a := by
    have happ := List.takeWhile_append_dropWhile (p := (· ≠ (10 : UInt8))) (l := a)
    rwa [h, List.append_nil] at happ
  have hdrop : (a ++ x).dropWhile (· ≠ 10) = x.dropWhile (· ≠ 10) := by
    rw [List.dropWhile_append, h]
    rfl
  have htake : (a ++ x).takeWhile (· ≠ 10) = a ++ x.takeWhile (· ≠ 10) := by
    rw [List.takeWhile_append, hall, if_pos rfl]
  unfold lineOf
  rw [hdrop]
  cases x.dropWhile (· ≠ 10) with
  | nil => cases closed <;> simp
  | cons lf rest => simp only [htake, Option.map_some, List.append_assoc]

namespace BufReader

/-- Filling the buffer moves bytes and loses none; an empty buffer means the end of the stream. -/
theorem fillBuf_cases (r : BufReader) :
    (∃ r', r.fillBuf = .ok r' ∧ r'.pending = r.pending ∧ r'.conn.closed = r.conn.closed ∧
      (r'.buf = [] → r.pending = [] ∧ r.conn.closed = true)) ∨
    (r.fillBuf = .waits ∧ r.pending = [] ∧ r.conn.closed = false) := by
  unfold fillBuf
  by_cases hbuf : r.buf = []
  · have hpend : r.pending = r.conn.unread := by rw [pending, hbuf, List.nil_append]
    rw [if_pos hbuf, hpend]
    cases hin : r.conn.incoming with
    | nil =>
      have hun : r.conn.unread = [] := by rw [Conn.unread, hin, flatten_nil]
      cases hcl : r.conn.closed with
      | false => exact Or.inr ⟨by simp [Conn.read, hin, hcl], hun, rfl⟩
      | true =>
        refine Or.inl ⟨⟨r.conn, []⟩, by simp [Conn.read, hin, hcl], ?_, hcl, fun _ => ⟨hun, rfl⟩⟩
        rw [pending, List.nil_append]
    | cons segment rest =>
      let conn := { r.conn with incoming := Conn.pushBack (segment.val.drop 8192) rest }
      refine Or.inl ⟨⟨conn, segment.val.take 8192⟩, by simp only [Conn.read, hin, conn], ?_, rfl,
        fun hnil => ?_⟩
      · simp [pending, Conn.unread, hin, conn, ← List.append_assoc]
      · rcases List.take_eq_nil_iff.mp hnil with h | h
        · exact absurd h (by norm_num)
        · exact absurd h segment.property
  · rw [if_neg hbuf]
    exact Or.inl ⟨r, rfl, rfl, rfl, fun h => absurd h hbuf⟩

/-- A line is read whole, however its bytes are cut, or the reader waits for the rest. -/
theorem readUntil_spec (fuel : ℕ) (r : BufReader) (line : Bytes) (h : r.pending.length < fuel) :
    match lineOf r.pending r.conn.closed with
    | some bytes => ∃ r', readUntil fuel r line = .ok (line ++ bytes, r')
    | none => readUntil fuel r line = .waits := by
  induction fuel generalizing r line with
  | zero => omega
  | succ fuel ih =>
    unfold readUntil
    rcases r.fillBuf_cases with ⟨r', hfill, hpend, hcl, hnil⟩ | ⟨hfill, hpend, hcl⟩
    · rw [hfill, ← hpend, ← hcl]
      simp only [pending] at hpend ⊢
      cases hdrop : r'.buf.dropWhile (· ≠ 10) with
      | cons lf rest =>
        rw [lineOf_append_of_lf hdrop]
        exact ⟨{ r' with buf := rest }, by simp only [List.append_assoc]⟩
      | nil =>
        by_cases hbuf : r'.buf = []
        · obtain ⟨hempty, hclosed⟩ := hnil hbuf
          have hun : r'.buf ++ r'.conn.unread = [] := hpend.trans hempty
          rw [hun, hcl, hclosed]
          exact ⟨r', by simp [hbuf]⟩
        · rw [lineOf_append_of_no_lf hdrop]
          have hlt : (new r'.conn).pending.length < fuel := by
            have hpos := List.length_pos_iff.mpr hbuf
            have hlen := congrArg List.length hpend
            simp only [pending, new, List.length_append, List.nil_append] at hlen h ⊢
            omega
          have hrec := ih (new r'.conn) (line ++ r'.buf) hlt
          simp only [pending, new, List.nil_append] at hrec
          cases hl : lineOf r'.conn.unread r'.conn.closed with
          | some bytes =>
            rw [hl] at hrec
            obtain ⟨r'', hr''⟩ := hrec
            simp only [Option.map_some, if_neg hbuf]
            exact ⟨r'', by rw [hr'', List.append_assoc]⟩
          | none =>
            rw [hl] at hrec
            simpa only [Option.map_none, if_neg hbuf] using hrec
    · rw [hfill, hpend, hcl]
      rfl

/-- A line is taken off the front of what is pending. -/
theorem readUntil_append {fuel : ℕ} {r r' : BufReader} {line bytes : Bytes}
    (h : readUntil fuel r line = .ok (bytes, r')) : line ++ r.pending = bytes ++ r'.pending := by
  induction fuel generalizing r line with
  | zero => cases h
  | succ fuel ih =>
    unfold readUntil at h
    obtain ⟨r₁, hfill, hpend, -, -⟩ | ⟨hfill, -, -⟩ := r.fillBuf_cases
    · rw [hfill] at h
      rw [← hpend]
      have hsplit := List.takeWhile_append_dropWhile (p := (· ≠ (10 : UInt8))) (l := r₁.buf)
      cases hdrop : r₁.buf.dropWhile (· ≠ 10) with
      | cons lf rest =>
        simp only [hdrop] at h hsplit
        obtain ⟨rfl, rfl⟩ := Prod.mk.inj (Outcome.ok.inj h)
        conv_lhs => rw [pending, ← hsplit]
        simp only [pending, List.append_assoc, List.cons_append, List.nil_append]
      | nil =>
        simp only [hdrop] at h
        split_ifs at h
        · obtain ⟨rfl, rfl⟩ := Prod.mk.inj (Outcome.ok.inj h)
          rfl
        · rw [← ih h]
          simp [pending]
    · rw [hfill] at h
      cases h

theorem readLine_append {r r' : BufReader} {line : Bytes} (h : r.readLine = .ok (line, r')) :
    r.pending = line ++ r'.pending := readUntil_append h

theorem readLine_spec (r : BufReader) :
    match lineOf r.pending r.conn.closed with
    | some bytes => ∃ r', r.readLine = .ok (bytes, r')
    | none => r.readLine = .waits :=
  readUntil_spec (r.pending.length + 1) r [] (Nat.lt_succ_self _)

end BufReader

end Wire
