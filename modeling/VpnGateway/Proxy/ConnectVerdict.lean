import VpnGateway.Pool.ReplyReaders

/-! The HTTP CONNECT handshake as the loop that the source has, with a count of its reads, next to
a verdict that looks at the whole reply at once. -/
namespace VpnGateway

open Wire

/-- The loop of `http_connect_handshake` behind the request, with the number of its reads. -/
def connectLoop (conn : Conn) (buf : Bytes) : ℕ × Outcome (Bytes × Conn) :=
  if 1024 ≤ buf.length then (0, .err "HTTP CONNECT response too large")
  else match conn.read (1024 - buf.length) with
    | .err message => (1, .err message)
    | .waits => (1, .waits)
    | .ok (chunk, conn) =>
      if chunk = [] then (1, .err "HTTP CONNECT: connection closed before response")
      else match findHeaderEnd (buf ++ chunk) with
        | some headerEnd => (1, .ok ((buf ++ chunk).take headerEnd, conn))
        | none =>
          let (reads, result) := connectLoop conn (buf ++ chunk)
          (reads + 1, result)
termination_by 1024 - buf.length
decreasing_by all_goals
  have := List.length_pos_iff.mpr (by assumption)
  simp only [List.length_append]
  omega

/-- `http_connect_handshake`, with the number of its reads. -/
def httpConnectRun (peer : Peer) (conn : Conn) (host : String) (port : UInt16) :
    ℕ × Outcome Conn :=
  let (reads, header) := connectLoop (peer.write conn (connectRequest host port)) []
  (reads, do
    let (header, conn) ← header
    let status := connectStatus header
    if status = 200 then pure conn
    else
      let firstLine := String.ofList (Text.firstLine (Utf8.decodeLossy header))
      .err s!"HTTP CONNECT failed with status {status}: {firstLine}")

/-- An empty line ends at this position. -/
def EmptyLineEnds (reply : Bytes) (e : ℕ) : Prop :=
  ∃ start rest, reply = start ++ [13, 10, 13, 10] ++ rest ∧ e = start.length + 4

theorem emptyLineEnds_of_find {reply : Bytes} {e : ℕ} (h : findHeaderEnd reply = some e) :
    EmptyLineEnds reply e := by
  obtain ⟨start, hstart⟩ := exists_header h
  refine ⟨start, reply.drop e, ?_, ?_⟩
  · rw [← hstart, List.take_append_drop]
  · have hlen := congrArg List.length hstart
    rw [List.length_take_of_le (findHeaderEnd_le h)] at hlen
    simpa using hlen

theorem exists_find_le {reply : Bytes} {e : ℕ} (h : EmptyLineEnds reply e) :
    ∃ n ≤ e, findHeaderEnd reply = some n := by
  obtain ⟨start, rest, rfl, rfl⟩ := h
  induction start with
  | nil => exact ⟨4, le_rfl, rfl⟩
  | cons b start ih =>
    obtain ⟨n, hn, hfind⟩ := ih
    simp only [List.cons_append]
    rw [findHeaderEnd]
    split_ifs
    · exact ⟨4, by simp, rfl⟩
    · exact ⟨n + 1, by simpa using hn, by rw [hfind]; rfl⟩

/-- The scan finds where the first empty line ends. -/
theorem findHeaderEnd_eq_some_iff {reply : Bytes} {e : ℕ} :
    findHeaderEnd reply = some e ↔ IsLeast {e | EmptyLineEnds reply e} e := by
  constructor
  · intro h
    refine ⟨emptyLineEnds_of_find h, fun e' he' => ?_⟩
    obtain ⟨n, hn, hfind⟩ := exists_find_le he'
    obtain rfl := Option.some.inj (h.symm.trans hfind)
    exact hn
  · rintro ⟨hmem, hleast⟩
    obtain ⟨n, hn, hfind⟩ := exists_find_le hmem
    rw [hfind, le_antisymm hn (hleast (emptyLineEnds_of_find hfind))]

section Loop

variable {conn : Conn} {buf : Bytes}

/-- The loop is the one that is bounded by the size of its buffer. -/
theorem connectLoop_result (reads : ℕ) (conn : Conn) (buf : Bytes)
    (h : 1024 ≤ reads + buf.length) : (connectLoop conn buf).2 = readHeader reads conn buf := by
  induction reads generalizing conn buf with
  | zero =>
    rw [connectLoop, if_pos (by omega)]
    rfl
  | succ reads ih =>
    rw [connectLoop, readHeader]
    split_ifs with hfull
    · rfl
    · cases hread : conn.read (1024 - buf.length) with
      | err message => rfl
      | waits => rfl
      | ok read =>
        obtain ⟨chunk, conn'⟩ := read
        dsimp only
        split_ifs with hchunk
        · rfl
        · cases hend : findHeaderEnd (buf ++ chunk) with
          | some headerEnd => rfl
          | none =>
            have hpos := List.length_pos_iff.mpr hchunk
            exact ih _ _ (by rw [List.length_append]; omega)

/-- Every read but the last one takes a byte of the buffer, and the last one has room for one. -/
theorem connectLoop_reads_le : (connectLoop conn buf).1 ≤ 1024 - buf.length := by
  fun_induction connectLoop conn buf with
  | case1 => exact Nat.zero_le _
  | case2 => omega
  | case3 => omega
  | case4 => omega
  | case5 => omega
  | case6 conn buf hfull chunk conn' hread hchunk hnone reads result hloop ih =>
    have hpos := List.length_pos_iff.mpr hchunk
    rw [hloop, List.length_append] at ih
    show reads + 1 ≤ 1024 - buf.length
    omega

/-- At the end of the stream a read does not wait. -/
theorem connectLoop_ne_waits (buf : Bytes) (hclosed : conn.closed = true) :
    (connectLoop conn buf).2 ≠ .waits := by
  fun_induction connectLoop conn buf with
  | case1 => nofun
  | case2 => nofun
  | case3 conn buf hfull hread =>
    obtain ⟨chunk, conn', hchunk, -⟩ | ⟨hend, -⟩ :=
      conn.read_cases (n := 1024 - buf.length) (by omega)
    · rw [hread] at hchunk
      cases hchunk
    · rw [hread, if_pos hclosed] at hend
      cases hend
  | case4 => nofun
  | case5 => nofun
  | case6 conn buf hfull chunk conn' hread hchunk hnone reads result hloop ih =>
    rw [hloop] at ih
    exact ih ((Conn.closed_of_read hread).trans hclosed)

end Loop

/-- With the reads counted the handshake is the same. -/
theorem httpConnectRun_result (peer : Peer) (conn : Conn) (host : String) (port : UInt16) :
    (httpConnectRun peer conn host port).2 = httpConnectHandshake peer conn host port := by
  have hloop := connectLoop_result 1024 (peer.write conn (connectRequest host port)) [] (by simp)
  rw [httpConnectHandshake, ← hloop]
  rfl

theorem connectStatus_eq_iff {header : Bytes} : connectStatus header = 200 ↔
    ((Text.splitWhitespace (Text.firstLine (Utf8.decodeLossy header)))[1]?).bind Text.parseU16 =
      some 200 := by
  rw [connectStatus, Option.getD_eq_iff]
  simp

/-- On a reply that ends, cut in any way, the handshake reads at most 1024 times and comes to an
end. It succeeds exactly if the first empty line ends within 1024 bytes and the second word of the
first line is the number 200. -/
theorem httpConnectRun_verdict {reply : Bytes} (segments : Chunking reply) (host : String)
    (port : UInt16) :
    let run := httpConnectRun (replying segments) (replying segments).connect host port
    run.2 = httpConnectHandshake (replying segments) (replying segments).connect host port ∧
    run.1 ≤ 1024 ∧
    (run.2.isOk ↔ ∃ e ≤ 1024, IsLeast {e | EmptyLineEnds reply e} e ∧
      ((Text.splitWhitespace (Text.firstLine (Utf8.decodeLossy (reply.take e))))[1]?).bind
        Text.parseU16 = some 200) ∧
    (¬ run.2.isOk → ∃ message, run.2 = .err message) := by
  intro run
  have hresult := httpConnectRun_result (replying segments) (replying segments).connect host port
  refine ⟨hresult, connectLoop_reads_le, ?_, fun hfails => ?_⟩
  · rw [hresult, httpConnectHandshake_replying]
    simp only [HeaderAccepts, findHeaderEnd_eq_some_iff, connectStatus_eq_iff]
  · have hclosed : ((replying segments).write (replying segments).connect
        (connectRequest host port)).closed = true := by
      rw [replying_write _ (connectRequest_ne_nil host port)]
    have hends := connectLoop_ne_waits [] hclosed
    cases hrun : run.2 with
    | err message => exact ⟨message, rfl⟩
    | ok conn =>
      rw [hrun] at hfails
      exact absurd rfl hfails
    | waits =>
      rcases Outcome.bind_eq_waits.mp hrun with hwaits | ⟨read, -, hwaits⟩
      · exact absurd hwaits hends
      · dsimp only at hwaits
        split_ifs at hwaits

end VpnGateway
