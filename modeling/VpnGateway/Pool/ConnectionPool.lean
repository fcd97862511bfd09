import VpnGateway.Core.FinMap
import VpnGateway.Pool.Proxy

/-! The pool of connections that were put back: which of those stored under a key a call gets, by
the verdict of a peek with a time limit. -/
namespace VpnGateway

/-- How a connection stands, and stays while a call looks at it. -/
inductive Socket where
  | idle | readable | closed | failed
  deriving DecidableEq

structure TcpStream where
  fd : ℕ
  socket : Socket
  deriving DecidableEq

namespace TcpStream

/-- The other end has not closed it, and it has not failed. -/
def IsOpen (stream : TcpStream) : Prop := stream.socket = .idle ∨ stream.socket = .readable

instance (stream : TcpStream) : Decidable stream.IsOpen := inferInstanceAs (Decidable (_ ∨ _))

end TcpStream

/-- What a peek into one byte comes to: the bytes that it finds, or an error. It is `none` if the
peek stays pending. -/
abbrev Peek := TcpStream → Option (Except Unit ℕ)

/-- How a peek goes on each kind of socket. -/
structure Peek.Spec (peek : Peek) : Prop where
  idle : ∀ stream, stream.socket = .idle → peek stream = none
  readable : ∀ stream, stream.socket = .readable → peek stream = some (.ok 1)
  closed : ∀ stream, stream.socket = .closed → peek stream = some (.ok 0)
  failed : ∀ stream, stream.socket = .failed → peek stream = some (.error ())

structure PooledConnection where
  stream : TcpStream
  createdAt : Instant
  deriving DecidableEq

/-- The connections under a key are in a vector, here with its end first. -/
structure ConnectionPool where
  pools : FinMap String (List PooledConnection)
  maxIdle : ℕ
  maxPerProxy : ℕ

namespace ConnectionPool

def new : ConnectionPool where
  pools := .empty
  maxIdle := fromSecs 30
  maxPerProxy := 5

def withConfig (maxIdleSecs maxPerProxy : ℕ) : ConnectionPool where
  pools := .empty
  maxIdle := fromSecs maxIdleSecs
  maxPerProxy := maxPerProxy

/-- A peek that is pending when the 100 ms are over is no success. -/
def isConnectionAlive (peek : Peek) (stream : TcpStream) : Bool :=
  match peek stream with
  | some (.ok _) => true
  | some (.error _) | none => false

/-- Pop up to the first connection that is not too old; the batch has it, and nothing else. -/
def popBatch (maxIdle : ℕ) (now : Instant) :
    List PooledConnection → List PooledConnection × List PooledConnection
  | [] => ([], [])
  | conn :: rest =>
    if now - conn.createdAt ≤ maxIdle then ([conn], rest) else popBatch maxIdle now rest

def firstAlive (peek : Peek) : List PooledConnection → Option TcpStream
  | [] => none
  | conn :: rest =>
    if isConnectionAlive peek conn.stream then some conn.stream else firstAlive peek rest

def get (peek : Peek) (pool : ConnectionPool) (now : Instant) (proxyKey : String) :
    Option TcpStream × ConnectionPool :=
  match pool.pools.get proxyKey with
  | none => (none, pool)
  | some conns =>
    let (candidates, rest) := popBatch pool.maxIdle now conns
    (firstAlive peek candidates,
      { pool with pools := pool.pools.modify proxyKey fun _ => rest })

def put (pool : ConnectionPool) (now : Instant) (proxyKey : String) (stream : TcpStream) :
    ConnectionPool :=
  { pool with
    pools := (pool.pools.orInsert proxyKey []).modify proxyKey fun conns =>
      if pool.maxPerProxy ≤ conns.length then conns else ⟨stream, now⟩ :: conns }

def cleanup (pool : ConnectionPool) (now : Instant) : ConnectionPool :=
  { pool with
    pools := pool.pools.mapValues fun conns =>
      conns.filter fun conn => now - conn.createdAt < pool.maxIdle }

def clear (pool : ConnectionPool) : ConnectionPool := { pool with pools := .empty }

/-- The connections that are stored under a key. -/
def stored (pool : ConnectionPool) (proxyKey : String) : List PooledConnection :=
  (pool.pools.get proxyKey).getD []

/-- Not too old. -/
def Fresh (pool : ConnectionPool) (now : Instant) (conn : PooledConnection) : Prop :=
  now - conn.createdAt ≤ pool.maxIdle

/-- Not too old, and open. -/
def Usable (pool : ConnectionPool) (now : Instant) (conn : PooledConnection) : Prop :=
  pool.Fresh now conn ∧ conn.stream.IsOpen

/-- A call gets a usable connection if there is one, and none that the peer has closed. -/
structure Serves (peek : Peek) (pool : ConnectionPool) (now : Instant) (proxyKey : String) :
    Prop where
  usable : (∃ conn ∈ pool.stored proxyKey, pool.Usable now conn) →
    ∃ conn ∈ pool.stored proxyKey, pool.Usable now conn ∧
      (pool.get peek now proxyKey).1 = some conn.stream
  notClosed : ∀ stream, (pool.get peek now proxyKey).1 = some stream → stream.socket ≠ .closed

/-- Of the connections that are not too old, the first from the end has data pending, or it has
failed and there is no usable one. -/
def FirstReadable (pool : ConnectionPool) (now : Instant) (proxyKey : String) : Prop :=
  ∀ before conn after, pool.stored proxyKey = before ++ conn :: after →
    (∀ old ∈ before, ¬ pool.Fresh now old) → pool.Fresh now conn →
      conn.stream.socket = .readable ∨
        conn.stream.socket = .failed ∧ ∀ other ∈ after, ¬ pool.Usable now other

variable {peek : Peek} {pool : ConnectionPool} {now : Instant} {proxyKey : String}

theorem isConnectionAlive_iff (hpeek : peek.Spec) (stream : TcpStream) :
    isConnectionAlive peek stream ↔ stream.socket = .readable ∨ stream.socket = .closed := by
  unfold isConnectionAlive
  cases hsocket : stream.socket with
  | idle => simp [hpeek.idle stream hsocket]
  | readable => simp [hpeek.readable stream hsocket]
  | closed => simp [hpeek.closed stream hsocket]
  | failed => simp [hpeek.failed stream hsocket]

instance : DecidablePred (pool.Fresh now) := fun _ => inferInstanceAs (Decidable (_ ≤ _))

theorem popBatch_append {before after : List PooledConnection} {conn : PooledConnection}
    (hold : ∀ old ∈ before, ¬ pool.Fresh now old) (hfresh : pool.Fresh now conn) :
    popBatch pool.maxIdle now (before ++ conn :: after) = ([conn], after) := by
  induction before with
  | nil => exact if_pos hfresh
  | cons first before ih =>
    obtain ⟨hfirst, hbefore⟩ := List.forall_mem_cons.mp hold
    exact (if_neg hfirst).trans (ih hbefore)

theorem popBatch_of_old {conns : List PooledConnection}
    (hold : ∀ old ∈ conns, ¬ pool.Fresh now old) : popBatch pool.maxIdle now conns = ([], []) := by
  induction conns with
  | nil => rfl
  | cons first conns ih =>
    obtain ⟨hfirst, hconns⟩ := List.forall_mem_cons.mp hold
    exact (if_neg hfirst).trans (ih hconns)

/-- All connections are too old, or one of them is the first that is not. -/
theorem exists_first (pool : ConnectionPool) (now : Instant) (conns : List PooledConnection) :
    (∀ old ∈ conns, ¬ pool.Fresh now old) ∨ ∃ before conn after, conns = before ++ conn :: after ∧
      (∀ old ∈ before, ¬ pool.Fresh now old) ∧ pool.Fresh now conn := by
  cases hfind : conns.find? fun conn => pool.Fresh now conn with
  | none => exact .inl fun old hmem => by simpa using List.find?_eq_none.mp hfind old hmem
  | some conn =>
    obtain ⟨hfresh, before, after, hconns, hold⟩ := List.find?_eq_some_iff_append.mp hfind
    exact .inr ⟨before, conn, after, hconns, fun old hmem => by simpa using hold old hmem,
      by simpa using hfresh⟩

/-- A call looks at the batch, and leaves what is below it. -/
theorem get_eq (peek : Peek) (pool : ConnectionPool) (now : Instant) (proxyKey : String) :
    (pool.get peek now proxyKey).1 =
        firstAlive peek (popBatch pool.maxIdle now (pool.stored proxyKey)).1 ∧
      (pool.get peek now proxyKey).2.stored proxyKey =
        (popBatch pool.maxIdle now (pool.stored proxyKey)).2 := by
  unfold get stored
  cases hpool : pool.pools.get proxyKey with
  | none => simp [popBatch, firstAlive, hpool]
  | some conns => simp [FinMap.get_modify, hpool]

theorem stored_get_of_ne {key : String} (h : key ≠ proxyKey) :
    (pool.get peek now proxyKey).2.stored key = pool.stored key := by
  unfold get stored
  cases pool.pools.get proxyKey with
  | none => rfl
  | some conns => simp [FinMap.get_modify, h]

/-- The first connection that is not too old is given back if the peek finds it readable or closed,
and else there is nothing to give back. -/
theorem get_of_first (hpeek : peek.Spec) {before after : List PooledConnection}
    {conn : PooledConnection} (hstored : pool.stored proxyKey = before ++ conn :: after)
    (hold : ∀ old ∈ before, ¬ pool.Fresh now old) (hfresh : pool.Fresh now conn) :
    (pool.get peek now proxyKey).1 =
      if conn.stream.socket = .readable ∨ conn.stream.socket = .closed then some conn.stream
      else none := by
  rw [(get_eq peek pool now proxyKey).1, hstored, popBatch_append hold hfresh]
  exact if_congr (isConnectionAlive_iff hpeek conn.stream) rfl rfl

theorem get_of_old (peek : Peek) (hold : ∀ old ∈ pool.stored proxyKey, ¬ pool.Fresh now old) :
    (pool.get peek now proxyKey).1 = none := by
  rw [(get_eq peek pool now proxyKey).1, popBatch_of_old hold]
  rfl

theorem Serves.get_ne_none (h : pool.Serves peek now proxyKey)
    (husable : ∃ conn ∈ pool.stored proxyKey, pool.Usable now conn) :
    (pool.get peek now proxyKey).1 ≠ none := by
  obtain ⟨conn, -, -, hget⟩ := h.usable husable
  rw [hget]
  exact Option.some_ne_none _

theorem firstReadable_of_serves (hpeek : peek.Spec) (h : pool.Serves peek now proxyKey) :
    pool.FirstReadable now proxyKey := by
  intro before conn after hstored hold hfresh
  have hget := get_of_first hpeek hstored hold hfresh
  have hmem : ∀ other ∈ conn :: after, other ∈ pool.stored proxyKey := fun other hother =>
    hstored ▸ List.mem_append_right before hother
  cases hsocket : conn.stream.socket with
  | readable => exact .inl rfl
  | idle =>
    rw [if_neg (by simp [hsocket])] at hget
    exact absurd hget
      (h.get_ne_none ⟨conn, hmem conn List.mem_cons_self, hfresh, .inl hsocket⟩)
  | closed =>
    rw [if_pos (.inr hsocket)] at hget
    exact absurd hsocket (h.notClosed conn.stream hget)
  | failed =>
    rw [if_neg (by simp [hsocket])] at hget
    exact .inr ⟨rfl, fun other hother husable => h.get_ne_none
      ⟨other, hmem other (List.mem_cons_of_mem conn hother), husable⟩ hget⟩

theorem serves_of_firstReadable (hpeek : peek.Spec) (h : pool.FirstReadable now proxyKey) :
    pool.Serves peek now proxyKey := by
  rcases exists_first pool now (pool.stored proxyKey) with
    hold | ⟨before, conn, after, hstored, hold, hfresh⟩
  · have hget := get_of_old peek hold
    refine ⟨?_, by simp [hget]⟩
    rintro ⟨conn, hmem, husable⟩
    exact absurd husable.1 (hold conn hmem)
  · have hget := get_of_first hpeek hstored hold hfresh
    rcases h before conn after hstored hold hfresh with hreadable | ⟨hfailed, hafter⟩
    · rw [if_pos (.inl hreadable)] at hget
      refine ⟨fun _ => ⟨conn, by simp [hstored], ⟨hfresh, .inr hreadable⟩, hget⟩, ?_⟩
      intro stream hstream
      obtain rfl := Option.some.inj (hget.symm.trans hstream)
      simp [hreadable]
    · rw [if_neg (by simp [hfailed])] at hget
      refine ⟨?_, by simp [hget]⟩
      rintro ⟨other, hmem, hother, hopen⟩
      rw [hstored, List.mem_append, List.mem_cons] at hmem
      rcases hmem with hmem | rfl | hmem
      · exact absurd hother (hold other hmem)
      · simp [TcpStream.IsOpen, hfailed] at hopen
      · exact absurd ⟨hother, hopen⟩ (hafter other hmem)

/-- A call serves exactly if the first connection that is not too old has data pending, or has
failed with no usable one behind it. -/
theorem get_serves_iff (hpeek : peek.Spec) (pool : ConnectionPool) (now : Instant)
    (proxyKey : String) :
    pool.Serves peek now proxyKey ↔ pool.FirstReadable now proxyKey :=
  ⟨firstReadable_of_serves hpeek, serves_of_firstReadable hpeek⟩

/-- A peek on sockets that are as they look. -/
def peekSocket (stream : TcpStream) : Option (Except Unit ℕ) :=
  match stream.socket with
  | .idle => none
  | .readable => some (.ok 1)
  | .closed => some (.ok 0)
  | .failed => some (.error ())

theorem peekSocket_spec : Peek.Spec peekSocket where
  idle stream h := by rw [peekSocket, h]
  readable stream h := by rw [peekSocket, h]
  closed stream h := by rw [peekSocket, h]
  failed stream h := by rw [peekSocket, h]

/-- The last connection has data pending, and the one below it has failed. -/
theorem serves_readable :
    ((new.put 0 "k" ⟨7, .failed⟩).put 1 "k" ⟨8, .readable⟩).Serves peekSocket 2 "k" :=
  (get_serves_iff peekSocket_spec _ 2 "k").mpr fun before conn after hstored hold hfresh => by
    rcases before with _ | ⟨first, before⟩
    · exact .inl (congrArg TcpStream.socket
        (congrArg PooledConnection.stream (List.cons.inj hstored).1.symm))
    · refine absurd ?_ (hold first List.mem_cons_self)
      rw [← (List.cons.inj hstored).1]
      decide

/-- A connection with nothing to read is not given back, one that the peer has closed is, and one
that has failed hides another with data pending. -/
theorem not_serves_idle_closed_failed :
    ¬ (new.put 0 "k" ⟨7, .idle⟩).Serves peekSocket 1 "k" ∧
    ¬ (new.put 0 "k" ⟨7, .closed⟩).Serves peekSocket 1 "k" ∧
    ¬ ((new.put 0 "k" ⟨7, .readable⟩).put 0 "k" ⟨8, .failed⟩).Serves peekSocket 1 "k" := by
  refine ⟨fun h => ?_, fun h => ?_, fun h => ?_⟩
  · exact h.get_ne_none ⟨⟨⟨7, .idle⟩, 0⟩, by decide, by decide, by decide⟩ (by decide)
  · exact h.notClosed ⟨7, .closed⟩ (by decide) rfl
  · exact h.get_ne_none ⟨⟨⟨7, .readable⟩, 0⟩, by decide, by decide, by decide⟩ (by decide)

/-- A call of the pool by any task. -/
inductive Call where
  | get (proxyKey : String)
  | put (proxyKey : String) (stream : TcpStream)
  | cleanup
  | clear

def Call.apply (peek : Peek) (call : Call) (pool : ConnectionPool) (now : Instant) :
    ConnectionPool :=
  match call with
  | .get proxyKey => (pool.get peek now proxyKey).2
  | .put proxyKey stream => pool.put now proxyKey stream
  | .cleanup => pool.cleanup now
  | .clear => pool.clear

/-- The connections that a call puts under a key. -/
def Call.puts (proxyKey : String) : Call → Multiset TcpStream
  | .put key stream => if key = proxyKey then {stream} else 0
  | .get _ | .cleanup | .clear => 0

/-- The connections that a call gets from a key. -/
def Call.gets (peek : Peek) (proxyKey : String) (pool : ConnectionPool) (now : Instant) :
    Call → Multiset TcpStream
  | .get key => if key = proxyKey then (pool.get peek now key).1.toList else 0
  | .put .. | .cleanup | .clear => 0

/-- The calls in this order, each with the time at which it is made. -/
def applyAll (peek : Peek) (pool : ConnectionPool) (calls : List (Call × Instant)) :
    ConnectionPool :=
  calls.foldl (fun pool call => call.1.apply peek pool call.2) pool

def putAll (proxyKey : String) (calls : List (Call × Instant)) : Multiset TcpStream :=
  (calls.map fun call => call.1.puts proxyKey).sum

def getAll (peek : Peek) (proxyKey : String) :
    ConnectionPool → List (Call × Instant) → Multiset TcpStream
  | _, [] => 0
  | pool, call :: calls =>
    call.1.gets peek proxyKey pool call.2 +
      getAll peek proxyKey (call.1.apply peek pool call.2) calls

def streams (pool : ConnectionPool) (proxyKey : String) : Multiset TcpStream :=
  ((pool.stored proxyKey).map PooledConnection.stream : Multiset TcpStream)

theorem popBatch_sublist (maxIdle : ℕ) (now : Instant) (conns : List PooledConnection) :
    ((popBatch maxIdle now conns).1 ++ (popBatch maxIdle now conns).2).Sublist conns := by
  induction conns with
  | nil => exact .refl []
  | cons conn rest ih =>
    rw [popBatch]
    split_ifs
    · exact .refl (conn :: rest)
    · exact ih.cons conn

theorem firstAlive_sublist (peek : Peek) (conns : List PooledConnection) :
    (firstAlive peek conns).toList.Sublist (conns.map PooledConnection.stream) := by
  induction conns with
  | nil => exact .refl []
  | cons conn rest ih =>
    rw [firstAlive, List.map_cons]
    split_ifs
    · exact .cons_cons conn.stream (List.nil_sublist _)
    · exact ih.cons conn.stream

theorem isConnectionAlive_of_firstAlive {conns : List PooledConnection} {stream : TcpStream}
    (h : firstAlive peek conns = some stream) : isConnectionAlive peek stream := by
  induction conns with
  | nil => cases h
  | cons conn rest ih =>
    rw [firstAlive] at h
    split_ifs at h with halive
    · rwa [← Option.some.inj h]
    · exact ih h

theorem stored_put (pool : ConnectionPool) (now : Instant) (key proxyKey : String)
    (stream : TcpStream) :
    (pool.put now key stream).stored proxyKey =
      if key = proxyKey ∧ (pool.stored proxyKey).length < pool.maxPerProxy then
        ⟨stream, now⟩ :: pool.stored proxyKey
      else pool.stored proxyKey := by
  unfold stored put
  simp only [← not_lt, ite_not, FinMap.get_modify, FinMap.get_orInsert]
  by_cases hkey : key = proxyKey
  · subst hkey
    cases hpool : pool.pools.get key with
    | none => simp [FinMap.notMem_iff, hpool]
    | some conns => simp [FinMap.mem_of_get hpool]
  · simp [hkey, Ne.symm hkey]

theorem stored_cleanup (pool : ConnectionPool) (now : Instant) (proxyKey : String) :
    (pool.cleanup now).stored proxyKey =
      (pool.stored proxyKey).filter fun conn => now - conn.createdAt < pool.maxIdle := by
  unfold stored cleanup
  rw [FinMap.get_mapValues]
  cases pool.pools.get proxyKey <;> rfl

/-- No call leaves more under a key than it finds there and puts there, less what it gets. -/
theorem gets_add_streams_le (peek : Peek) (call : Call) (pool : ConnectionPool) (now : Instant)
    (proxyKey : String) :
    call.gets peek proxyKey pool now + (call.apply peek pool now).streams proxyKey ≤
      pool.streams proxyKey + call.puts proxyKey := by
  cases call with
  | get key =>
    by_cases hkey : key = proxyKey
    · subst hkey
      obtain ⟨hget, hrest⟩ := get_eq peek pool now key
      have hpop := (popBatch_sublist pool.maxIdle now (pool.stored key)).map
        PooledConnection.stream
      rw [List.map_append] at hpop
      have halive := (firstAlive_sublist peek
        (popBatch pool.maxIdle now (pool.stored key)).1).append_right
          ((popBatch pool.maxIdle now (pool.stored key)).2.map PooledConnection.stream)
      rw [Call.gets, if_pos rfl, Call.puts, add_zero, streams, streams, Call.apply, hget, hrest,
        Multiset.coe_add, Multiset.coe_le]
      exact (halive.trans hpop).subperm
    · rw [Call.gets, if_neg hkey, Call.puts, zero_add, add_zero, streams, streams, Call.apply,
        stored_get_of_ne (Ne.symm hkey)]
  | put key stream =>
    rw [Call.gets, Call.puts, zero_add, streams, streams, Call.apply, stored_put]
    split_ifs with hput hkey hkey
    · rw [List.map_cons, ← Multiset.cons_coe, add_comm, Multiset.singleton_add]
    · exact absurd hput.1 hkey
    · exact Multiset.le_add_right _ _
    · exact Multiset.le_add_right _ _
  | cleanup =>
    rw [Call.gets, Call.puts, zero_add, add_zero, streams, streams, Call.apply, stored_cleanup,
      Multiset.coe_le]
    exact (List.filter_sublist.map _).subperm
  | clear => exact Multiset.zero_le _

theorem getAll_add_streams_le (peek : Peek) (pool : ConnectionPool)
    (calls : List (Call × Instant)) (proxyKey : String) :
    getAll peek proxyKey pool calls + (pool.applyAll peek calls).streams proxyKey ≤
      pool.streams proxyKey + putAll proxyKey calls := by
  induction calls generalizing pool with
  | nil => simp [getAll, applyAll, putAll]
  | cons call calls ih =>
    have hstep := gets_add_streams_le peek call.1 pool call.2 proxyKey
    have hrest := ih (call.1.apply peek pool call.2)
    calc getAll peek proxyKey pool (call :: calls) +
          (pool.applyAll peek (call :: calls)).streams proxyKey
        = call.1.gets peek proxyKey pool call.2 +
          (getAll peek proxyKey (call.1.apply peek pool call.2) calls +
            ((call.1.apply peek pool call.2).applyAll peek calls).streams proxyKey) :=
          add_assoc _ _ _
      _ ≤ call.1.gets peek proxyKey pool call.2 +
          ((call.1.apply peek pool call.2).streams proxyKey + putAll proxyKey calls) :=
          add_le_add_right hrest _
      _ ≤ pool.streams proxyKey + call.1.puts proxyKey + putAll proxyKey calls := by
          rw [← add_assoc]
          exact add_le_add_left hstep _
      _ = pool.streams proxyKey + putAll proxyKey (call :: calls) := by
          rw [putAll, putAll, List.map_cons, List.sum_cons, add_assoc]

/-- Over a run from an empty pool, what was got from a key and is still there was put there, and as
often. -/
theorem getAll_le_putAll (peek : Peek) (maxIdleSecs maxPerProxy : ℕ)
    (calls : List (Call × Instant)) (proxyKey : String) :
    getAll peek proxyKey (withConfig maxIdleSecs maxPerProxy) calls +
        ((withConfig maxIdleSecs maxPerProxy).applyAll peek calls).streams proxyKey ≤
      putAll proxyKey calls := by
  have hrun := getAll_add_streams_le peek (withConfig maxIdleSecs maxPerProxy) calls proxyKey
  rwa [show (withConfig maxIdleSecs maxPerProxy).streams proxyKey = 0 from rfl, zero_add] at hrun

theorem maxPerProxy_apply (peek : Peek) (call : Call) (pool : ConnectionPool) (now : Instant) :
    (call.apply peek pool now).maxPerProxy = pool.maxPerProxy := by
  cases call with
  | get key =>
    rw [Call.apply, get]
    cases pool.pools.get key <;> rfl
  | put | cleanup | clear => rfl

theorem length_stored_apply_le (peek : Peek) (call : Call) (now : Instant)
    (h : (pool.stored proxyKey).length ≤ pool.maxPerProxy) :
    ((call.apply peek pool now).stored proxyKey).length ≤ pool.maxPerProxy := by
  cases call with
  | get key =>
    by_cases hkey : proxyKey = key
    · subst hkey
      rw [Call.apply, (get_eq peek pool now proxyKey).2]
      exact ((List.sublist_append_right _ _).trans (popBatch_sublist _ _ _)).length_le.trans h
    · rwa [Call.apply, stored_get_of_ne hkey]
  | put key stream =>
    rw [Call.apply, stored_put]
    split_ifs with hput
    · exact hput.2
    · exact h
  | cleanup =>
    rw [Call.apply, stored_cleanup]
    exact (List.length_filter_le _ _).trans h
  | clear => exact Nat.zero_le _

/-- No run stores more under a key than the pool allows. -/
theorem length_stored_applyAll_le (peek : Peek) (maxIdleSecs maxPerProxy : ℕ)
    (calls : List (Call × Instant)) (proxyKey : String) :
    (((withConfig maxIdleSecs maxPerProxy).applyAll peek calls).stored proxyKey).length ≤
      maxPerProxy := by
  suffices hrun : ∀ pool : ConnectionPool, (pool.stored proxyKey).length ≤ pool.maxPerProxy →
      ((pool.applyAll peek calls).stored proxyKey).length ≤ pool.maxPerProxy from
    hrun (withConfig maxIdleSecs maxPerProxy) (Nat.zero_le _)
  induction calls with
  | nil => exact fun _ h => h
  | cons call calls ih =>
    intro pool h
    have hmax := maxPerProxy_apply peek call.1 pool call.2
    have hstep := length_stored_apply_le peek call.1 call.2 h
    exact hmax ▸ ih (call.1.apply peek pool call.2) (hmax.symm ▸ hstep)

theorem socket_of_mem_gets (hpeek : peek.Spec) {call : Call} {stream : TcpStream}
    (h : stream ∈ call.gets peek proxyKey pool now) :
    stream.socket = .readable ∨ stream.socket = .closed := by
  cases call with
  | get key =>
    rw [Call.gets] at h
    split_ifs at h
    · rw [Multiset.mem_coe, Option.mem_toList, (get_eq peek pool now key).1] at h
      exact (isConnectionAlive_iff hpeek stream).mp (isConnectionAlive_of_firstAlive h)
    · exact absurd h (Multiset.notMem_zero stream)
  | put | cleanup | clear => exact absurd h (Multiset.notMem_zero stream)

theorem socket_of_mem_getAll (hpeek : peek.Spec) {calls : List (Call × Instant)}
    {stream : TcpStream} (h : stream ∈ getAll peek proxyKey pool calls) :
    stream.socket = .readable ∨ stream.socket = .closed := by
  induction calls generalizing pool with
  | nil => exact absurd h (Multiset.notMem_zero stream)
  | cons call calls ih =>
    rcases Multiset.mem_add.mp h with h | h
    · exact socket_of_mem_gets hpeek h
    · exact ih h

/-- Where only idle connections are put back, none is ever got again. -/
theorem getAll_of_idle (hpeek : peek.Spec) (maxIdleSecs maxPerProxy : ℕ)
    {calls : List (Call × Instant)}
    (hidle : ∀ stream ∈ putAll proxyKey calls, stream.socket = .idle) :
    getAll peek proxyKey (withConfig maxIdleSecs maxPerProxy) calls = 0 := by
  refine Multiset.eq_zero_of_forall_notMem fun stream h => ?_
  have hput : stream ∈ putAll proxyKey calls :=
    Multiset.mem_of_le (getAll_le_putAll peek maxIdleSecs maxPerProxy calls proxyKey)
      (Multiset.mem_add.mpr (.inl h))
  have hsocket := socket_of_mem_getAll hpeek h
  rw [hidle stream hput] at hsocket
  simp at hsocket

end ConnectionPool

end VpnGateway
