import CsPrimer.Fifo.Requests
import Mathlib.Data.Fin.VecNotation

namespace CsPrimer.Fifo

open Library Pipe

/-!
# The server obtains the requests that were written

A record holds the request of its client, a NUL and padding.  The FIFO always
holds whole records, so the server reads one at a time, and what it makes of
one does not depend on the padding or on the former content of its buffer.
-/

variable
  {nclients : Nat}
  {pid : Int}
  {stdin : List UInt8}

/-- The line a user types, cut to what fits behind the pid. -/
def typedPath (pid : Int) (stdin : List UInt8) : List UInt8 :=
  (stdin.takeWhile (· ≠ newline)).take
    (maxSize - 1 - (decimal pid ++ [space]).length)

/-- A record with a request, whatever its padding is. -/
def IsRecord
    (pid : Int)
    (stdin record : List UInt8) : Prop :=
  record.length = maxSize ∧
    ∃ stop padding,
      (stop = [] ∨ stop = [newline]) ∧
        record =
          decimal pid ++ space :: typedPath pid stdin ++ stop ++ 0 :: padding

/-- A pid is a positive `int`. -/
def IsPid (pid : Int) : Prop :=
  0 < pid ∧ pid < 2 ^ 31

theorem pidOf_decimal (isPid : IsPid pid) : pidOf (decimal pid) = pid := by
  obtain ⟨positive, small⟩ := isPid
  have isValue : atol (decimal pid ++ []) = pid :=
    atol_decimal_append (by omega) (by omega) (by simp)
  rw [List.append_nil] at isValue
  rw [pidOf, isValue]
  exact Int.bmod_eq_of_le (by omega) (by omega)

/-- A request without its newline is split at the first space. -/
theorem splitRequest_eq
    {buf : Buffer (maxSize + 1)}
    {path : List UInt8}
    (n : Nat)
    (rest : List UInt8)
    (isPid : IsPid pid)
    (free : 0 ∉ path)
    (isBytes : buf.bytes = decimal pid ++ space :: path ++ 0 :: rest) :
    ∃ next,
      splitRequest buf n =
        .request ⟨pid, (decimal pid).length + 1, n⟩ path next := by
  obtain ⟨nulFree, spaceFree⟩ :=
    not_mem_decimal (Int.le_of_lt isPid.1)
  have isText :
      string? buf.bytes = some (decimal pid ++ space :: path) := by
    rw [isBytes]
    refine string?_append_nul ?_
    simp only [List.mem_append, List.mem_cons, not_or]
    exact ⟨nulFree, by decide, free⟩
  have isIndex :
      (decimal pid ++ space :: path).idxOf? space =
        some (decimal pid).length :=
    idxOf?_append_cons spaceFree
  obtain ⟨next, -, stored, -, isNumber, isPath⟩ := store?_splits isText
  refine ⟨next, ?_⟩
  simp only [splitRequest, isText, isIndex, stored, isNumber, isPath,
    pidOf_decimal isPid]

/-- The path a user types contains neither a NUL nor a newline. -/
theorem not_mem_typedPath
    (pid : Int)
    (free : 0 ∉ stdin.takeWhile (· ≠ newline)) :
    0 ∉ typedPath pid stdin ∧ newline ∉ typedPath pid stdin := by
  constructor
  · exact fun member => free (List.mem_of_mem_take member)
  · intro member
    have isOther :=
      List.all_eq_true.mp List.all_takeWhile _ (List.mem_of_mem_take member)
    simp at isOther

/--
A record is decoded to its client's pid and the typed path, whatever follows
it in the buffer.
-/
theorem decode_record
    (buf : Buffer (maxSize + 1))
    {record rest : List UInt8}
    (isPid : IsPid pid)
    (free : 0 ∉ stdin.takeWhile (· ≠ newline))
    (isRecord : IsRecord pid stdin record)
    (isBytes : buf.bytes = record ++ rest) :
    ∃ n next,
      decode buf =
        .request ⟨pid, (decimal pid).length + 1, n⟩ (typedPath pid stdin)
          next := by
  obtain ⟨nulFree, -⟩ := not_mem_decimal (Int.le_of_lt isPid.1)
  obtain ⟨pathFree, noNewline⟩ := not_mem_typedPath pid free
  obtain ⟨-, stop, padding, isStop, rfl⟩ := isRecord
  have isText :
      string? buf.bytes =
        some (decimal pid ++ space :: typedPath pid stdin ++ stop) := by
    rw [isBytes, List.append_assoc]
    refine string?_append_nul ?_
    simp only [List.mem_append, List.mem_cons, not_or]
    refine ⟨⟨nulFree, by decide, pathFree⟩, ?_⟩
    rcases isStop with rfl | rfl <;> decide
  rcases isStop with rfl | rfl
  · obtain ⟨last, isLast, notNewline⟩ :=
      getLast?_ne_newline (by decide : space ≠ newline) noNewline
    rw [List.append_nil] at isText isBytes
    rw [decode_of_other isText isLast notNewline]
    obtain ⟨next, split⟩ :=
      splitRequest_eq (decimal pid ++ space :: typedPath pid stdin).length
        (padding ++ rest) isPid pathFree
        (by rw [isBytes, List.append_assoc]; rfl)
    exact ⟨_, next, split⟩
  · obtain ⟨middle, stored, middleBytes⟩ :=
      Buffer.store?_replace (decimal pid ++ space :: typedPath pid stdin)
        [newline] [0] (0 :: padding ++ rest)
        (by rw [isBytes]; simp) rfl
    rw [decode_of_newline isText stored]
    obtain ⟨next, split⟩ :=
      splitRequest_eq (decimal pid ++ space :: typedPath pid stdin).length
        (0 :: padding ++ rest) isPid pathFree middleBytes
    exact ⟨_, next, split⟩

/-- The digits and the space leave room for more characters. -/
theorem length_decimal_lt
    (isPid : IsPid pid) :
    (decimal pid).length + 1 < maxSize := by
  obtain ⟨positive, small⟩ := isPid
  have isShort : (decimal pid).length ≤ 10 :=
    length_decimal_le (by decide) (by omega) (by omega)
  simp only [maxSize]
  omega

/-- A client composes a record, whatever its buffer held before. -/
theorem composeRequest_isRecord
    (stdin : List UInt8)
    (isPid : IsPid pid)
    (buf : Buffer maxSize) :
    ∃ next,
      composeRequest pid stdin buf = some next ∧
        IsRecord pid stdin next.bytes := by
  have isShort := length_decimal_lt isPid
  have isLength : (decimal pid ++ [space]).length = (decimal pid).length + 1 :=
    List.length_append
  obtain ⟨printed, stored, printedHolds⟩ :=
    (Buffer.Holds.nil buf).store List.length_nil
      (decimal pid ++ [space] ++ [0]) (by
        rw [List.length_append, isLength, List.length_singleton]
        omega)
  have snprintf :
      buf.snprintf? 0 maxSize (decimal pid ++ [space]) = some printed := by
    rw [Buffer.snprintf?, if_neg (by decide),
      List.take_of_length_le (by omega), stored]
  have isText : string? printed.bytes = some (decimal pid ++ [space]) := by
    obtain ⟨padding, isBytes⟩ := printedHolds
    rw [← isBytes, List.nil_append, List.append_assoc]
    refine string?_append_nul ?_
    simp only [List.mem_append, List.mem_singleton, not_or]
    exact ⟨(not_mem_decimal (Int.le_of_lt isPid.1)).1, by decide⟩
  have bounded := length_fgets_le
    (maxSize - (decimal pid ++ [space]).length - 1) stdin
  obtain ⟨stop, isLine, isStop⟩ :=
    fgets_eq (maxSize - (decimal pid ++ [space]).length - 1) stdin
  rw [Nat.sub_right_comm, ← typedPath] at isLine
  unfold composeRequest
  simp only [snprintf, isText, Option.bind_eq_bind, Option.bind_some]
  rw [Nat.sub_right_comm] at bounded ⊢
  generalize
    (fgets (maxSize - 1 - (decimal pid ++ [space]).length) stdin).1 = line
    at bounded isLine ⊢
  by_cases isEmpty : line = []
  · obtain ⟨noPath, noStop⟩ := List.append_eq_nil_iff.mp
      (isLine.symm.trans isEmpty)
    obtain ⟨padding, isBytes⟩ := printedHolds
    refine ⟨printed, if_pos isEmpty, printed.length_eq, [], padding,
      .inl rfl, ?_⟩
    rw [← isBytes, noPath]
    simp
  · have isTotal : (line ++ [0]).length = line.length + 1 :=
      List.length_append
    obtain ⟨next, storedLine, nextHolds⟩ :=
      Buffer.Holds.store
        ((List.prefix_append _ _).trans printedHolds :
          printed.Holds (decimal pid ++ [space])) rfl (line ++ [0])
        (by omega)
    obtain ⟨padding, isBytes⟩ := nextHolds
    refine ⟨next, ?_, next.length_eq, stop, padding, isStop, ?_⟩
    · rw [if_neg isEmpty, storedLine]
    · rw [← isBytes, isLine]
      simp

/-- The bytes a call adds to the server's FIFO. -/
def Peer.written : Peer → List UInt8
  | .writeServer bytes => bytes
  | _ => []

/-- Only a write to the server's FIFO adds bytes to it. -/
theorem peer_served
    {serverGone : Bool}
    {before after : Fifos}
    {action : Peer}
    (taken : peer serverGone before action = some after) :
    after.served = before.served ++ action.written := by
  cases action with
  | openServer | closeServer | makeFifo | closeFifo | writeServer =>
      simp only [peer] at taken
      split at taken
      · simp at taken
      · obtain rfl := Option.some.inj taken
        simp [Peer.written]
  | unlinkFifo =>
      obtain rfl := Option.some.inj taken
      simp [Peer.written]
  | openFifo =>
      obtain ⟨fifo, -, rfl⟩ := Option.map_eq_some_iff.mp taken
      simp [Peer.written]

/-- A client that has written its request. -/
def ClientPc.hasWritten : ClientPc → Bool
  | .openReply | .readReply _ | .closeReply _ | .unlink | .closeServer
  | .returned => true
  | _ => false

/-- From its composition to its write a client holds its record. -/
def Client.Composed
    (pid : Int)
    (stdin : List UInt8)
    (process : Client) : Prop :=
  process.pc = .openServer ∨ process.pc = .writeRequest →
    IsRecord pid stdin process.buf.bytes

/-- What one step of a client does to the server's FIFO. -/
structure ClientEffect
    (pid : Int)
    (stdin : List UInt8)
    (before after : Fifos)
    (process next : Client) : Prop where
  composed :
    next.Composed pid stdin
  served :
    after.served =
      before.served ++
        if process.pc = .writeRequest then process.buf.bytes else []
  written :
    next.pc.hasWritten =
      (process.pc.hasWritten || decide (process.pc = .writeRequest))

/-- Every step of a client but its write leaves the server's FIFO alone. -/
theorem client_effect
    {serverGone : Bool}
    {before after : Fifos}
    {process next : Client}
    {scratch : Buffer maxSize}
    (isPid : IsPid pid)
    (composed : process.Composed pid stdin)
    (taken :
      client pid stdin serverGone before process scratch =
        some (after, next)) :
    ClientEffect pid stdin before after process next := by
  obtain ⟨pc, buf⟩ := process
  cases pc with
  | makeFifo =>
      simp only [client] at taken
      split at taken <;>
        obtain ⟨rfl, rfl⟩ := Prod.mk.inj (Option.some.inj taken)
      · exact ⟨by simp [Client.Composed], by simp, rfl⟩
      case h_2 made =>
        exact ⟨by simp [Client.Composed], peer_served made, rfl⟩
  | compose =>
      simp only [client, Option.map_eq_some_iff, Prod.mk.injEq] at taken
      obtain ⟨filled, composes, rfl, rfl⟩ := taken
      obtain ⟨next, composesTo, isRecord⟩ :=
        composeRequest_isRecord stdin isPid buf
      obtain rfl := Option.some.inj (composes.symm.trans composesTo)
      exact ⟨fun _ => isRecord, by simp, rfl⟩
  | openServer =>
      simp only [client, Option.map_eq_some_iff, Prod.mk.injEq] at taken
      obtain ⟨opened, opens, rfl, rfl⟩ := taken
      exact ⟨fun _ => composed (.inl rfl), peer_served opens, rfl⟩
  | writeRequest =>
      simp only [client, Option.map_eq_some_iff, Prod.mk.injEq] at taken
      obtain ⟨filled, writes, rfl, rfl⟩ := taken
      exact ⟨by simp [Client.Composed], peer_served writes, rfl⟩
  | openReply =>
      simp only [client] at taken
      split at taken <;>
        simp only [Option.map_eq_some_iff, Prod.mk.injEq] at taken <;>
        obtain ⟨moved, moves, rfl, rfl⟩ := taken <;>
        exact ⟨by simp [Client.Composed], peer_served moves, rfl⟩
  | readReply readfd =>
      simp only [client, Option.some.injEq, Prod.mk.injEq] at taken
      obtain ⟨rfl, rfl⟩ := taken
      exact ⟨by simp [Client.Composed], by simp, rfl⟩
  | closeReply | unlink | closeServer =>
      simp only [client, Option.map_eq_some_iff, Prod.mk.injEq] at taken
      obtain ⟨moved, moves, rfl, rfl⟩ := taken
      exact ⟨by simp [Client.Composed], peer_served moves, rfl⟩
  | returned =>
      simp [client] at taken

/-- The requests the server has obtained, with pid and path. -/
def obtainedIn (trace : List (Event nclients)) : List (Int × List UInt8) :=
  trace.filterMap fun
    | .server (.obtained pid path) => some (pid, path)
    | _ => none

/-- The clients whose requests have been written, in this order. -/
def writtenIn (trace : List (Event nclients)) : List (Fin nclients) :=
  trace.filterMap fun
    | .wrote process => some process
    | _ => none

@[simp]
theorem obtainedIn_append (before after : List (Event nclients)) :
    obtainedIn (before ++ after) = obtainedIn before ++ obtainedIn after :=
  List.filterMap_append

@[simp]
theorem writtenIn_append (before after : List (Event nclients)) :
    writtenIn (before ++ after) = writtenIn before ++ writtenIn after :=
  List.filterMap_append

@[simp]
theorem obtainedIn_writesIn (process : Fin nclients) (pc : ClientPc) :
    obtainedIn (writesIn process pc) = [] := by
  unfold writesIn
  split <;> rfl

theorem writtenIn_writesIn (process : Fin nclients) (pc : ClientPc) :
    writtenIn (writesIn process pc) =
      if pc = .writeRequest then [process] else [] := by
  unfold writesIn
  split <;> rfl

@[simp]
theorem writtenIn_server (events : List ServerEvent) :
    writtenIn (events.map .server : List (Event nclients)) = [] := by
  induction events with
  | nil =>
      rfl
  | cons event rest inductionHypothesis =>
      exact inductionHypothesis

@[simp]
theorem obtainedIn_replied (replies : List Reply) :
    obtainedIn ((replies.map ServerEvent.replied).map .server :
      List (Event nclients)) = [] := by
  induction replies with
  | nil =>
      rfl
  | cons reply rest inductionHypothesis =>
      exact inductionHypothesis

/-- Only the read of a request takes bytes and obtains a request. -/
theorem server_effect
    {before after : Fifos}
    {process next : Server}
    {answer : Answer}
    {events : List ServerEvent}
    (taken :
      server before process answer = some (after, next, events)) :
    receive before process = some (after, next, events) ∨
      (after = before ∧
        obtainedIn (events.map .server : List (Event nclients)) = []) := by
  unfold server at taken
  split at taken
  · split at taken
    · exact .inl taken
    · simp at taken
  · obtain ⟨⟨next, replies⟩, -, moved⟩ := Option.map_eq_some_iff.mp taken
    obtain ⟨rfl, -, rfl⟩ : before = after ∧ _ ∧ _ := by
      simpa only [Prod.mk.injEq] using moved
    exact .inr ⟨rfl, obtainedIn_replied replies⟩

section Run

variable
  {pids : Fin nclients → Int}
  {stdins : Fin nclients → List UInt8}
  {trace events : List (Event nclients)}
  {state next : State nclients}

/-- The request of a client, as the server should obtain it. -/
def requestOf
    (pids : Fin nclients → Int)
    (stdins : Fin nclients → List UInt8)
    (process : Fin nclients) : Int × List UInt8 :=
  (pids process, typedPath (pids process) (stdins process))

/-- The server's FIFO holds the records of the requests not yet obtained. -/
structure Framed
    (pids : Fin nclients → Int)
    (stdins : Fin nclients → List UInt8)
    (trace : List (Event nclients))
    (state : State nclients) : Prop where
  unread :
    ∃ obtained unread records,
      writtenIn trace = obtained ++ unread ∧
        obtainedIn trace = obtained.map (requestOf pids stdins) ∧
        state.fifos.served = records.flatten ∧
        List.Forall₂
          (fun process => IsRecord (pids process) (stdins process))
          unread records
  composed :
    ∀ process,
      (state.clients process).Composed (pids process) (stdins process)
  once :
    (writtenIn trace).Nodup
  written :
    ∀ process ∈ writtenIn trace,
      (state.clients process).pc.hasWritten = true

/-- The read of the server takes the oldest record and obtains its request. -/
theorem receive_record
    {before after : Fifos}
    {process next : Server}
    {events : List ServerEvent}
    {pid : Int}
    {stdin record : List UInt8}
    {records : List (List UInt8)}
    (isPid : IsPid pid)
    (free : 0 ∉ stdin.takeWhile (· ≠ newline))
    (isRecord : IsRecord pid stdin record)
    (served : before.served = record ++ records.flatten)
    (taken : receive before process = some (after, next, events)) :
    after.served = records.flatten ∧
      events = [.obtained pid (typedPath pid stdin)] := by
  have isLength := isRecord.1
  have notEmpty : before.served ≠ [] := by
    intro empty
    rw [served] at empty
    rw [(List.append_eq_nil_iff.mp empty).1] at isLength
    simp at isLength
  obtain ⟨buf, stored, holds⟩ :=
    (Buffer.Holds.nil process.buf).store List.length_nil record (by omega)
  obtain ⟨rest, isBytes⟩ := holds
  obtain ⟨n, decoded, decodes⟩ :=
    decode_record buf isPid free isRecord isBytes.symm
  rw [receive, if_neg notEmpty] at taken
  simp only [served, List.take_left' isLength, List.drop_left' isLength,
    stored, decodes, Option.some.injEq, Prod.mk.injEq] at taken
  obtain ⟨rfl, -, rfl⟩ := taken
  exact ⟨rfl, rfl⟩

/-- There is nothing to obtain from an empty FIFO. -/
theorem receive_empty
    {before after : Fifos}
    {process next : Server}
    {events : List ServerEvent}
    (empty : before.served = [])
    (taken : receive before process = some (after, next, events)) :
    after = before ∧ events = [] := by
  rw [receive, if_pos empty] at taken
  split at taken
  · simp only [Option.some.injEq, Prod.mk.injEq] at taken
    exact ⟨taken.1.symm, taken.2.2.symm⟩
  · simp at taken

theorem Framed.initial
    (bufs : Fin nclients → Buffer maxSize)
    (servBuf : Buffer (maxSize + 1)) :
    Framed pids stdins [] (system pids stdins bufs servBuf).initial where
  unread :=
    ⟨[], [], [], rfl, rfl, rfl, .nil⟩
  composed process := by
    simp [Client.Composed, system]
  once :=
    List.nodup_nil
  written process member := by
    simp [writtenIn] at member

/-- A client that has not written its request has no record in the FIFO. -/
theorem Framed.client
    {bufs : Fin nclients → Buffer maxSize}
    {servBuf : Buffer (maxSize + 1)}
    {sender : Fin nclients}
    {scratch : Buffer maxSize}
    (isPid : ∀ process, IsPid (pids process))
    (framed : Framed pids stdins trace state)
    (taken :
      (system pids stdins bufs servBuf).step? state
          (.client sender scratch) = some (next, events)) :
    Framed pids stdins (trace ++ events) next := by
  obtain ⟨⟨after, process⟩, moved, shape⟩ :=
    Option.map_eq_some_iff.mp taken
  obtain ⟨rfl, rfl⟩ := Prod.mk.inj shape
  have effect :=
    client_effect (isPid sender) (framed.composed sender) moved
  obtain ⟨obtained, unread, records, isWritten, isObtained, isServed,
    areRecords⟩ := framed.unread
  have composed :
      ∀ other,
        (Function.update state.clients sender process other).Composed
          (pids other) (stdins other) := by
    intro other
    by_cases same : other = sender
    · subst same
      rw [Function.update_self]
      exact effect.composed
    · rw [Function.update_of_ne same]
      exact framed.composed other
  have written :
      ∀ other ∈ writtenIn
          (trace ++ writesIn sender (state.clients sender).pc),
        (Function.update state.clients sender process
          other).pc.hasWritten = true := by
    intro other member
    rw [writtenIn_append, writtenIn_writesIn, List.mem_append] at member
    by_cases same : other = sender
    · subst same
      rw [Function.update_self, effect.written, Bool.or_eq_true,
        decide_eq_true_eq]
      rcases member with earlier | now
      · exact .inl (framed.written other earlier)
      · split at now
        case isTrue writes =>
          exact .inr writes
        case isFalse =>
          simp at now
    · rw [Function.update_of_ne same]
      rcases member with earlier | now
      · exact framed.written other earlier
      · split at now
        · exact absurd (List.mem_singleton.mp now) same
        · simp at now
  by_cases writes : (state.clients sender).pc = .writeRequest
  · have notBefore : sender ∉ writtenIn trace := by
      intro member
      have hasWritten := framed.written sender member
      rw [writes] at hasWritten
      simp [ClientPc.hasWritten] at hasWritten
    have isRecord := framed.composed sender (.inr writes)
    refine ⟨⟨obtained, unread ++ [sender],
      records ++ [(state.clients sender).buf.bytes], ?_, ?_, ?_, ?_⟩,
      composed, ?_, written⟩
    · rw [writtenIn_append, writtenIn_writesIn, if_pos writes, isWritten,
        List.append_assoc]
    · rw [obtainedIn_append, obtainedIn_writesIn, List.append_nil,
        isObtained]
    · rw [effect.served, if_pos writes, isServed]
      simp
    · exact List.rel_append areRecords (.cons isRecord .nil)
    · rw [writtenIn_append, writtenIn_writesIn, if_pos writes]
      exact List.nodup_append.mpr ⟨framed.once, by simp, by
        intro other member last isLast
        rintro rfl
        rw [List.mem_singleton.mp isLast] at member
        exact notBefore member⟩
  · refine ⟨⟨obtained, unread, records, ?_, ?_, ?_, areRecords⟩, composed,
      ?_, written⟩
    · rw [writtenIn_append, writtenIn_writesIn, if_neg writes,
        List.append_nil, isWritten]
    · rw [obtainedIn_append, obtainedIn_writesIn, List.append_nil,
        isObtained]
    · rw [effect.served, if_neg writes, List.append_nil, isServed]
    · rw [writtenIn_append, writtenIn_writesIn, if_neg writes,
        List.append_nil]
      exact framed.once

/-- The server takes whole records and decodes them. -/
theorem Framed.server
    {bufs : Fin nclients → Buffer maxSize}
    {servBuf : Buffer (maxSize + 1)}
    {answer : Answer}
    (isPid : ∀ process, IsPid (pids process))
    (free :
      ∀ process, 0 ∉ (stdins process).takeWhile (· ≠ newline))
    (framed : Framed pids stdins trace state)
    (taken :
      (system pids stdins bufs servBuf).step? state (.server answer) =
        some (next, events)) :
    Framed pids stdins (trace ++ events) next := by
  obtain ⟨⟨after, process, observed⟩, moved, shape⟩ :=
    Option.map_eq_some_iff.mp taken
  obtain ⟨rfl, rfl⟩ := Prod.mk.inj shape
  obtain ⟨obtained, unread, records, isWritten, isObtained, isServed,
    areRecords⟩ := framed.unread
  have written :
      writtenIn (trace ++ observed.map .server) = writtenIn trace := by
    rw [writtenIn_append, writtenIn_server, List.append_nil]
  refine ⟨?_, framed.composed, written ▸ framed.once,
    written ▸ framed.written⟩
  rw [written, obtainedIn_append]
  rcases server_effect moved with received | ⟨rfl, quiet⟩
  · cases areRecords with
    | nil =>
        obtain ⟨rfl, rfl⟩ := receive_empty isServed received
        refine ⟨obtained, [], [], isWritten, ?_, isServed, .nil⟩
        rw [isObtained]
        exact List.append_nil _
    | @cons sender record unread records isRecord areRecords =>
        obtain ⟨isRest, rfl⟩ :=
          receive_record (isPid sender) (free sender) isRecord isServed
            received
        refine ⟨obtained ++ [sender], unread, records, ?_, ?_, isRest,
          areRecords⟩
        · rw [isWritten, List.append_assoc, List.singleton_append]
        · rw [isObtained, List.map_append]
          rfl
  · rw [quiet, List.append_nil]
    exact ⟨obtained, unread, records, isWritten, isObtained, isServed,
      areRecords⟩

theorem Framed.of_reaches
    {bufs : Fin nclients → Buffer maxSize}
    {servBuf : Buffer (maxSize + 1)}
    (isPid : ∀ process, IsPid (pids process))
    (free :
      ∀ process, 0 ∉ (stdins process).takeWhile (· ≠ newline))
    (reaches : (system pids stdins bufs servBuf).Reaches trace state) :
    Framed pids stdins trace state := by
  induction reaches with
  | initial =>
      exact Framed.initial bufs servBuf
  | @step _ _ _ _ action earlier taken inductionHypothesis =>
      cases action with
      | client sender scratch =>
          exact inductionHypothesis.client isPid taken
      | server answer =>
          exact inductionHypothesis.server isPid free taken

end Run

/--
`fifo_client` and `fifo_server`, for any number of clients, all typed lines,
whatever the buffers held before, and every interleaving: the requests the
server obtains are a prefix of the requests written, each with its client's
pid and the typed path; every client writes once, and the FIFO holds the
records of exactly the requests that are still to be obtained.
-/
theorem fifoRequests_framed
    (pids : Fin nclients → Int)
    (stdins : Fin nclients → List UInt8)
    (bufs : Fin nclients → Buffer maxSize)
    (servBuf : Buffer (maxSize + 1))
    {trace : List (Event nclients)}
    {state : State nclients}
    (isPid : ∀ process, IsPid (pids process))
    (free :
      ∀ process, 0 ∉ (stdins process).takeWhile (· ≠ newline))
    (reaches : (system pids stdins bufs servBuf).Reaches trace state) :
    obtainedIn trace <+: (writtenIn trace).map (requestOf pids stdins) ∧
      (writtenIn trace).Nodup ∧
      state.fifos.served.length =
        maxSize *
          ((writtenIn trace).length - (obtainedIn trace).length) := by
  have framed := Framed.of_reaches isPid free reaches
  obtain ⟨obtained, unread, records, isWritten, isObtained, isServed,
    areRecords⟩ := framed.unread
  refine ⟨?_, framed.once, ?_⟩
  · rw [isWritten, isObtained, List.map_append]
    exact List.prefix_append _ _
  · have lengths : records.flatten.length = maxSize * unread.length := by
      clear isServed isWritten
      induction areRecords with
      | nil =>
          rfl
      | cons isRecord _ inductionHypothesis =>
          rw [List.flatten_cons, List.length_append, isRecord.1,
            inductionHypothesis, List.length_cons, Nat.mul_succ,
            Nat.add_comm]
    rw [isServed, lengths, isWritten, isObtained, List.length_append,
      List.length_map, Nat.add_sub_cancel_left]

/--
Two clients, the second of which writes while the server replies to the first
one; both buffers hold other requests before.
-/
theorem fifoRequests_framed_twoClients :
    ∃ trace state,
      (system ![12, 7] ![ascii "my file\n", ascii "b\nc"]
          (fun _ => .filled maxSize space)
          (.filled (maxSize + 1) newline)).Reaches trace state ∧
        obtainedIn trace = [(12, ascii "my file"), (7, ascii "b")] := by
  obtain ⟨trace, state, reaches, outcome⟩ :=
    System.Reaches.exists_of_run?
      (by decide +kernel :
        ((system ![12, 7] ![ascii "my file\n", ascii "b\nc"]
            (fun _ => .filled maxSize space)
            (.filled (maxSize + 1) newline)).run?
          (system ![12, 7] ![ascii "my file\n", ascii "b\nc"]
            (fun _ => .filled maxSize space)
            (.filled (maxSize + 1) newline)).initial
          (List.replicate 5 (.client 0 (.filled maxSize 0)) ++
            List.replicate 3 (.server .done) ++
            List.replicate 4 (.client 1 (.filled maxSize 0)) ++
            [.server (.notOpened (ascii "error")), .server .done,
              .server .done])).any
          (fun outcome => decide (
            writtenIn outcome.2 = [0, 1] ∧
              (obtainedIn outcome.2).length = 2)) = true)
  obtain ⟨written, both⟩ := of_decide_eq_true outcome
  obtain ⟨isPrefix, -, -⟩ :=
    fifoRequests_framed _ _ _ _ (by unfold IsPid; decide) (by decide +kernel)
      reaches
  refine ⟨trace, state, reaches, ?_⟩
  rw [isPrefix.eq_of_length (by rw [both, written]; rfl), written]
  decide +kernel

end CsPrimer.Fifo
