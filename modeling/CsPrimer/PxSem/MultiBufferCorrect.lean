import CsPrimer.PxSem.MultiBuffer

namespace CsPrimer.PxSem.MultiBuffer

open Library

/-!
# `sem_multibuffer.c` copies faithfully

The chunks that the reads have returned so far, the end-of-file marker
included as an empty chunk, are the items of the ring; `written` of them have
been written.
-/

/-- The bytes that have been read into a buffer without its count. -/
def Producer.inFlight (shared : Shared) (thread : Producer) : List Byte :=
  match thread.pc with
  | .storeCount n => (shared.buff thread.i).data.take n
  | _ => []

/-- What the producer knows about the chunks from its own steps. -/
def Producer.Ok
    (chunks : List (List Byte))
    (unread : List Byte)
    (thread : Producer) : Prop :=
  match thread.pc with
  | .storeCount n =>
      n ≤ buffSize ∧ (n = 0 → unread = []) ∧ chunks.getLast? ≠ some []
  | .testEnd => True
  | .leaveNstored | .returned => chunks.getLast? = some []
  | _ => chunks.getLast? ≠ some []

/-- What the consumer knows about the next chunk from its own steps. -/
def Consumer.Ok
    (chunks : List (List Byte))
    (written : Nat)
    (thread : Consumer) : Prop :=
  match thread.pc with
  | .write => chunks[written]? ≠ some []
  | .returned => chunks[written]? = some []
  | _ => True

/-- What holds in every state of every run. -/
structure Invariant
    (file : List Byte)
    (chunks : List (List Byte))
    (written : Nat)
    (state : State) : Prop where
  mutex :
    state.shared.mutex + state.producer.crit + state.consumer.crit = 1
  nempty :
    state.shared.nempty + chunks.length + state.producer.slotTaken +
        state.consumer.debt =
      nbuff + written
  nstored :
    state.shared.nstored + written + state.consumer.token +
        state.producer.pending =
      chunks.length
  sized :
    ∀ place, (state.shared.buff place).data.length = buffSize ∧
      (state.shared.buff place).n ≤ buffSize
  window :
    Window (fun position => chunks.getD position [])
      (fun place => (state.shared.buff place).content)
      written chunks.length
  input :
    file =
      chunks.flatten ++ state.producer.inFlight state.shared ++
        state.shared.unread
  output :
    state.shared.output = (chunks.take written).flatten
  full :
    ∀ chunk ∈ chunks.dropLast, chunk ≠ []
  ended :
    chunks.getLast? = some [] → state.shared.unread = []
  data :
    ∀ chunk ∈ chunks.take written, chunk ≠ []
  producerIndex :
    ∃ position, position + state.producer.behind = chunks.length ∧
      state.producer.i = slot nbuff position
  consumerIndex :
    ∃ position, position + state.consumer.behind = written ∧
      state.consumer.i = slot nbuff position
  producerOk :
    state.producer.Ok chunks state.shared.unread
  consumerOk :
    state.consumer.Ok chunks written

/-- A buffer is empty exactly if its count is zero. -/
theorem Buffer.content_eq_nil
    {buffer : Buffer}
    (sized : buffer.data.length = buffSize ∧ buffer.n ≤ buffSize) :
    buffer.content = [] ↔ buffer.n = 0 := by
  rw [← List.length_eq_zero_iff, Buffer.content, List.length_take, sized.1]
  omega

namespace Invariant

variable
  {file : List Byte}
  {chunks : List (List Byte)}
  {written : Nat}
  {state : State}

/-- Before the first step nothing has been read. -/
theorem start :
    Invariant file [] 0 (system file).initial where
  mutex := rfl
  nempty := rfl
  nstored := rfl
  sized place := ⟨List.length_replicate, Nat.zero_le _⟩
  window := Window.empty
  input := rfl
  output := rfl
  full := by simp
  ended := by simp
  data := by simp
  producerIndex := ⟨0, rfl, rfl⟩
  consumerIndex := ⟨0, rfl, rfl⟩
  producerOk := by simp [Producer.Ok, system]
  consumerOk := trivial

/-- A completed buffer holds its chunk until it is written. -/
theorem chunk_at
    (invariant : Invariant file chunks written state)
    {position : Nat}
    (waiting : written ≤ position)
    (stored : position < chunks.length) :
    chunks[position]? =
      some (state.shared.buff (slot nbuff position)).content := by
  have content := invariant.window position waiting stored
  simp only [List.getD_eq_getElem?_getD, List.getElem?_eq_getElem stored,
    Option.getD_some] at content
  rw [content, List.getElem?_eq_getElem stored]

/-- The producer tests the count of the chunk it has just completed. -/
theorem producer_testEnd
    (invariant : Invariant file chunks written state)
    (pc : state.producer.pc = .testEnd) :
    chunks.getLast? = some [] ↔
      (state.shared.buff state.producer.i).n = 0 := by
  obtain ⟨position, isLast, index⟩ := invariant.producerIndex
  have nstored := invariant.nstored
  simp only [Producer.behind, Producer.pending, pc] at isLast nstored
  have content :=
    invariant.chunk_at (by omega : written ≤ position) (by omega)
  rw [index, ← Buffer.content_eq_nil (invariant.sized _),
    List.getLast?_eq_getElem?, ← isLast, Nat.add_sub_cancel, content]
  simp

/-- The consumer tests the count of the next chunk. -/
theorem consumer_testEnd
    (invariant : Invariant file chunks written state)
    (pc : state.consumer.pc = .testEnd) :
    chunks[written]? = some [] ↔
      (state.shared.buff state.consumer.i).n = 0 := by
  obtain ⟨position, isNext, index⟩ := invariant.consumerIndex
  have nstored := invariant.nstored
  simp only [Consumer.behind, Consumer.token, pc, Nat.add_zero]
    at isNext nstored
  have content :=
    invariant.chunk_at (Nat.le_refl written) (by omega)
  rw [index, isNext, ← Buffer.content_eq_nil (invariant.sized _), content]
  simp

/-- What the producer knows survives its own moves. -/
theorem producer_ok
    {after : Shared}
    {next : Producer}
    (invariant : Invariant file chunks written state)
    (taken :
      producer state.shared state.producer = some (after, next))
    (move : ProducerMove state.shared after state.producer next) :
    next.Ok chunks after.unread := by
  have ok := invariant.producerOk
  have atEnd := invariant.producer_testEnd
  have nothingRead := move.nothingRead.1
  generalize state.producer = thread at ok atEnd taken nothingRead
  obtain ⟨pc, i⟩ := thread
  cases pc with
  | waitNempty | waitMutex =>
      obtain ⟨tokens, -, outcome⟩ := Option.map_eq_some_iff.mp taken
      simp only [Prod.mk.injEq] at outcome
      obtain ⟨-, rfl⟩ := outcome
      exact ok
  | testEnd =>
      by_cases isEnd : (state.shared.buff i).n = 0
      · simp only [producer, if_pos isEnd, Option.some.injEq,
          Prod.mk.injEq] at taken
        obtain ⟨-, rfl⟩ := taken
        exact (atEnd rfl).mpr isEnd
      · simp only [producer, if_neg isEnd, Option.some.injEq,
          Prod.mk.injEq] at taken
        obtain ⟨-, rfl⟩ := taken
        exact fun isLast => isEnd ((atEnd rfl).mp isLast)
  | storeCount n =>
      exact (nothingRead n rfl).elim
  | read | returned =>
      simp [producer] at taken
  | _ =>
      simp only [producer, Option.some.injEq, Prod.mk.injEq] at taken
      obtain ⟨-, rfl⟩ := taken
      exact ok

theorem inFlight_eq_nil
    {shared : Shared}
    {thread : Producer}
    (nothingRead : ∀ n, thread.pc ≠ .storeCount n) :
    thread.inFlight shared = [] := by
  unfold Producer.inFlight
  split
  · rename_i n pc
    exact (nothingRead n pc).elim
  · rfl

/-- A move of the producer keeps the invariant. -/
theorem producer_moves
    {after : Shared}
    {next : Producer}
    (invariant : Invariant file chunks written state)
    (taken :
      producer state.shared state.producer = some (after, next))
    (move : ProducerMove state.shared after state.producer next) :
    Invariant file chunks written
      { state with shared := after, producer := next } := by
  have mutex := invariant.mutex
  have nempty := invariant.nempty
  have nstored := invariant.nstored
  have moveMutex := move.mutex
  have moveNempty := move.nempty
  have moveNstored := move.nstored
  constructor
  · simp only
    omega
  · simp only
    omega
  · simp only
    omega
  · simpa only [move.data.buff] using invariant.sized
  · simpa only [move.data.buff] using invariant.window
  · have input := invariant.input
    rw [inFlight_eq_nil move.nothingRead.1] at input
    simp only [inFlight_eq_nil move.nothingRead.2, move.data.unread]
    exact input
  · simpa only [move.data.output] using invariant.output
  · exact invariant.full
  · simpa only [move.data.unread] using invariant.ended
  · exact invariant.data
  · obtain ⟨position, isLast, index⟩ := invariant.producerIndex
    rcases move.index with ⟨sameBehind, sameIndex⟩ | ⟨was, now, turned⟩
    · exact ⟨position, by simp only [sameBehind, isLast],
        sameIndex.trans index⟩
    · refine ⟨position + 1, by simp only [now]; omega, ?_⟩
      simp only [turned, index, nextIndex_slot]
  · exact invariant.consumerIndex
  · exact invariant.producer_ok taken move
  · exact invariant.consumerOk

/-- What the consumer knows survives its own moves. -/
theorem consumer_ok
    {after : Shared}
    {next : Consumer}
    (invariant : Invariant file chunks written state)
    (taken :
      consumer state.shared state.consumer = some (after, next))
    (notWriting : state.consumer.pc ≠ .write) :
    next.Ok chunks written := by
  have atEnd := invariant.consumer_testEnd
  generalize state.consumer = thread at atEnd taken notWriting
  obtain ⟨pc, i⟩ := thread
  cases pc with
  | waitNstored | waitMutex =>
      obtain ⟨tokens, -, outcome⟩ := Option.map_eq_some_iff.mp taken
      simp only [Prod.mk.injEq] at outcome
      obtain ⟨-, rfl⟩ := outcome
      trivial
  | testEnd =>
      by_cases isEnd : (state.shared.buff i).n = 0
      · simp only [consumer, if_pos isEnd, Option.some.injEq,
          Prod.mk.injEq] at taken
        obtain ⟨-, rfl⟩ := taken
        exact (atEnd rfl).mpr isEnd
      · simp only [consumer, if_neg isEnd, Option.some.injEq,
          Prod.mk.injEq] at taken
        obtain ⟨-, rfl⟩ := taken
        exact fun isLast => isEnd ((atEnd rfl).mp isLast)
  | write =>
      exact (notWriting rfl).elim
  | returned =>
      simp [consumer] at taken
  | _ =>
      simp only [consumer, Option.some.injEq, Prod.mk.injEq] at taken
      obtain ⟨-, rfl⟩ := taken
      trivial

/-- A move of the consumer keeps the invariant. -/
theorem consumer_moves
    {after : Shared}
    {next : Consumer}
    (invariant : Invariant file chunks written state)
    (taken :
      consumer state.shared state.consumer = some (after, next))
    (move : ConsumerMove state.shared after state.consumer next) :
    Invariant file chunks written
      { state with shared := after, consumer := next } := by
  have mutex := invariant.mutex
  have nempty := invariant.nempty
  have nstored := invariant.nstored
  have moveMutex := move.mutex
  have moveNempty := move.nempty
  have moveNstored := move.nstored
  constructor
  · simp only
    omega
  · simp only
    omega
  · simp only
    omega
  · simpa only [move.data.buff] using invariant.sized
  · simpa only [move.data.buff] using invariant.window
  · simpa only [Producer.inFlight, move.data.buff, move.data.unread]
      using invariant.input
  · simpa only [move.data.output] using invariant.output
  · exact invariant.full
  · simpa only [move.data.unread] using invariant.ended
  · exact invariant.data
  · exact invariant.producerIndex
  · obtain ⟨position, isLast, index⟩ := invariant.consumerIndex
    rcases move.index with ⟨sameBehind, sameIndex⟩ | ⟨was, now, turned⟩
    · exact ⟨position, by simp only [sameBehind, isLast],
        sameIndex.trans index⟩
    · refine ⟨position + 1, by simp only [now]; omega, ?_⟩
      simp only [turned, index, nextIndex_slot]
  · simpa only [move.data.unread] using invariant.producerOk
  · exact invariant.consumer_ok taken move.notWriting

/-- The contents of the buffers, when one of them is changed. -/
theorem content_update
    (buff : Fin nbuff → Buffer)
    (place : Fin nbuff)
    (buffer : Buffer) :
    (fun other => (Function.update buff place buffer other).content) =
      Function.update (fun other => (buff other).content) place
        buffer.content := by
  funext other
  by_cases isPlace : other = place
  · simp [isPlace]
  · simp [isPlace]

/-- While the producer fills a buffer, there is room for its chunk. -/
theorem room
    (invariant : Invariant file chunks written state)
    (filling : state.producer.slotTaken = 1) :
    chunks.length < written + nbuff := by
  have nempty := invariant.nempty
  omega

/-- A token of the consumer stands for a completed chunk. -/
theorem next_stored
    (invariant : Invariant file chunks written state)
    (holds : state.consumer.token = 1) :
    written < chunks.length := by
  have nstored := invariant.nstored
  omega

theorem written_le
    (invariant : Invariant file chunks written state) :
    written ≤ chunks.length := by
  have nstored := invariant.nstored
  omega

/-- Before the end of the file every chunk holds data. -/
theorem chunk_ne_nil
    (invariant : Invariant file chunks written state)
    (notEnded : chunks.getLast? ≠ some []) :
    ∀ chunk ∈ chunks, chunk ≠ [] := by
  have full := invariant.full
  rcases List.eq_nil_or_concat' chunks with rfl | ⟨front, last, rfl⟩
  · simp
  · intro chunk member
    rcases List.mem_append.mp member with earlier | isLast
    · exact full chunk (by simpa using earlier)
    · obtain rfl := List.mem_singleton.mp isLast
      rintro rfl
      simp at notEnded

/-- What the consumer knows survives a new chunk. -/
theorem consumer_ok_append
    (invariant : Invariant file chunks written state)
    (chunk : List Byte) :
    state.consumer.Ok (chunks ++ [chunk]) written := by
  have ok := invariant.consumerOk
  have stored := invariant.next_stored
  generalize state.consumer = thread at ok stored
  obtain ⟨pc, i⟩ := thread
  cases pc with
  | write | returned =>
      have unchanged :
          (chunks ++ [chunk])[written]? = chunks[written]? :=
        List.getElem?_append_left (stored rfl)
      simpa only [Consumer.Ok, unchanged] using ok
  | _ =>
      trivial

/-- Storing the count of a buffer completes a chunk. -/
theorem producer_completes
    {n : Nat}
    (invariant : Invariant file chunks written state)
    (pc : state.producer.pc = .storeCount n) :
    Invariant file
      (chunks ++
        [(state.shared.buff state.producer.i).data.take n]) written
      { state with
        shared := { state.shared with
          buff := Function.update state.shared.buff state.producer.i
            { state.shared.buff state.producer.i with n := n } }
        producer := { state.producer with pc := .testEnd } } := by
  obtain ⟨position, isNext, index⟩ := invariant.producerIndex
  have mutex := invariant.mutex
  have nempty := invariant.nempty
  have nstored := invariant.nstored
  have input := invariant.input
  obtain ⟨small, atEnd, notEnded⟩ :
      n ≤ buffSize ∧ (n = 0 → state.shared.unread = []) ∧
        chunks.getLast? ≠ some [] := by
    simpa only [Producer.Ok, pc] using invariant.producerOk
  have free := invariant.room (by simp only [Producer.slotTaken, pc])
  have nonempty := invariant.chunk_ne_nil notEnded
  have reached := invariant.written_le
  simp only [Producer.behind, Producer.crit, Producer.slotTaken,
    Producer.pending, Producer.inFlight, pc, Nat.add_zero]
    at isNext mutex nempty nstored input
  subst isNext
  have sized := invariant.sized state.producer.i
  constructor
  · exact mutex
  · simp only [Producer.slotTaken, List.length_append, List.length_cons,
      List.length_nil]
    omega
  · simp only [Producer.pending, List.length_append, List.length_cons,
      List.length_nil]
    omega
  · intro place
    by_cases isPlace : place = state.producer.i
    · simpa [isPlace] using ⟨sized.1, small⟩
    · simpa [isPlace] using invariant.sized place
  · simp only [content_update, index, List.length_append,
      List.length_cons, List.length_nil]
    have sameItems :
        Window
          (fun position =>
            (chunks ++
              [(state.shared.buff state.producer.i).data.take n]).getD
                position [])
          (fun place => (state.shared.buff place).content)
          written chunks.length :=
      invariant.window.congr_item fun position before => by
        simp [List.getElem?_append_left before]
    simpa [Buffer.content, index] using sameItems.store free
  · simp only [Producer.inFlight, List.flatten_append,
      List.flatten_cons, List.flatten_nil, List.append_nil]
    exact input
  · rw [List.take_append_of_le_length reached]
    exact invariant.output
  · simpa using nonempty
  · intro isEnd
    have empty :
        (state.shared.buff state.producer.i).data.take n = [] := by
      simpa using isEnd
    apply atEnd
    have length := congrArg List.length empty
    rw [List.length_take, sized.1, List.length_nil] at length
    simp only [buffSize] at small length
    omega
  · rw [List.take_append_of_le_length reached]
    exact invariant.data
  · exact ⟨chunks.length, by simp [Producer.behind], index⟩
  · exact invariant.consumerIndex
  · trivial
  · exact invariant.consumer_ok_append _

/-- A read fills the buffer that is next in the ring. -/
theorem reads
    {n : Nat}
    (invariant : Invariant file chunks written state)
    (pc : state.producer.pc = .read)
    (count : ReadCount state.shared.unread n) :
    Invariant file chunks written
      { state with
        shared := { state.shared with
          buff := Function.update state.shared.buff state.producer.i
            { state.shared.buff state.producer.i with
              data := state.shared.unread.take n ++
                (state.shared.buff state.producer.i).data.drop n }
          unread := state.shared.unread.drop n }
        producer := { state.producer with pc := .storeCount n } } := by
  obtain ⟨position, isNext, index⟩ := invariant.producerIndex
  have mutex := invariant.mutex
  have nempty := invariant.nempty
  have nstored := invariant.nstored
  have input := invariant.input
  have notEnded : chunks.getLast? ≠ some [] := by
    simpa only [Producer.Ok, pc] using invariant.producerOk
  have free := invariant.room (by simp only [Producer.slotTaken, pc])
  simp only [Producer.behind, Producer.crit, Producer.slotTaken,
    Producer.pending, Producer.inFlight, pc, Nat.add_zero,
    List.append_nil] at isNext mutex nempty nstored input
  subst isNext
  have sized := invariant.sized state.producer.i
  have fits : n ≤ buffSize ∧ n ≤ state.shared.unread.length ∧
      (n = 0 → state.shared.unread = []) := by
    rcases count with ⟨atEnd, rfl⟩ | ⟨positive, small, available⟩
    · exact ⟨Nat.zero_le _, Nat.zero_le _, fun _ => atEnd⟩
    · exact ⟨small, available, fun zero =>
        absurd zero (Nat.ne_of_gt positive)⟩
  have taken : (state.shared.unread.take n).length = n := by
    rw [List.length_take]
    omega
  constructor
  · exact mutex
  · exact nempty
  · exact nstored
  · intro place
    by_cases isPlace : place = state.producer.i
    · subst isPlace
      simp only [Function.update_self, List.length_append, taken,
        List.length_drop, sized.1]
      exact ⟨by omega, sized.2⟩
    · simpa [isPlace] using invariant.sized place
  · simp only [content_update, index]
    exact invariant.window.update_next free _
  · simp only [Producer.inFlight, Function.update_self,
      List.take_left' taken]
    rw [List.append_assoc, List.take_append_drop]
    exact input
  · exact invariant.output
  · exact invariant.full
  · intro isEnd
    exact (notEnded isEnd).elim
  · exact invariant.data
  · exact ⟨chunks.length, rfl, index⟩
  · exact invariant.consumerIndex
  · refine ⟨fits.1, fun zero => ?_, notEnded⟩
    simp only [fits.2.2 zero, List.drop_nil]
  · exact invariant.consumerOk

/-- A write puts out the next chunk. -/
theorem writes
    (invariant : Invariant file chunks written state)
    (pc : state.consumer.pc = .write) :
    Invariant file chunks (written + 1)
      { state with
        shared := { state.shared with
          output := state.shared.output ++
            (state.shared.buff state.consumer.i).content }
        consumer := { state.consumer with pc := .increment } } := by
  obtain ⟨position, isNext, index⟩ := invariant.consumerIndex
  have mutex := invariant.mutex
  have nempty := invariant.nempty
  have nstored := invariant.nstored
  have isData : chunks[written]? ≠ some [] := by
    simpa only [Consumer.Ok, pc] using invariant.consumerOk
  have stored := invariant.next_stored (by simp only [Consumer.token, pc])
  have content := invariant.chunk_at (Nat.le_refl written) stored
  simp only [Consumer.behind, Consumer.crit, Consumer.debt,
    Consumer.token, pc, Nat.add_zero] at isNext mutex nempty nstored
  subst isNext
  have oneMore :
      chunks.take (position + 1) =
        chunks.take position ++
          [(state.shared.buff state.consumer.i).content] := by
    rw [List.take_add_one, content, index]
    rfl
  constructor
  · exact mutex
  · simp only [Consumer.debt]
    omega
  · simp only [Consumer.token]
    omega
  · exact invariant.sized
  · exact invariant.window.mono (Nat.le_succ position)
  · exact invariant.input
  · simp only [oneMore, List.flatten_append, List.flatten_cons,
      List.flatten_nil, List.append_nil, invariant.output]
  · exact invariant.full
  · exact invariant.ended
  · rw [oneMore]
    intro chunk member
    rcases List.mem_append.mp member with earlier | isLast
    · exact invariant.data chunk earlier
    · obtain rfl := List.mem_singleton.mp isLast
      rintro empty
      rw [← index, empty] at content
      exact isData content
  · exact invariant.producerIndex
  · exact ⟨position, rfl, index⟩
  · exact invariant.producerOk
  · trivial

/-- The invariant holds in every run. -/
theorem of_reaches
    {trace : List Empty}
    (reaches : (system file).Reaches trace state) :
    ∃ chunks written, Invariant file chunks written state := by
  induction reaches with
  | initial =>
      exact ⟨[], 0, start⟩
  | @step trace events state next action earlier taken
      inductionHypothesis =>
      obtain ⟨chunks, written, invariant⟩ := inductionHypothesis
      cases action with
      | producer =>
          obtain ⟨⟨after, thread⟩, stepped, outcome⟩ :=
            Option.map_eq_some_iff.mp taken
          simp only [Prod.mk.injEq] at outcome
          obtain ⟨rfl, -⟩ := outcome
          rcases producer_move stepped with ⟨n, pc, rfl, rfl⟩ | move
          · exact ⟨_, written, invariant.producer_completes pc⟩
          · exact ⟨chunks, written, invariant.producer_moves stepped move⟩
      | read n =>
          obtain ⟨⟨after, thread⟩, stepped, outcome⟩ :=
            Option.map_eq_some_iff.mp taken
          simp only [Prod.mk.injEq] at outcome
          obtain ⟨rfl, -⟩ := outcome
          unfold readStep at stepped
          split at stepped
          · rename_i allowed
            simp only [Option.some.injEq, Prod.mk.injEq] at stepped
            obtain ⟨rfl, rfl⟩ := stepped
            exact ⟨chunks, written, invariant.reads allowed.1 allowed.2⟩
          · simp at stepped
      | consumer =>
          obtain ⟨⟨after, thread⟩, stepped, outcome⟩ :=
            Option.map_eq_some_iff.mp taken
          simp only [Prod.mk.injEq] at outcome
          obtain ⟨rfl, -⟩ := outcome
          rcases consumer_move stepped with ⟨pc, rfl, rfl⟩ | move
          · exact ⟨chunks, written + 1, invariant.writes pc⟩
          · exact ⟨chunks, written, invariant.consumer_moves stepped move⟩

end Invariant

section Results

variable
  {file : List Byte}
  {chunks : List (List Byte)}
  {written : Nat}
  {state : State}

/-- The file begins with what is written. -/
theorem Invariant.output_begins
    (invariant : Invariant file chunks written state) :
    List.IsPrefix state.shared.output file := by
  have begins : List.IsPrefix (chunks.take written) chunks :=
    List.take_prefix written chunks
  rw [invariant.output, invariant.input, List.append_assoc]
  exact begins.flatten.trans (List.prefix_append ..)

/-- The threads never work on the same buffer. -/
theorem Invariant.apart
    (invariant : Invariant file chunks written state)
    (producing : state.producer.Working)
    (consuming : state.consumer.Working) :
    state.producer.i ≠ state.consumer.i := by
  obtain ⟨position, isNext, index⟩ := invariant.producerIndex
  obtain ⟨other, isWritten, otherIndex⟩ := invariant.consumerIndex
  have nempty := invariant.nempty
  have nstored := invariant.nstored
  have consumerAt :
      other = written ∧ state.consumer.token = 1 := by
    generalize state.consumer = thread at consuming isWritten
    obtain ⟨pc, i⟩ := thread
    cases pc with
    | testEnd | write =>
        exact ⟨isWritten, rfl⟩
    | _ =>
        exact consuming.elim
  have producerAt :
      position + state.producer.pending = chunks.length ∧
        state.producer.slotTaken + state.producer.pending = 1 := by
    generalize state.producer = thread at producing isNext
    obtain ⟨pc, i⟩ := thread
    cases pc with
    | read | storeCount _ | testEnd =>
        exact ⟨isNext, rfl⟩
    | _ =>
        exact producing.elim
  rw [index, otherIndex]
  exact (slot_ne (by omega) (by omega)).symm

/-- When both threads have returned, the whole file is written. -/
theorem Invariant.complete
    (invariant : Invariant file chunks written state)
    (producerPc : state.producer.pc = .returned)
    (consumerPc : state.consumer.pc = .returned) :
    state.shared.output = file := by
  have isEnd : chunks[written]? = some [] := by
    simpa only [Consumer.Ok, consumerPc] using invariant.consumerOk
  have ended : chunks.getLast? = some [] := by
    simpa only [Producer.Ok, producerPc] using invariant.producerOk
  have unread := invariant.ended ended
  have input := invariant.input
  simp only [Producer.inFlight, producerPc, unread, List.append_nil]
    at input
  obtain ⟨stored, -⟩ := List.getElem?_eq_some_iff.mp isEnd
  have isLast : written + 1 = chunks.length := by
    by_contra notLast
    have early : written < chunks.dropLast.length := by
      rw [List.length_dropLast]
      omega
    have member : chunks.dropLast[written] ∈ chunks.dropLast :=
      List.getElem_mem early
    refine invariant.full _ member ?_
    rw [List.getElem_dropLast]
    exact Option.some.inj
      ((List.getElem?_eq_getElem stored).symm.trans isEnd)
  have all : chunks = chunks.take written ++ [[]] := by
    have whole : chunks.take (written + 1) = chunks := by
      rw [isLast, List.take_length]
    rw [List.take_add_one, isEnd] at whole
    exact whole.symm
  calc
    state.shared.output = (chunks.take written).flatten :=
      invariant.output
    _ = (chunks.take written ++ [[]]).flatten := by simp
    _ = chunks.flatten := by rw [← all]
    _ = file := input.symm

/-- A producer that cannot step is reading, waits, or has returned. -/
theorem producer_eq_none
    {shared : Shared}
    {thread : Producer}
    (blocked : producer shared thread = none) :
    thread.pc = .returned ∨ thread.pc = .read ∨
      (thread.pc = .waitNempty ∧ shared.nempty = 0) ∨
      (thread.pc = .waitMutex ∧ shared.mutex = 0) := by
  obtain ⟨pc, i⟩ := thread
  cases pc with
  | waitNempty | waitMutex =>
      simpa [producer, semWait_eq_none] using blocked
  | read =>
      exact .inr (.inl rfl)
  | returned =>
      exact .inl rfl
  | testEnd =>
      by_cases atEnd : (shared.buff i).n = 0 <;>
        simp [producer, atEnd] at blocked
  | _ =>
      simp [producer] at blocked

/-- A consumer that cannot step waits for a token, or has returned. -/
theorem consumer_eq_none
    {shared : Shared}
    {thread : Consumer}
    (blocked : consumer shared thread = none) :
    thread.pc = .returned ∨
      (thread.pc = .waitNstored ∧ shared.nstored = 0) ∨
      (thread.pc = .waitMutex ∧ shared.mutex = 0) := by
  obtain ⟨pc, i⟩ := thread
  cases pc with
  | waitNstored | waitMutex =>
      simpa [consumer, semWait_eq_none] using blocked
  | returned =>
      exact .inl rfl
  | testEnd =>
      by_cases atEnd : (shared.buff i).n = 0 <;>
        simp [consumer, atEnd] at blocked
  | _ =>
      simp [consumer] at blocked

/-- Some count can always be returned by `read`. -/
theorem exists_readCount (unread : List Byte) :
    ∃ n, ReadCount unread n := by
  cases unread with
  | nil =>
      exact ⟨0, .inl ⟨rfl, rfl⟩⟩
  | cons byte rest =>
      exact ⟨1, .inr ⟨Nat.one_pos, by decide, by simp⟩⟩

/-- With no step left, both threads have returned. -/
theorem Invariant.all_returned
    (invariant : Invariant file chunks written state)
    (stuck : ∀ action, (system file).step? state action = none) :
    AllReturned state := by
  have producerBlocked := stuck .producer
  have consumerBlocked := stuck .consumer
  simp only [system, Option.map_eq_none_iff]
    at producerBlocked consumerBlocked
  have mutex := invariant.mutex
  have nempty := invariant.nempty
  have nstored := invariant.nstored
  have producerOk := invariant.producerOk
  have consumerOk := invariant.consumerOk
  have notReading : state.producer.pc ≠ .read := by
    intro pc
    obtain ⟨n, count⟩ := exists_readCount state.shared.unread
    have blocked := stuck (.read n)
    simp [system, readStep, pc, count] at blocked
  have notCrit :
      state.producer.crit = 0 ∧ state.consumer.crit = 0 := by
    constructor
    · rcases producer_eq_none producerBlocked with
        pc | pc | ⟨pc, -⟩ | ⟨pc, -⟩ <;> simp [Producer.crit, pc]
    · rcases consumer_eq_none consumerBlocked with
        pc | ⟨pc, -⟩ | ⟨pc, -⟩ <;> simp [Consumer.crit, pc]
  have mutexFree : state.shared.mutex ≠ 0 := by
    omega
  have producerWaits :
      state.producer.pc = .returned ∨
        (state.producer.pc = .waitNempty ∧ state.shared.nempty = 0) := by
    rcases producer_eq_none producerBlocked with
      pc | pc | waits | ⟨-, taken⟩
    · exact .inl pc
    · exact (notReading pc).elim
    · exact .inr waits
    · exact (mutexFree taken).elim
  have consumerWaits :
      state.consumer.pc = .returned ∨
        (state.consumer.pc = .waitNstored ∧
          state.shared.nstored = 0) := by
    rcases consumer_eq_none consumerBlocked with pc | waits | ⟨-, taken⟩
    · exact .inl pc
    · exact .inr waits
    · exact (mutexFree taken).elim
  rcases producerWaits with producerPc | ⟨producerPc, nemptyZero⟩ <;>
    rcases consumerWaits with consumerPc | ⟨consumerPc, nstoredZero⟩
  · exact ⟨producerPc, consumerPc⟩
  · -- The marker would have been written, but only data is written.
    exfalso
    simp only [Producer.pending, Producer.Ok, Consumer.token, producerPc,
      consumerPc] at nstored producerOk
    have member : [] ∈ chunks.take written := by
      rw [List.take_of_length_le (by omega)]
      exact List.mem_of_getLast? producerOk
    exact invariant.data [] member rfl
  · -- The consumer has seen the marker, so the producer has stored it.
    exfalso
    simp only [Producer.Ok, Consumer.Ok, producerPc, consumerPc]
      at producerOk consumerOk
    exact invariant.chunk_ne_nil producerOk []
      (List.mem_of_getElem? consumerOk) rfl
  · -- The ring would be full and empty at once.
    exfalso
    simp only [Producer.slotTaken, Producer.pending, Consumer.token,
      Consumer.debt, producerPc, consumerPc, nbuff] at nempty nstored
    omega

end Results

/--
`sem_multibuffer` on any file, with any counts returned by the reads and any
interleaving: the file begins with what has been written, which is the whole
file once both threads have returned; the threads never work on one buffer; and
unless both have returned, one that has not can take a step.
-/
theorem multiBuffer_copies
    (file : List Byte)
    {trace : List Empty}
    {state : State}
    (reaches : (system file).Reaches trace state) :
    List.IsPrefix state.shared.output file ∧
      (AllReturned state → state.shared.output = file) ∧
      (state.producer.Working → state.consumer.Working →
        state.producer.i ≠ state.consumer.i) ∧
      (AllReturned state ∨
        ∃ action, (system file).Enabled state action) := by
  obtain ⟨chunks, written, invariant⟩ := Invariant.of_reaches reaches
  refine ⟨invariant.output_begins, ?_, invariant.apart, ?_⟩
  · rintro ⟨producerPc, consumerPc⟩
    exact invariant.complete producerPc consumerPc
  · by_cases stuck : ∀ action, (system file).step? state action = none
    · exact .inl (invariant.all_returned stuck)
    · obtain ⟨action, enabled⟩ := not_forall.mp stuck
      exact .inr ⟨action, Option.isSome_iff_ne_none.mpr enabled⟩

/-- Three bytes are copied in two chunks. -/
theorem multiBuffer_copies_threeBytes :
    ∃ trace state,
      (system [104, 105, 10]).Reaches trace state ∧
        AllReturned state ∧
        state.shared.output = [104, 105, 10] := by
  obtain ⟨trace, state, reaches, returned⟩ :=
    System.Reaches.exists_of_run?
      (by decide +kernel :
        ((system [104, 105, 10]).run? (system [104, 105, 10]).initial
          (List.replicate 3 .producer ++ .read 2 ::
            List.replicate 7 .producer ++ .read 1 ::
            List.replicate 7 .producer ++ .read 0 ::
            List.replicate 3 .producer ++
            List.replicate 18 .consumer)).any
          (fun outcome => decide (AllReturned outcome.1)) = true)
  have allReturned : AllReturned state := of_decide_eq_true returned
  obtain ⟨-, copied, -, -⟩ := multiBuffer_copies [104, 105, 10] reaches
  exact ⟨trace, state, reaches, allReturned, copied allReturned⟩

end CsPrimer.PxSem.MultiBuffer
