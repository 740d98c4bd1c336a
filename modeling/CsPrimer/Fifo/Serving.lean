import CsPrimer.Fifo.Server
import CsPrimer.Library.TransitionSystem

namespace CsPrimer.Fifo

open Library Pipe

/-!
# What ends the FIFO server

Other processes make, open, write and close FIFOs in any order and write any
bytes.  The server leaves its loop when it reads at the end of the file, finds
no request in what it has read, cannot open a client's FIFO, or writes to one
without a reader.
-/

/-- The server and the FIFOs. -/
structure Serving where
  fifos : Fifos
  server : Server

/-- Who takes the next step. -/
inductive ServingAction where
  | peer (call : Peer)
  | server (answer : Answer)
  deriving Repr, DecidableEq

/-- The interleavings of the server and all other processes. -/
def serving (servBuf : Buffer (maxSize + 1)) :
    System Serving ServingAction ServerEvent where
  initial :=
    { fifos := Fifos.initial
      server := Server.initial servBuf }
  step? state action :=
    match action with
    | .peer call =>
        (peer state.server.pc.gone state.fifos call).map fun fifos =>
          ({ state with fifos := fifos }, [])
    | .server answer =>
        (server state.fifos state.server answer).map
          fun (fifos, next, events) =>
            ({ fifos := fifos, server := next }, events)

/-- What is in `buf` after the next `read`. -/
def filled (state : Serving) : List UInt8 :=
  let bytes := state.fifos.served.take maxSize
  bytes ++ state.server.buf.bytes.drop bytes.length

/-- What the server needs at a step to go on. -/
def Needs (state : Serving) : ServerPc → Prop
  | .read =>
      (state.fifos.served = [] → state.fifos.writers ≠ 0) ∧
        (state.fifos.served ≠ [] →
          0 ∈ filled state ∧ (filled state).head? ≠ some 0)
  | .openClient request =>
      state.fifos.names request.pid ≠ none
  | .writeError request writefd =>
      string? (state.server.buf.bytes.drop request.ptr) = some [] ∨
        state.fifos.readers writefd ≠ 0
  | .writeHeader writefd | .writeFile _ writefd =>
      state.fifos.readers writefd ≠ 0
  | _ =>
      True

instance (state : Serving) (pc : ServerPc) : Decidable (Needs state pc) :=
  match pc with
  | .read => inferInstanceAs (Decidable (_ ∧ _))
  | .openClient _ | .writeHeader _ | .writeFile _ _ =>
      inferInstanceAs (Decidable (_ ≠ _))
  | .writeError _ _ => inferInstanceAs (Decidable (_ ∨ _))
  | .openServer | .openFile _ _ | .readFile _ | .returned | .exited
  | .killed | .faulted => inferInstanceAs (Decidable True)

/-- A step of another process, or one the server is provided for. -/
def Stays (state : Serving) : ServingAction → Prop
  | .peer _ => True
  | .server _ => Needs state state.server.pc

instance (state : Serving) (action : ServingAction) :
    Decidable (Stays state action) :=
  match action with
  | .peer _ => inferInstanceAs (Decidable True)
  | .server _ => inferInstanceAs (Decidable (Needs state _))

variable
  {servBuf buf : Buffer (maxSize + 1)}
  {trace events : List ServerEvent}
  {state next : Serving}
  {fifos after : Fifos}
  {process later : Server}

/-- What the server relies on between the decoding and the reply. -/
structure Split
    (request : Request)
    (buf : Buffer (maxSize + 1)) : Prop where
  ptr :
    request.ptr ≤ request.n
  n :
    request.n ≤ maxSize
  path :
    0 ∈ buf.bytes.drop request.ptr

/-- A terminated request is split, or it is bogus. -/
theorem splitRequest_cases
    {n : Nat}
    (bounded : n ≤ maxSize)
    (isNul : buf.bytes[n]? = some 0) :
    (∃ text, splitRequest buf n = .bogus text buf) ∨
      ∃ request path next,
        splitRequest buf n = .request request path next ∧
          Split request next := by
  have terminated : 0 ∈ buf.bytes := List.mem_of_getElem? isNul
  obtain ⟨text, isText⟩ :=
    Option.isSome_iff_exists.mp (string?_isSome_iff.mpr terminated)
  have isShort := length_le_of_string? isText isNul
  cases isIndex : text.idxOf? space with
  | none =>
      exact .inl ⟨text, by simp only [splitRequest, isText, isIndex]⟩
  | some index =>
      obtain ⟨before, after, rfl, rfl⟩ := eq_append_of_idxOf? isIndex
      obtain ⟨next, -, stored, -, isNumber, isPath⟩ := store?_splits isText
      rw [List.length_append, List.length_cons] at isShort
      have inside : before.length + 1 ≤ n := by omega
      refine .inr ⟨⟨pidOf before, before.length + 1, n⟩, after, next, ?_,
        inside, bounded, string?_isSome_iff.mp (by simp [isPath])⟩
      simp only [splitRequest, isText, isIndex, stored, isNumber, isPath]

/-- A request that is a string and not empty is split, or it is bogus. -/
theorem decode_cases
    {text : List UInt8}
    (isText : string? buf.bytes = some text)
    (notEmpty : text ≠ []) :
    (∃ text next, decode buf = .bogus text next) ∨
      ∃ request path next,
        decode buf = .request request path next ∧ Split request next := by
  obtain ⟨free, rest, isBytes⟩ := string?_eq_some_iff.mp isText
  have bounded : text.length ≤ maxSize := by
    have total := buf.length_eq
    rw [isBytes, List.length_append, List.length_cons] at total
    omega
  have cases :
      ∃ n middle, decode buf = splitRequest middle n ∧ n ≤ maxSize ∧
        middle.bytes[n]? = some 0 := by
    obtain ⟨front, last, rfl⟩ :=
      (List.eq_nil_or_concat' text).resolve_left notEmpty
    by_cases isNewline : last = newline
    · subst isNewline
      obtain ⟨middle, stored, middleBytes⟩ :=
        Buffer.store?_replace front [newline] [0] (0 :: rest)
          (by rw [isBytes]; simp) rfl
      refine ⟨front.length, middle, decode_of_newline isText stored, ?_,
        by simp [middleBytes]⟩
      rw [List.length_append] at bounded
      omega
    · refine ⟨_, buf, decode_of_other isText List.getLast?_concat isNewline,
        bounded, ?_⟩
      simp [isBytes]
  obtain ⟨n, middle, isSplit, inside, isNul⟩ := cases
  rw [isSplit]
  rcases splitRequest_cases inside isNul with ⟨other, isBogus⟩ | found
  · exact .inl ⟨other, middle, isBogus⟩
  · exact .inr found

/-- What has been read is a request, bogus, or no string but the empty one. -/
theorem decode_total (buf : Buffer (maxSize + 1)) :
    (decode buf = .fault ∧
        ¬ (0 ∈ buf.bytes ∧ buf.bytes.head? ≠ some 0)) ∨
      ((0 ∈ buf.bytes ∧ buf.bytes.head? ≠ some 0) ∧
        ((∃ text next, decode buf = .bogus text next) ∨
          ∃ request path next,
            decode buf = .request request path next ∧
              Split request next)) := by
  cases isText : string? buf.bytes with
  | none =>
      refine .inl ⟨by simp only [decode, isText], fun isString => ?_⟩
      have isSome := string?_isSome_iff.mpr isString.1
      simp [isText] at isSome
  | some text =>
      obtain ⟨free, rest, isBytes⟩ := string?_eq_some_iff.mp isText
      cases text with
      | nil =>
          refine .inl ⟨by simp only [decode, isText, List.getLast?_nil],
            fun isString => isString.2 (by rw [isBytes]; rfl)⟩
      | cons char text =>
          refine .inr ⟨⟨by simp [isBytes], ?_⟩,
            decode_cases isText (List.cons_ne_nil char text)⟩
          rw [isBytes, List.cons_append, List.head?_cons, Ne,
            Option.some.injEq]
          exact fun isNul => free (isNul ▸ List.mem_cons_self)

/-- What the steps of the server leave for those that follow. -/
def Ready (process : Server) : Prop :=
  match process.pc with
  | .openClient request | .openFile request _ => Split request process.buf
  | .writeError request _ => 0 ∈ process.buf.bytes.drop request.ptr
  | .writeFile n _ => 1 ≤ n ∧ n ≤ maxSize
  | _ => True

/-- The server goes on exactly if it finds what it needs. -/
structure GoesOn (state : Serving) (later : Server) : Prop where
  ready :
    Ready later
  gone_iff :
    later.pc.gone = true ↔ ¬ Needs state state.server.pc

/-- What is in the buffer after a read. -/
theorem store?_filled (state : Serving) :
    ∃ buf,
      state.server.buf.store? 0 (state.fifos.served.take maxSize) =
          some buf ∧
        buf.bytes = filled state := by
  have fits :
      0 + (state.fifos.served.take maxSize).length ≤ maxSize + 1 := by
    rw [List.length_take]
    omega
  refine ⟨_, dif_pos fits, ?_⟩
  simp [filled]

/-- The loop ends at the end of the file and at what is not a request. -/
theorem receive_goesOn
    (pc : process.pc = .read)
    (taken : receive fifos process = some (after, later, events)) :
    GoesOn ⟨fifos, process⟩ later := by
  unfold receive at taken
  split at taken
  case isTrue empty =>
    split at taken
    case isTrue noWriter =>
      simp only [Option.some.injEq, Prod.mk.injEq] at taken
      obtain ⟨-, rfl, -⟩ := taken
      exact ⟨trivial, by simp [ServerPc.gone, Needs, pc, empty, noWriter]⟩
    case isFalse =>
      simp at taken
  case isFalse notEmpty =>
    obtain ⟨buf, stored, isBytes⟩ := store?_filled ⟨fifos, process⟩
    simp only [stored] at taken
    have needs :
        Needs ⟨fifos, process⟩ process.pc ↔
          0 ∈ buf.bytes ∧ buf.bytes.head? ≠ some 0 := by
      simp [pc, Needs, notEmpty, isBytes]
    rcases decode_total buf with
      ⟨isFault, notString⟩ |
        ⟨isString, ⟨text, next, isBogus⟩ |
          ⟨request, path, next, isRequest, isSplit⟩⟩
    · simp only [isFault, Option.some.injEq, Prod.mk.injEq] at taken
      obtain ⟨-, rfl, -⟩ := taken
      exact ⟨trivial, by simp [ServerPc.gone, needs, notString]⟩
    · simp only [isBogus, Option.some.injEq, Prod.mk.injEq] at taken
      obtain ⟨-, rfl, -⟩ := taken
      exact ⟨trivial, by simp [ServerPc.gone, needs, isString]⟩
    · simp only [isRequest, Option.some.injEq, Prod.mk.injEq] at taken
      obtain ⟨-, rfl, -⟩ := taken
      exact ⟨isSplit, by simp [ServerPc.gone, needs, isString]⟩

/-- A write ends the server exactly if there is no reader. -/
theorem write_goesOn
    {writefd : Nat}
    {bytes : List UInt8}
    {pc : ServerPc}
    {replies : List Reply}
    (written : write fifos writefd bytes pc process = (later, replies))
    (isReady : Ready { process with pc := pc })
    (stays : pc.gone = false) :
    Ready later ∧
      (later.pc.gone = true ↔
        ¬ (bytes = [] ∨ fifos.readers writefd ≠ 0)) := by
  unfold write at written
  split at written
  case isTrue broken =>
    cases written
    exact ⟨trivial, by simpa [ServerPc.gone] using broken⟩
  case isFalse kept =>
    cases written
    exact ⟨isReady, by simpa [stays, not_and_or] using kept⟩

/-- The error text fits behind the request. -/
theorem appendError_eq
    {request : Request}
    (buf : Buffer (maxSize + 1))
    (writefd : Nat)
    (strerror : List UInt8)
    (isSplit : Split request buf) :
    ∃ next,
      appendError request writefd strerror
            ⟨.openFile request writefd, buf⟩ =
          ⟨.writeError request writefd, next⟩ ∧
        0 ∈ next.bytes.drop request.ptr := by
  obtain ⟨ordered, bounded, path⟩ := isSplit
  let text := ascii ": cannot open, " ++ strerror ++ ascii "\n"
  by_cases full : maxSize - request.n = 0
  · have printed :
        buf.snprintf? request.n (maxSize - request.n) text = some buf := by
      rw [Buffer.snprintf?, if_pos full]
    exact ⟨buf, by simp only [appendError, text, printed], path⟩
  · have isLength :
        (text.take (maxSize - request.n - 1) ++ [0]).length ≤
          maxSize - request.n := by
      rw [List.length_append, List.length_take, List.length_singleton]
      omega
    obtain ⟨next, stored, holds⟩ :=
      buf.store?_holds request.n
        (text.take (maxSize - request.n - 1) ++ [0]) (by omega)
    have printed :
        buf.snprintf? request.n (maxSize - request.n) text = some next := by
      rw [Buffer.snprintf?, if_neg full, stored]
    obtain ⟨rest, isBytes⟩ := holds
    refine ⟨next, by simp only [appendError, text, printed], ?_⟩
    have total := buf.length_eq
    have isFront : request.ptr ≤ (buf.bytes.take request.n).length := by
      rw [List.length_take]
      omega
    rw [← isBytes, List.append_assoc,
      List.drop_append_of_le_length isFront]
    simp

/-- What is written of a file stands in the buffer, and it is not empty. -/
theorem load?_chunk
    (buf : Buffer (maxSize + 1))
    {n : Nat}
    (positive : 1 ≤ n)
    (bounded : n ≤ maxSize) :
    buf.load? 0 n = some (buf.bytes.take n) ∧ buf.bytes.take n ≠ [] := by
  have total := buf.length_eq
  refine ⟨Buffer.load?_front (Nat.le_succ_of_le bounded), ?_⟩
  rw [← List.length_pos_iff, List.length_take]
  omega

/-- The other steps end the server exactly without what they need. -/
theorem respond_goesOn
    {answer : Answer}
    {replies : List Reply}
    (isReady : Ready process)
    (taken : respond fifos process answer = some (later, replies)) :
    GoesOn ⟨fifos, process⟩ later := by
  obtain ⟨pc, buf⟩ := process
  simp only [respond] at taken
  split at taken
  · rw [Option.ite_none_right_eq_some] at taken
    obtain ⟨-, isNext⟩ := taken
    cases isNext
    exact ⟨trivial, by simp [ServerPc.gone, Needs]⟩
  · split at taken
    case h_1 noName =>
      cases taken
      exact ⟨trivial, by simp [ServerPc.gone, Needs, noName]⟩
    case h_2 writefd isName =>
      rw [Option.ite_none_left_eq_some] at taken
      obtain ⟨-, isNext⟩ := taken
      cases isNext
      exact ⟨isReady, by simp [ServerPc.gone, Needs, isName]⟩
  · next request writefd strerror =>
    cases taken
    obtain ⟨next, appended, isPath⟩ :=
      appendError_eq buf writefd strerror isReady
    rw [appended]
    exact ⟨isPath, by simp [ServerPc.gone, Needs]⟩
  · cases taken
    exact ⟨trivial, by simp [ServerPc.gone, Needs]⟩
  · next request writefd =>
    obtain ⟨text, isText⟩ :=
      Option.isSome_iff_exists.mp (string?_isSome_iff.mpr isReady)
    simp only [isText, Option.some.injEq] at taken
    obtain ⟨ready, gone⟩ := write_goesOn taken trivial rfl
    exact ⟨ready, by simpa [Needs, isText] using gone⟩
  · obtain ⟨ready, gone⟩ :=
      write_goesOn (Option.some.inj taken) trivial rfl
    exact ⟨ready, by simpa [Needs] using gone⟩
  · next writefd bytes =>
    rw [Option.ite_none_left_eq_some] at taken
    obtain ⟨valid, isNext⟩ := taken
    obtain ⟨nonempty, bounded⟩ := not_or.mp valid
    obtain ⟨next, stored, -⟩ := buf.exists_store? 0 bytes (by omega)
    rw [stored] at isNext
    cases isNext
    exact ⟨⟨List.length_pos_iff.mpr nonempty, Nat.le_of_not_lt bounded⟩,
      by simp [ServerPc.gone, Needs]⟩
  · cases taken
    exact ⟨trivial, by simp [ServerPc.gone, Needs]⟩
  · next n writefd =>
    obtain ⟨loaded, nonempty⟩ := load?_chunk buf isReady.1 isReady.2
    simp only [loaded, Option.some.injEq] at taken
    obtain ⟨ready, gone⟩ := write_goesOn taken trivial rfl
    exact ⟨ready, by simpa [Needs, nonempty] using gone⟩
  · cases taken

/-- The server is ended by a step exactly if it lacks what it needs. -/
theorem server_goesOn
    {answer : Answer}
    (isReady : Ready process)
    (taken :
      server fifos process answer = some (after, later, events)) :
    GoesOn ⟨fifos, process⟩ later := by
  unfold server at taken
  split at taken
  case isTrue pc =>
    split at taken
    · exact receive_goesOn pc taken
    · simp at taken
  case isFalse =>
    obtain ⟨⟨next, replies⟩, responds, moved⟩ :=
      Option.map_eq_some_iff.mp taken
    obtain ⟨-, rfl, -⟩ : _ ∧ next = later ∧ _ := by
      simpa only [Prod.mk.injEq] using moved
    exact respond_goesOn isReady responds

/-- A step ends the server exactly if the server lacks what it needs. -/
theorem step_goesOn
    {action : ServingAction}
    (running : ¬ state.server.pc.gone = true)
    (isReady : Ready state.server)
    (taken : (serving servBuf).step? state action = some (next, events)) :
    (next.server.pc.gone = true ↔ ¬ Stays state action) ∧
      Ready next.server := by
  cases action with
  | peer call =>
      obtain ⟨fifos, -, shape⟩ := Option.map_eq_some_iff.mp taken
      obtain ⟨rfl, -⟩ := Prod.mk.inj shape
      exact ⟨by simpa [Stays] using running, isReady⟩
  | server answer =>
      obtain ⟨⟨fifos, later, observed⟩, moved, shape⟩ :=
        Option.map_eq_some_iff.mp taken
      obtain ⟨rfl, -⟩ := Prod.mk.inj shape
      have goesOn := server_goesOn isReady moved
      exact ⟨goesOn.gone_iff, goesOn.ready⟩

/-- The server is gone exactly after a step that lacked what it needs. -/
theorem gone_exactly (servBuf : Buffer (maxSize + 1)) :
    (serving servBuf).BadExactlyOutside Stays
      (fun state => state.server.pc.gone = true) := by
  apply System.BadExactlyOutside.of_invariant
    fun state => Ready state.server
  · exact ⟨Bool.false_ne_true, trivial⟩
  · intro state next action events running isReady taken
    exact step_goesOn running isReady taken

/--
`fifo_server`, for every order in which other processes make, open, write and
close FIFOs, and any bytes they write: in every run in which each step of the
server finds what it needs, the server is in its loop and can be opened.  A
step of such a run ends the server exactly if it lacks what it needs.
-/
theorem fifoServer_stays
    (servBuf : Buffer (maxSize + 1))
    (reaches : ((serving servBuf).guarded Stays).Reaches trace state) :
    state.server.pc.gone = false ∧
      (serving servBuf).Enabled state (.peer .openServer) ∧
      ∀ action next events,
        (serving servBuf).step? state action = some (next, events) →
        (next.server.pc.gone = true ↔ ¬ Stays state action) := by
  obtain ⟨running, exactly⟩ := gone_exactly servBuf trace state reaches
  have stays : state.server.pc.gone = false := by simpa using running
  refine ⟨stays, ?_, exactly⟩
  simp [System.Enabled, serving, peer, stays]

/-- The calls of a client up to its reply, and those after it. -/
def clientCalls (pid : Int) (record : List UInt8) :
    List ServingAction × List ServingAction :=
  ([.peer (.makeFifo pid), .peer .openServer, .peer (.writeServer record),
      .peer (.openFifo pid)],
    [.peer (.closeFifo 0), .peer (.unlinkFifo pid), .peer .closeServer])

/-- While a second client holds the FIFO open, the first one is served. -/
theorem fifoServer_stays_twoClients :
    ∃ trace state,
      ((serving (.filled (maxSize + 1) 1)).guarded Stays).Reaches
        trace state ∧
      trace = [.obtained 7 (ascii "a"),
        .replied ⟨0, ascii "a: cannot open, error\n"⟩] ∧
      state.server.pc.gone = false := by
  obtain ⟨trace, state, reaches, observed⟩ :=
    System.Reaches.exists_of_run?
      (by decide +kernel :
        (((serving (.filled (maxSize + 1) 1)).guarded Stays).run?
          ((serving (.filled (maxSize + 1) 1)).guarded Stays).initial
          ((clientCalls 7 (ascii "7 a\n" ++ List.replicate 252 0)).1 ++
            List.replicate 3 (.server .done) ++
            [.server (.notOpened (ascii "error")), .server .done,
              .peer .openServer] ++
            (clientCalls 7 []).2)).any
          (fun outcome => decide (outcome.2 =
            [.obtained 7 (ascii "a"),
              .replied ⟨0, ascii "a: cannot open, error\n"⟩])) = true)
  exact ⟨trace, state, reaches, of_decide_eq_true observed,
    (fifoServer_stays _ reaches).1⟩

/--
One client sends a request, reads the reply and closes the FIFO: the server
reads the end of the file and returns.
-/
theorem fifoServer_leaves :
    ¬ ∀ (servBuf : Buffer (maxSize + 1)) (trace : List ServerEvent)
        (state : Serving),
      (serving servBuf).Reaches trace state →
        state.server.pc.gone = false := by
  intro always
  obtain ⟨trace, state, reaches, left⟩ :=
    System.Reaches.exists_of_run?
      (by decide +kernel :
        ((serving (.filled (maxSize + 1) 1)).run?
          (serving (.filled (maxSize + 1) 1)).initial
          ((clientCalls 7 (ascii "7 a\n" ++ List.replicate 252 0)).1 ++
            List.replicate 3 (.server .done) ++
            [.server (.notOpened (ascii "error")), .server .done] ++
            (clientCalls 7 []).2 ++ [.server .done])).any
          (fun outcome => decide (
            outcome.1.server.pc = .returned)) = true)
  have stays := always _ trace state reaches
  rw [of_decide_eq_true left] at stays
  simp [ServerPc.gone] at stays

end CsPrimer.Fifo
