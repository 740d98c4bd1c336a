import CsPrimer.SvMsg.PrivateQueues

namespace CsPrimer.SvMsg

open Library TypedQueue

/-!
# No private queue receives a complete reply

Every message a child sends is part of the reply to the request it was forked
for, and it is a string.  Only a line that starts with a NUL makes an empty
one.
-/

namespace PrivateQueues

variable
  {qbytes : Nat}
  {wellKnown qid : Int}
  {files : List UInt8 → File}
  {stdin : Int → List UInt8}
  {mtext : Mtext}
  {mtexts : Int → Mtext}
  {trace events : List Event}
  {state : State}

section Texts

/-- What may be put on the queue of a client. -/
def texts
    (files : List UInt8 → File)
    (stdin : List UInt8) : List (List UInt8) :=
  replyTexts (pathname stdin) (files (pathname stdin))

theorem putOn_append (qid : Int) (trace events : List Event) :
    putOn qid (trace ++ events) = putOn qid trace ++ putOn qid events :=
  List.filterMap_append

/-- What clients receive is not put on a queue. -/
theorem putOn_obtained (qid other : Int) (received : List (List UInt8)) :
    putOn qid (received.map (.obtained other)) = [] := by
  induction received with
  | nil =>
      rfl
  | cons text received inductionHypothesis =>
      exact inductionHypothesis

/-- What a child puts, it puts on one queue. -/
theorem putOn_puts (qid other : Int) (sent : List (List UInt8)) :
    putOn qid ((sent.map (.put other)).map Event.server) =
      if other = qid then sent else [] := by
  induction sent with
  | nil =>
      simp [putOn]
  | cons text sent inductionHypothesis =>
      by_cases same : other = qid <;>
        simp_all [putOn, put?]

/-- Strings that end with an empty one are no reply with a NUL. -/
theorem not_isReply_of_texts
    {put : List (List UInt8)}
    {line : List UInt8}
    (inTexts : ∀ text ∈ put, text ∈ texts files line) :
    ¬ IsReply 1 (expected files line) (put.map (1, ·)) := by
  intro isReply
  have isLast := isReply.getLast?
  rw [List.getLast?_map, Option.map_eq_some_iff] at isLast
  obtain ⟨last, isPut, same⟩ := isLast
  obtain rfl : last = [] := (Prod.mk.inj same).2
  have notStrings :=
    not_strings_of_nil_mem (inTexts [] (List.mem_of_getLast? isPut))
  refine not_isReply notStrings ?_ isReply
  intro message member
  obtain ⟨text, isText, rfl⟩ := List.mem_map.mp member
  exact not_mem_of_mem_replyTexts (not_mem_pathname line).1
    (inTexts text isText)

end Texts

section Runs

theorem writefdOf_decimal
    {id : Int}
    (isId : IsId id) :
    writefdOf (decimal id) = id := by
  obtain ⟨nonnegative, small⟩ := isId
  rw [writefdOf, atol_decimal ⟨nonnegative, small⟩]
  exact Int.bmod_eq_of_le (by omega) (by omega)

/-- A process that replies to the request of a client. -/
structure Serves
    (wellKnown : Int)
    (files : List UInt8 → File)
    (stdin : Int → List UInt8)
    (process : Child) : Prop where
  isClient :
    IsClient wellKnown process.writefd
  answering :
    ∃ n left,
      Answering n (pathname (stdin process.writefd))
          (files (pathname (stdin process.writefd))) process.reply left ∧
        ∀ text ∈ left, text ∈ texts files (stdin process.writefd)

/-- A text that is part of a reply and no longer than a buffer. -/
def Part
    (files : List UInt8 → File)
    (line text : List UInt8) : Prop :=
  text ∈ texts files line ∧ text.length ≤ textSize

/-- What holds between any two steps. -/
structure Invariant
    (wellKnown : Int)
    (files : List UInt8 → File)
    (stdin : Int → List UInt8)
    (put : Int → List (List UInt8))
    (state : State) : Prop where
  requests :
    ∀ text ∈ channel 1 (state.queues wellKnown),
      ∃ qid, IsClient wellKnown qid ∧ text = request qid (stdin qid) ∧
        text.length < textSize
  forks :
    ∀ path ptr n, state.family.parent.pc = .fork path ptr n →
      Serves wellKnown files stdin
        { writefd := state.family.parent.writefd
          reply :=
            { pc := .openFile path ptr n
              mtext := state.family.parent.mtext } }
  children :
    ∀ process ∈ state.family.children,
      Serves wellKnown files stdin process
  waiting :
    ∀ qid, IsClient wellKnown qid →
      ∀ text ∈ channel 1 (state.queues qid), Part files (stdin qid) text
  sent :
    ∀ qid, IsClient wellKnown qid →
      ∀ text ∈ put qid, text ∈ texts files (stdin qid)
  returned :
    ∀ qid, IsClient wellKnown qid →
      (state.clients qid).pc = .returned → [] ∈ texts files (stdin qid)

variable {put : Int → List (List UInt8)}

theorem Invariant.initial
    (wellKnown : Int)
    (files : List UInt8 → File)
    (stdin : Int → List UInt8)
    (mtext : Mtext)
    (mtexts : Int → Mtext) :
    Invariant wellKnown files stdin (fun _ => [])
      (system qbytes wellKnown files stdin mtext mtexts).initial := by
  constructor <;> simp [system, Parent.initial, channel]

/-- A client adds its request to the well-known queue. -/
theorem Invariant.clientSends
    {queue : List Message}
    {next : Client}
    (invariant : Invariant wellKnown files stdin put state)
    (isClient : IsClient wellKnown qid)
    (taken :
      clientSend qbytes qid (stdin qid) (state.queues wellKnown)
        (state.clients qid) = some (queue, next)) :
    Invariant wellKnown files stdin put
      { state with
        queues := Function.update state.queues wellKnown queue
        clients := Function.update state.clients qid next } := by
  have sends := clientSend_cases isClient.1 taken
  refine ⟨?_, invariant.forks, invariant.children, ?_, invariant.sent, ?_⟩
  · intro text member
    simp only [Function.update_self] at member
    rcases sends with ⟨-, rfl⟩ | ⟨-, rfl, fits⟩
    · exact invariant.requests text member
    · rw [channel_append, channel_singleton, List.mem_append] at member
      rcases member with inOld | isNew
      · exact invariant.requests text inOld
      · obtain rfl := List.mem_singleton.mp isNew
        exact ⟨qid, isClient, rfl, fits⟩
  · intro other isOther text member
    simp only [Function.update_of_ne isOther.2] at member
    exact invariant.waiting other isOther text member
  · intro other isOther hasReturned
    by_cases same : other = qid
    · simp only [same, Function.update_self] at hasReturned
      rcases sends with ⟨isFault, -⟩ | ⟨isSent, -⟩
      · simp [isFault] at hasReturned
      · simp [isSent] at hasReturned
    · simp only [Function.update_of_ne same] at hasReturned
      exact invariant.returned other isOther hasReturned

/-- A client takes a part of its reply from its queue. -/
theorem Invariant.clientReceives
    {queue : List Message}
    {next : Client}
    {received : List (List UInt8)}
    (invariant : Invariant wellKnown files stdin put state)
    (isClient : IsClient wellKnown qid)
    (taken :
      clientReceive 1 (state.queues qid) (state.clients qid) =
        some (queue, next, received)) :
    Invariant wellKnown files stdin put
      { state with
        queues := Function.update state.queues qid queue
        clients := Function.update state.clients qid next } := by
  obtain ⟨text, rfl, takes, isNext⟩ :=
    clientReceive_cases
      (fun text member => (invariant.waiting qid isClient text member).2)
      taken
  have isPart : Part files (stdin qid) text := by
    apply invariant.waiting qid isClient
    rw [takes.own]
    exact List.mem_cons_self
  refine ⟨?_, invariant.forks, invariant.children, ?_, invariant.sent, ?_⟩
  · intro other member
    simp only [Function.update_of_ne (Ne.symm isClient.2)] at member
    exact invariant.requests other member
  · intro other isOther text member
    by_cases same : other = qid
    · subst same
      simp only [Function.update_self] at member
      apply invariant.waiting other isOther
      rw [takes.own]
      exact List.mem_cons_of_mem _ member
    · simp only [Function.update_of_ne same] at member
      exact invariant.waiting other isOther text member
  · intro other isOther hasReturned
    by_cases same : other = qid
    · subst same
      simp only [Function.update_self, isNext] at hasReturned
      split at hasReturned
      case isTrue isEmpty =>
        exact isEmpty ▸ isPart.1
      case isFalse =>
        simp at hasReturned
    · simp only [Function.update_of_ne same] at hasReturned
      exact invariant.returned other isOther hasReturned

/-- The parent takes a request, and then stands before the fork for it. -/
theorem Invariant.takes
    {text : List UInt8}
    {queue : List Message}
    {next : Parent}
    {forked : List Child}
    {outputs : List Output}
    (invariant : Invariant wellKnown files stdin put state)
    (isPc : state.family.parent.pc = .receive)
    (received : Received 1 (state.queues wellKnown) text queue)
    (taken :
      parent state.family.parent (.received text) =
        some (next, forked, outputs)) :
    Invariant wellKnown files stdin put
        { state with
          queues := Function.update state.queues wellKnown queue
          family :=
            { parent := next
              children := state.family.children ++ forked } } ∧
      ∀ qid, putOn qid (outputs.map .server) = [] := by
  obtain ⟨qid, isClient, rfl, fits⟩ :=
    invariant.requests text (received.own ▸ List.mem_cons_self)
  obtain ⟨splits, rest, obtained, isBytes⟩ :=
    obtain_request isClient.1 state.family.parent.mtext fits
  simp only [SvMsg.parent, isPc, obtained, Option.map_some,
    writefdOf_decimal isClient.1, Option.some.injEq, Prod.mk.injEq]
    at taken
  obtain ⟨rfl, rfl, rfl⟩ := taken
  rw [List.append_nil]
  refine ⟨⟨?_, ?_, invariant.children, ?_, invariant.sent,
    invariant.returned⟩, fun _ => rfl⟩
  · intro text member
    simp only [Function.update_self] at member
    apply invariant.requests
    rw [received.own]
    exact List.mem_cons_of_mem _ member
  · intro path ptr n isFork
    simp only [ParentPc.fork.injEq] at isFork
    obtain ⟨rfl, rfl, rfl⟩ := isFork
    exact ⟨isClient, _, _, answering_request _ isBytes, fun _ => id⟩
  · intro other isOther text member
    simp only [Function.update_of_ne isOther.2] at member
    exact invariant.waiting other isOther text member

/-- A parent that is at no fork, with children that serve clients. -/
theorem Invariant.noFork
    {next : Parent}
    {forked : List Child}
    (invariant : Invariant wellKnown files stdin put state)
    (notFork : ∀ path ptr n, next.pc ≠ .fork path ptr n)
    (serves :
      ∀ process ∈ forked, Serves wellKnown files stdin process) :
    Invariant wellKnown files stdin put
      { state with
        family :=
          { parent := next
            children := state.family.children ++ forked } } := by
  refine ⟨invariant.requests, ?_, ?_, invariant.waiting, invariant.sent,
    invariant.returned⟩
  · intro path ptr n isFork
    exact absurd isFork (notFork path ptr n)
  · intro process member
    rcases List.mem_append.mp member with inOld | isNew
    · exact invariant.children process inOld
    · exact serves process isNew

/-- The parent takes a request, or forks a child for the last one. -/
theorem Invariant.parent
    {fails : Bool}
    {answer : Answer}
    {queue : List Message}
    {next : Parent}
    {forked : List Child}
    {outputs : List Output}
    (invariant : Invariant wellKnown files stdin put state)
    (called :
      parentCall fails (state.queues wellKnown) state.family.parent =
        some (answer, queue))
    (taken :
      parent state.family.parent answer = some (next, forked, outputs)) :
    Invariant wellKnown files stdin put
        { state with
          queues := Function.update state.queues wellKnown queue
          family :=
            { parent := next
              children := state.family.children ++ forked } } ∧
      ∀ qid, putOn qid (outputs.map .server) = [] := by
  cases isPc : state.family.parent.pc with
  | receive =>
      simp only [parentCall, isPc] at called
      split at called
      case isTrue interrupted =>
        obtain ⟨rfl, rfl⟩ := Prod.mk.inj (Option.some.inj called)
        simp only [SvMsg.parent, isPc, obtain, Option.map_some,
          Option.some.injEq, Prod.mk.injEq] at taken
        obtain ⟨rfl, rfl, rfl⟩ := taken
        rw [Function.update_eq_self]
        exact ⟨invariant.noFork (by simp) (by simp), fun _ => rfl⟩
      case isFalse =>
        have short : ∀ text ∈ channel 1 (state.queues wellKnown),
            text.length ≤ textSize := by
          intro text member
          obtain ⟨other, -, -, fits⟩ := invariant.requests text member
          exact Nat.le_of_lt fits
        obtain ⟨text, rfl, received⟩ := msgrcv_received short called
        exact invariant.takes isPc received taken
  | fork path ptr n =>
      have serves := invariant.forks path ptr n isPc
      have notFork :
          ∀ path ptr n,
            (state.family.parent.again state.family.parent.mtext).pc ≠
              .fork path ptr n := by
        intro path ptr n
        simp only [Parent.again]
        split <;> simp
      simp only [parentCall, isPc, Option.some.injEq, Prod.mk.injEq]
        at called
      obtain ⟨rfl, rfl⟩ := called
      rw [Function.update_eq_self]
      cases fails with
      | false =>
          simp only [SvMsg.parent, isPc, Bool.false_eq_true, if_false,
            Option.some.injEq, Prod.mk.injEq] at taken
          obtain ⟨rfl, rfl, rfl⟩ := taken
          exact ⟨invariant.noFork notFork (by simpa using serves),
            fun _ => rfl⟩
      | true =>
          simp only [SvMsg.parent, isPc, if_true, Option.some.injEq,
            Prod.mk.injEq] at taken
          obtain ⟨rfl, rfl, rfl⟩ := taken
          exact ⟨invariant.noFork notFork (by simp), fun _ => rfl⟩
  | returned | faulted =>
      simp [parentCall, isPc] at called

/-- What a child sends is a part of the reply to its client. -/
theorem Invariant.child
    {index : Nat}
    {process next : Child}
    {answer : Answer}
    {queue : List Message}
    {outputs : List Output}
    (invariant : Invariant wellKnown files stdin put state)
    (isProcess : state.family.children[index]? = some process)
    (called :
      childCall qbytes files (state.queues process.writefd) process =
        some (answer, queue))
    (taken : SvMsg.child process answer = some (next, outputs)) :
    Invariant wellKnown files stdin
      (fun qid => put qid ++ putOn qid (outputs.map .server))
      { state with
        queues := Function.update state.queues process.writefd queue
        family :=
          { state.family with
            children := state.family.children.set index next } } := by
  obtain ⟨isClient, n, left, answering, inTexts⟩ :=
    invariant.children process (List.mem_of_getElem? isProcess)
  rw [childCall, if_neg (fun refused => refused.2 isClient.1)] at called
  obtain ⟨notRefused, truthful, puts⟩ :=
    answering.replyCall (by decide) called
  obtain ⟨⟨reply, sent⟩, responds, shape⟩ :=
    Option.map_eq_some_iff.mp taken
  obtain ⟨rfl, rfl⟩ := Prod.mk.inj shape
  obtain ⟨first, later, laterAnswering, rfl, outcome⟩ :=
    respond_answers (not_mem_pathname _).1 answering truthful responds
  obtain rfl : sent = first :=
    outcome.resolve_right fun refused => notRefused refused.1
  have isQueue := puts reply sent responds
  have parts :
      ∀ text ∈ sent, Part files (stdin process.writefd) text :=
    fun text member =>
      ⟨inTexts text (List.mem_append_left _ member),
        length_le_of_respond answering.ready responds member⟩
  refine ⟨?_, invariant.forks, ?_, ?_, ?_, invariant.returned⟩
  · intro text member
    simp only [Function.update_of_ne (Ne.symm isClient.2)] at member
    exact invariant.requests text member
  · intro other member
    rcases List.mem_or_eq_of_mem_set member with inOld | rfl
    · exact invariant.children other inOld
    · exact ⟨isClient, n, later, laterAnswering, fun text inLater =>
        inTexts text (List.mem_append_right _ inLater)⟩
  · intro other isOther text member
    by_cases same : other = process.writefd
    · subst same
      simp only [Function.update_self] at member
      rw [isQueue, channel_append, channel_map, List.mem_append] at member
      rcases member with inOld | isNew
      · exact invariant.waiting _ isOther text inOld
      · exact parts text isNew
    · simp only [Function.update_of_ne same] at member
      exact invariant.waiting other isOther text member
  · intro other isOther text member
    rw [putOn_puts] at member
    rcases List.mem_append.mp member with inOld | isNew
    · exact invariant.sent other isOther text inOld
    · split at isNew
      case isTrue same =>
        subst same
        exact (parts text isNew).1
      case isFalse =>
        simp at isNew

theorem Invariant.of_reaches
    (reaches :
      (system qbytes wellKnown files stdin mtext mtexts).Reaches trace
        state) :
    Invariant wellKnown files stdin (fun qid => putOn qid trace) state := by
  induction reaches with
  | initial =>
      exact Invariant.initial wellKnown files stdin mtext mtexts
  | @step trace events state later action earlier taken
      inductionHypothesis =>
      simp only [putOn_append]
      cases action with
      | client qid =>
          simp only [system] at taken
          split at taken
          case isTrue isClient =>
            split at taken
            · obtain ⟨⟨queue, next⟩, sends, shape⟩ :=
                Option.map_eq_some_iff.mp taken
              obtain ⟨rfl, rfl⟩ := Prod.mk.inj shape
              simpa [putOn] using
                inductionHypothesis.clientSends isClient sends
            · obtain ⟨⟨queue, next, received⟩, receives, shape⟩ :=
                Option.map_eq_some_iff.mp taken
              obtain ⟨rfl, rfl⟩ := Prod.mk.inj shape
              simp only [putOn_obtained, List.append_nil]
              exact inductionHypothesis.clientReceives isClient receives
            · simp at taken
            · simp at taken
            · simp at taken
          case isFalse =>
            simp at taken
      | parent fails =>
          simp only [system] at taken
          split at taken
          · simp at taken
          case h_2 answer queue called =>
            obtain ⟨⟨after, outputs⟩, steps, shape⟩ :=
              Option.map_eq_some_iff.mp taken
            obtain ⟨rfl, rfl⟩ := Prod.mk.inj shape
            obtain ⟨⟨next, forked, observed⟩, moves, shape⟩ :=
              Option.map_eq_some_iff.mp steps
            obtain ⟨rfl, rfl⟩ := Prod.mk.inj shape
            obtain ⟨invariant, nothing⟩ :=
              inductionHypothesis.parent called moves
            simp only [nothing, List.append_nil]
            exact invariant
      | child index =>
          simp only [system] at taken
          split at taken
          · simp at taken
          case h_2 process isProcess =>
            split at taken
            · simp at taken
            case h_2 answer queue called =>
              obtain ⟨⟨after, outputs⟩, steps, shape⟩ :=
                Option.map_eq_some_iff.mp taken
              obtain ⟨rfl, rfl⟩ := Prod.mk.inj shape
              simp only [family, isProcess] at steps
              obtain ⟨⟨next, observed⟩, moves, shape⟩ :=
                Option.map_eq_some_iff.mp steps
              obtain ⟨rfl, rfl⟩ := Prod.mk.inj shape
              exact inductionHypothesis.child isProcess called moves

/--
`msgservernq`, its children and its clients, for all files and in every
interleaving: what has been put on a private queue is never a complete reply,
and no client leaves its loop unless the file it asked for contains a NUL.
-/
theorem msgservernq_never_replies
    (reaches :
      (system qbytes wellKnown files stdin mtext mtexts).Reaches trace
        state)
    (isClient : IsClient wellKnown qid) :
    ¬ IsReply 1 (expected files (stdin qid))
        ((putOn qid trace).map (1, ·)) ∧
      ((files (pathname (stdin qid))).Strings →
        (state.clients qid).pc ≠ .returned) := by
  have invariant := Invariant.of_reaches reaches
  constructor
  · exact not_isReply_of_texts (invariant.sent qid isClient)
  · intro strings hasReturned
    exact not_strings_of_nil_mem
      (invariant.returned qid isClient hasReturned) strings

/-- One client asks for the file, and a child answers and exits. -/
def oneClient (qid : Int) : List Action :=
  [.client qid, .parent false, .parent false] ++
    List.replicate 4 (.child 0) ++ [.client qid]

/-- A run in which the client of queue 5 has received its whole file. -/
theorem exists_oneClient :
    ∃ trace state,
      (system 16384 0 oneFile (fun _ => ascii "f\n") (.filled textSize 1)
        (fun _ => .filled textSize 1)).Reaches trace state ∧
      putOn 5 trace = [ascii "x\n"] ∧
      state.family.children.map (fun process =>
        (process.writefd, process.reply.pc)) = [(5, .finished)] := by
  obtain ⟨trace, state, reaches, observed⟩ :=
    System.Reaches.exists_of_run?
      (by decide +kernel :
        ((system 16384 0 oneFile (fun _ => ascii "f\n")
          (.filled textSize 1) (fun _ => .filled textSize 1)).run?
          (system 16384 0 oneFile (fun _ => ascii "f\n")
            (.filled textSize 1) (fun _ => .filled textSize 1)).initial
          (oneClient 5)).any
          (fun outcome => decide (
            putOn 5 outcome.2 = [ascii "x\n"] ∧
              outcome.1.family.children.map (fun process =>
                (process.writefd, process.reply.pc)) =
                  [(5, .finished)])) = true)
  exact ⟨trace, state, reaches, of_decide_eq_true observed⟩

/-- The child has exited, and its client still waits for the end. -/
theorem msgservernq_never_replies_oneClient :
    ∃ trace state,
      (system 16384 0 oneFile (fun _ => ascii "f\n") (.filled textSize 1)
        (fun _ => .filled textSize 1)).Reaches trace state ∧
      state.family.children.map (fun process =>
        (process.writefd, process.reply.pc)) = [(5, .finished)] ∧
      (state.clients 5).pc ≠ .returned := by
  obtain ⟨trace, state, reaches, -, hasExited⟩ := exists_oneClient
  refine ⟨trace, state, reaches, hasExited, ?_⟩
  exact (msgservernq_never_replies reaches (by decide)).2 (by decide)

/-- Once its child has exited, a client has not been sent a reply. -/
theorem msgservernq_not_replies :
    ¬ ∀ (files : List UInt8 → File) (stdin : Int → List UInt8)
        (mtext : Mtext) (mtexts : Int → Mtext) (trace : List Event)
        (state : State),
      (system 16384 0 files stdin mtext mtexts).Reaches trace state →
      ∀ process ∈ state.family.children,
        process.reply.pc = .finished →
        IsReply 1 (expected files (stdin process.writefd))
          ((putOn process.writefd trace).map (1, ·)) := by
  intro always
  obtain ⟨trace, state, reaches, isPut, hasExited⟩ := exists_oneClient
  obtain ⟨process, isChildren, isProcess⟩ :=
    List.map_eq_singleton_iff.mp hasExited
  obtain ⟨isQueue, isFinished⟩ := Prod.mk.inj isProcess
  have isReply :=
    always oneFile _ _ _ trace state reaches process
      (isChildren ▸ List.mem_cons_self) isFinished
  rw [isQueue, isPut] at isReply
  exact absurd isReply.getLast? (by decide)

end Runs

end PrivateQueues

end CsPrimer.SvMsg
