import CsPrimer.SvMsg.Answering
import CsPrimer.SvMsg.SingleQueue

namespace CsPrimer.SvMsg

open Library TypedQueue

/-!
# Which replies of the single-queue server are complete

The server answers one request at a time, so what it has sent is what it has
sent for one request after the other.  The channel of a pid on the queue holds
what was sent with that type and has not been received.
-/

namespace SingleQueue

variable
  {qbytes : Nat}
  {behind : Buffer 7}
  {files : List UInt8 → File}
  {stdin : Int → List UInt8}
  {mtext : Mtext}
  {mtexts : Int → Mtext}
  {trace events : List Event}
  {state later : State}
  {exchanges older : List Exchange}
  {exchange : Exchange}
  {queue after : List Message}
  {process next : Server}
  {outputs : List Output}

section Exchanges

/-- What has been sent, in the order in which it was sent. -/
def sentIn : List Exchange → List Message
  | [] => []
  | exchange :: older => sentIn older ++ exchange.messages

/-- The message that signifies the end, if its type can be sent. -/
def endMessages (behind : Buffer 7) : List Message :=
  if endType behind < 1 then
    []
  else
    [(endType behind, [])]

/-- The length of the request of an exchange. -/
def Exchange.n (exchange : Exchange) : Nat :=
  (decimal exchange.pid ++ space :: exchange.path).length

/-- The messages of the file an exchange names. -/
def Exchange.replies
    (exchange : Exchange)
    (files : List UInt8 → File) : List Message :=
  (replyTexts exchange.path (files exchange.path)).map (exchange.pid, ·)

theorem exchangesIn_append (trace events : List Event) :
    exchangesIn (trace ++ events) = events.foldl note (exchangesIn trace) :=
  List.foldl_append

/-- What is put belongs to the newest exchange. -/
theorem note_puts (mtype : Int) (texts : List (List UInt8)) :
    ((texts.map (.put mtype)).map Event.server).foldl note
        (exchange :: older) =
      { exchange with
        messages := exchange.messages ++ texts.map (mtype, ·) } ::
        older := by
  induction texts generalizing exchange with
  | nil =>
      simp
  | cons text texts inductionHypothesis =>
      rw [List.map_cons, List.map_cons, List.foldl_cons, note, change,
        inductionHypothesis]
      simp

theorem mem_sentIn
    {message : Message}
    (member : exchange ∈ exchanges)
    (isSent : message ∈ exchange.messages) :
    message ∈ sentIn exchanges := by
  induction exchanges with
  | nil =>
      simp at member
  | cons newest older inductionHypothesis =>
      rw [sentIn, List.mem_append]
      rcases List.mem_cons.mp member with rfl | inOlder
      · exact .inr isSent
      · exact .inl (inductionHypothesis inOlder)

/-- The end of an exchange. -/
theorem note_ended (behind : Buffer 7) :
    (((endMessages behind).map (fun message : Message =>
          Output.put message.1 message.2) ++ [Output.ended]).map
        Event.server).foldl note (exchange :: older) =
      { exchange with
        messages := exchange.messages ++ endMessages behind
        ended := true } :: older := by
  unfold endMessages
  split <;> simp [note, change]

/-- The type of the last message is not that of a request. -/
theorem endType_ne_one (behind : Buffer 7) : endType behind ≠ 1 := by
  intro isOne
  have low :
      (LittleEndian.decode (0 :: behind.bytes) : Int) =
        256 * (LittleEndian.decode behind.bytes : Int) := by
    simp [LittleEndian.decode]
  have congruent :
      endType behind % 2 ^ 64 =
        (LittleEndian.decode (0 :: behind.bytes) : Int) % 2 ^ 64 :=
    Int.bmod_emod
  rw [isOne, low] at congruent
  omega

/-- The message that signifies the end is no request, and it is empty. -/
theorem endMessages_cases (behind : Buffer 7) :
    channel 1 (endMessages behind) = [] ∧
      ∀ message ∈ endMessages behind, message.2 = [] := by
  unfold endMessages
  split
  · simp [channel]
  · exact ⟨channel_singleton_ne (endType_ne_one behind), by simp⟩

end Exchanges

section Server

/-- The reply a server is at; before it sends the end it has finished one. -/
def replyPc? : ServerPc → Option ReplyPc
  | .reply pc => some pc
  | .sendEnd => some .finished
  | _ => none

/-- What a server still has to send for the newest exchange. -/
structure Current
    (files : List UInt8 → File)
    (process : Server)
    (pc : ReplyPc)
    (exchange : Exchange)
    (left : List (List UInt8)) : Prop where
  running :
    exchange.ended = false
  mtype :
    process.mtype = exchange.pid
  answering :
    Answering exchange.n exchange.path (files exchange.path)
      { pc := pc, mtext := process.mtext } left
  messages :
    exchange.messages ++ left.map (exchange.pid, ·) =
      exchange.replies files

/-- An exchange in progress has sent the start of its messages. -/
structure Exchange.Sent
    (files : List UInt8 → File)
    (behind : Buffer 7)
    (exchange : Exchange) : Prop where
  start :
    exchange.ended = false → exchange.messages <+: exchange.replies files
  whole :
    exchange.ended = true →
      exchange.messages = exchange.replies files ++ endMessages behind

/-- What a server has sent for its exchanges. -/
structure Sending
    (behind : Buffer 7)
    (files : List UInt8 → File)
    (exchanges : List Exchange)
    (process : Server) : Prop where
  sent :
    ∀ exchange ∈ exchanges, exchange.Sent files behind
  current :
    ∀ pc, replyPc? process.pc = some pc →
      ∃ exchange older left,
        exchanges = exchange :: older ∧
          Current files process pc exchange left
  alive :
    (∀ exchange ∈ exchanges,
      (files exchange.path).Fits exchange.n) →
    process.pc ≠ .faulted
  notExited :
    process.pc ≠ .exited

/-- What the server relies on to reply to a request. -/
def Exchange.Valid (exchange : Exchange) : Prop :=
  1 ≤ exchange.pid ∧ 0 ∉ exchange.path

theorem Sending.initial (behind : Buffer 7) (mtext : Mtext) :
    Sending behind files [] (Server.initial mtext) := by
  constructor <;> simp [Server.initial, replyPc?]

/-- The end of an iteration is neither a fault nor an exit. -/
theorem again_pc (process : Server) (mtext : Mtext) :
    replyPc? (process.again mtext).pc = none ∧
      (process.again mtext).pc ≠ .faulted ∧
      (process.again mtext).pc ≠ .exited := by
  simp only [Server.again]
  split <;> simp [replyPc?]

/-- The request of a client is taken as it was sent. -/
theorem Sending.receive
    {pid : Int}
    (stdin : List UInt8)
    (sending : Sending behind files exchanges process)
    (isId : IsId pid)
    (fits : (request pid stdin).length < textSize)
    (pc : process.pc = .receive)
    (taken :
      server behind process (.received (request pid stdin)) =
        some (next, outputs)) :
    outputs = [.taken pid (pathname stdin)] ∧
      Sending behind files
        ({ pid := pid
           path := pathname stdin
           messages := []
           ended := false } :: exchanges)
        next := by
  obtain ⟨splits, rest, obtained, isBytes⟩ :=
    obtain_request isId process.mtext fits
  simp only [server, pc, obtained, Option.map_some, atol_decimal isId,
    Option.some.injEq, Prod.mk.injEq] at taken
  obtain ⟨rfl, rfl⟩ := taken
  refine ⟨rfl, ?_, ?_, ?_, ?_⟩
  · intro exchange member
    rcases List.mem_cons.mp member with rfl | inOlder
    · exact ⟨fun _ => List.nil_prefix, by simp⟩
    · exact sending.sent exchange inOlder
  · rintro pc isPc
    obtain rfl := Option.some.inj isPc
    exact ⟨_, _, _, rfl, rfl, rfl, answering_request _ isBytes, rfl⟩
  · simp
  · simp

/-- The server is where its reply is. -/
theorem resume_pc (process : Server) (reply : Reply) :
    replyPc? (process.resume reply).pc =
        (if reply.pc = .faulted then none else some reply.pc) ∧
      ((process.resume reply).pc = .faulted ↔ reply.pc = .faulted) ∧
      (process.resume reply).pc ≠ .exited := by
  obtain ⟨pc, mtext⟩ := reply
  cases pc <;> simp [Server.resume, replyPc?]

/-- What one step of a reply adds to the newest exchange. -/
theorem Sending.reply
    {pc : ReplyPc}
    {answer : Answer}
    (sending : Sending behind files exchanges process)
    (valid : ∀ exchange ∈ exchanges, exchange.Valid)
    (isPc : process.pc = .reply pc)
    (called :
      serverCall qbytes behind files queue process = some (answer, after))
    (taken : server behind process answer = some (next, outputs)) :
    ∃ (exchange : Exchange) (older : List Exchange)
        (texts : List (List UInt8)),
      exchanges = exchange :: older ∧
        outputs = texts.map (.put exchange.pid) ∧
        after = queue ++ texts.map (exchange.pid, ·) ∧
        (∀ text ∈ texts, text.length ≤ textSize) ∧
        Sending behind files
          ({ exchange with
            messages :=
              exchange.messages ++ texts.map (exchange.pid, ·) } :: older)
          next := by
  obtain ⟨exchange, older, left, rfl, current⟩ :=
    sending.current pc (by rw [isPc]; rfl)
  obtain ⟨positive, free⟩ := valid exchange List.mem_cons_self
  rw [← current.mtype] at positive
  simp only [serverCall, isPc] at called
  obtain ⟨notRefused, truthful, puts⟩ :=
    current.answering.replyCall positive called
  simp only [server, isPc, notRefused, and_false, if_false] at taken
  obtain ⟨⟨reply, texts⟩, responds, shape⟩ :=
    Option.map_eq_some_iff.mp taken
  obtain ⟨rfl, rfl⟩ := Prod.mk.inj shape
  obtain ⟨sent, later, answering, rfl, outcome⟩ :=
    respond_answers free current.answering truthful responds
  obtain rfl : texts = sent :=
    outcome.resolve_right fun refused => notRefused refused.1
  obtain ⟨isReplyPc, faults, notExited⟩ := resume_pc process reply
  have whole := current.messages
  rw [List.map_append, ← List.append_assoc] at whole
  refine ⟨exchange, older, texts, rfl, by rw [current.mtype],
    by rw [puts reply texts responds, current.mtype], ?_, ?_, ?_, ?_,
    notExited⟩
  · exact fun text => length_le_of_respond current.answering.ready responds
  · intro other member
    rcases List.mem_cons.mp member with rfl | inOlder
    · exact ⟨fun _ => ⟨_, whole⟩, by simp [current.running]⟩
    · exact sending.sent other (List.mem_cons_of_mem _ inOlder)
  · intro other isOther
    rw [isReplyPc] at isOther
    split at isOther
    · simp at isOther
    · obtain rfl := Option.some.inj isOther
      exact ⟨_, _, later, rfl, current.running, current.mtype, answering,
        whole⟩
  · intro fits
    have isNewest := fits _ List.mem_cons_self
    have stays := current.answering.inMtext truthful isNewest
    obtain ⟨bounds, -⟩ := respond_bounds current.answering.ready responds
    rw [Ne, faults, bounds]
    exact not_not.mpr stays

/-- The end of an exchange. -/
theorem Sending.finish
    {answer : Answer}
    (sending : Sending behind files exchanges process)
    (isPc : process.pc = .sendEnd)
    (called :
      serverCall qbytes behind files queue process = some (answer, after))
    (taken : server behind process answer = some (next, outputs)) :
    ∃ (exchange : Exchange) (older : List Exchange),
      exchanges = exchange :: older ∧
        exchange.messages = exchange.replies files ∧
        outputs =
          (endMessages behind).map (fun message => .put message.1 message.2) ++
            [.ended] ∧
        after = queue ++ endMessages behind ∧
        Sending behind files
          ({ exchange with
            messages := exchange.messages ++ endMessages behind
            ended := true } :: older)
          next := by
  obtain ⟨exchange, older, left, rfl, current⟩ :=
    sending.current .finished (by rw [isPc]; rfl)
  obtain ⟨running, -, rfl, messages⟩ := current
  have isWhole : exchange.messages = exchange.replies files := by
    simpa using messages
  obtain ⟨notReplying, notFaulted, notExited⟩ :=
    again_pc process process.mtext
  have moved :
      next = process.again process.mtext ∧
        outputs =
          (endMessages behind).map (fun message => .put message.1 message.2) ++
            [.ended] ∧
        after = queue ++ endMessages behind := by
    simp only [serverCall, isPc, msgsnd] at called
    by_cases refused : endType behind < 1
    · simp only [if_pos refused, Option.some.injEq, Prod.mk.injEq] at called
      obtain ⟨rfl, rfl⟩ := called
      simp only [server, isPc, Option.some.injEq, Prod.mk.injEq] at taken
      simp [endMessages, refused, ← taken.1, ← taken.2]
    · rw [if_neg refused] at called
      split at called
      · simp only [Option.some.injEq, Prod.mk.injEq] at called
        obtain ⟨rfl, rfl⟩ := called
        simp only [server, isPc, Option.some.injEq, Prod.mk.injEq] at taken
        simp [endMessages, refused, ← taken.1, ← taken.2]
      · simp at called
  obtain ⟨rfl, isOutputs, isAfter⟩ := moved
  refine ⟨exchange, older, rfl, isWhole, isOutputs, isAfter, ?_, ?_,
    fun _ => notFaulted, notExited⟩
  · intro other member
    rcases List.mem_cons.mp member with rfl | inOlder
    · refine ⟨by simp, fun _ => ?_⟩
      simp only [isWhole]
      rfl
    · exact sending.sent other (List.mem_cons_of_mem _ inOlder)
  · intro pc isOther
    rw [notReplying] at isOther
    simp at isOther

end Server

section Runs

/-- A client that has sent its request. -/
structure Asked
    (stdin : Int → List UInt8)
    (clients : Int → Client)
    (pid : Int) : Prop where
  isClient :
    IsClient pid
  fits :
    (request pid (stdin pid)).length < textSize
  sent :
    (clients pid).pc = .receive ∨ (clients pid).pc = .returned

/-- A client has received nothing empty but what has ended its loop. -/
def Listening (pc : ClientPc) (obtained : List (List UInt8)) : Prop :=
  match pc with
  | .receive => [] ∉ obtained
  | .returned => ∃ front, obtained = front ++ [[]] ∧ [] ∉ front
  | .send | .exited | .faulted => obtained = []

/-- One client that moves listens as before, and so do the others. -/
theorem Listening.update
    {clients : Int → Client}
    {obtained : Int → List (List UInt8)}
    {pid : Int}
    {next : Client}
    {texts : List (List UInt8)}
    (listening : ∀ other, Listening (clients other).pc (obtained other))
    (moved : Listening next.pc (obtained pid ++ texts))
    (other : Int) :
    Listening (Function.update clients pid next other).pc
      (obtained other ++ if pid = other then texts else []) := by
  by_cases same : other = pid
  · rw [same, Function.update_self, if_pos rfl]
    exact moved
  · rw [Function.update_of_ne same, if_neg (Ne.symm same), List.append_nil]
    exact listening other

/-- The requests on the queue and those that have been taken are different. -/
def Distinct
    (stdin : Int → List UInt8)
    (exchanges : List Exchange)
    (queue : List Message)
    (clients : Int → Client) : Prop :=
  ∃ waiting,
    channel 1 queue = waiting.map (fun pid => request pid (stdin pid)) ∧
      (waiting ++ exchanges.map Exchange.pid).Nodup ∧
      ∀ pid ∈ waiting ++ exchanges.map Exchange.pid,
        Asked stdin clients pid

/-- What holds between any two steps. -/
structure Invariant
    (behind : Buffer 7)
    (files : List UInt8 → File)
    (stdin : Int → List UInt8)
    (exchanges : List Exchange)
    (obtained : Int → List (List UInt8))
    (state : State) : Prop where
  distinct :
    Distinct stdin exchanges state.queue state.clients
  paths :
    ∀ exchange ∈ exchanges, exchange.path = pathname (stdin exchange.pid)
  sending :
    Sending behind files exchanges state.server
  replies :
    ∀ pid, pid ≠ 1 →
      channel pid (sentIn exchanges) =
        obtained pid ++ channel pid state.queue
  bounded :
    ∀ message ∈ sentIn exchanges, message.2.length ≤ textSize
  listening :
    ∀ pid, Listening (state.clients pid).pc (obtained pid)

variable {obtained : Int → List (List UInt8)}

/-- The exchanges are those of clients that have asked. -/
theorem Invariant.asked
    (invariant :
      Invariant behind files stdin exchanges obtained state)
    (member : exchange ∈ exchanges) :
    Asked stdin state.clients exchange.pid := by
  obtain ⟨waiting, -, -, asked⟩ := invariant.distinct
  apply asked
  exact List.mem_append_right waiting (List.mem_map_of_mem member)

theorem Invariant.valid
    (invariant :
      Invariant behind files stdin exchanges obtained state) :
    ∀ exchange ∈ exchanges, exchange.Valid := by
  intro exchange member
  have positive := (invariant.asked member).isClient.1
  refine ⟨positive, ?_⟩
  rw [invariant.paths exchange member]
  exact (not_mem_pathname _).1

/-- What waits for a client comes from the buffer of the server. -/
theorem Invariant.short
    {pid : Int}
    (invariant :
      Invariant behind files stdin exchanges obtained state)
    (notServer : pid ≠ 1) :
    ∀ text ∈ channel pid state.queue, text.length ≤ textSize := by
  intro text member
  refine invariant.bounded (pid, text) (mem_channel.mp ?_)
  rw [invariant.replies pid notServer]
  exact List.mem_append_right _ member

/-- A client that moves leaves the others where they are. -/
theorem Asked.update
    {clients : Int → Client}
    {pid other : Int}
    {next : Client}
    (asked : Asked stdin clients other)
    (stays :
      other = pid → next.pc = .receive ∨ next.pc = .returned) :
    Asked stdin (Function.update clients pid next) other := by
  refine ⟨asked.isClient, asked.fits, ?_⟩
  by_cases same : other = pid
  · rw [same, Function.update_self]
    exact stays same
  · rw [Function.update_of_ne same]
    exact asked.sent

/-- A client that has not sent its request has no exchange. -/
theorem Distinct.update
    {clients : Int → Client}
    {pid : Int}
    {next : Client}
    (distinct : Distinct stdin exchanges queue clients)
    (same : channel 1 after = channel 1 queue)
    (stays :
      (clients pid).pc = .send ∨ next.pc = .receive ∨
        next.pc = .returned) :
    Distinct stdin exchanges after (Function.update clients pid next) := by
  obtain ⟨waiting, isQueue, nodup, asked⟩ := distinct
  refine ⟨waiting, same.trans isQueue, nodup, ?_⟩
  intro other member
  refine (asked other member).update fun isPid => ?_
  rcases stays with unsent | sent
  · have sent := (asked other member).sent
    rw [isPid, unsent] at sent
    simp at sent
  · exact sent

/-- A client sends its request once. -/
theorem Distinct.send
    {clients : Int → Client}
    {pid : Int}
    {next : Client}
    (distinct : Distinct stdin exchanges queue clients)
    (isClient : IsClient pid)
    (unsent : (clients pid).pc = .send)
    (sent : next.pc = .receive)
    (fits : (request pid (stdin pid)).length < textSize) :
    Distinct stdin exchanges (queue ++ [(1, request pid (stdin pid))])
      (Function.update clients pid next) := by
  obtain ⟨waiting, isQueue, nodup, asked⟩ := distinct
  have isNew : pid ∉ waiting ++ exchanges.map Exchange.pid := by
    intro member
    have sent := (asked pid member).sent
    rw [unsent] at sent
    simp at sent
  have moved :
      (waiting ++ [pid] ++ exchanges.map Exchange.pid).Perm
        (pid :: (waiting ++ exchanges.map Exchange.pid)) := by
    rw [List.append_assoc]
    exact List.perm_middle
  refine ⟨waiting ++ [pid], ?_, ?_, ?_⟩
  · rw [channel_append, channel_singleton, isQueue, List.map_append]
    rfl
  · exact moved.nodup_iff.mpr (List.nodup_cons.mpr ⟨isNew, nodup⟩)
  · intro other member
    rcases List.mem_cons.mp (moved.mem_iff.mp member) with rfl | inOld
    · refine ⟨isClient, fits, ?_⟩
      rw [Function.update_self]
      exact .inl sent
    · exact (asked other inOld).update fun _ => .inl sent

/-- The server takes the request of a client that has no exchange yet. -/
theorem Distinct.take
    {clients : Int → Client}
    {text : List UInt8}
    (distinct : Distinct stdin exchanges queue clients)
    (received : Received 1 queue text after) :
    ∃ pid,
      text = request pid (stdin pid) ∧ Asked stdin clients pid ∧
        ∀ newest : Exchange, newest.pid = pid →
          Distinct stdin (newest :: exchanges) after clients := by
  obtain ⟨waiting, isQueue, nodup, asked⟩ := distinct
  rw [received.own] at isQueue
  cases waiting with
  | nil =>
      simp at isQueue
  | cons pid waiting =>
      obtain ⟨rfl, isAfter⟩ := List.cons.inj isQueue
      refine ⟨pid, rfl, asked pid List.mem_cons_self, ?_⟩
      rintro newest rfl
      have moved :
          (waiting ++ (newest :: exchanges).map Exchange.pid).Perm
            (newest.pid :: waiting ++ exchanges.map Exchange.pid) :=
        List.perm_middle
      refine ⟨waiting, isAfter, moved.nodup_iff.mpr nodup, ?_⟩
      intro other member
      exact asked other (moved.mem_iff.mp member)

theorem Invariant.initial
    (behind : Buffer 7)
    (files : List UInt8 → File)
    (stdin : Int → List UInt8)
    (mtext : Mtext)
    (mtexts : Int → Mtext) :
    Invariant behind files stdin [] (fun _ => [])
      (system qbytes behind files stdin mtext mtexts).initial where
  distinct :=
    ⟨[], rfl, List.nodup_nil, by simp⟩
  paths :=
    by simp
  sending :=
    Sending.initial behind mtext
  replies :=
    fun _ _ => rfl
  bounded :=
    by simp [sentIn]
  listening :=
    fun _ => rfl

/-- A step of a client takes from its own channel only. -/
theorem Invariant.client
    {pid : Int}
    {next : Client}
    {texts : List (List UInt8)}
    (invariant :
      Invariant behind files stdin exchanges obtained state)
    (isClient : IsClient pid)
    (taken :
      clientStep qbytes pid (stdin pid) state.queue (state.clients pid) =
        some (after, next, texts)) :
    Invariant behind files stdin exchanges
      (fun other => obtained other ++ if pid = other then texts else [])
      { state with
        queue := after
        clients := Function.update state.clients pid next } := by
  obtain ⟨positive, small, notServer⟩ := isClient
  have listens := invariant.listening pid
  unfold clientStep at taken
  split at taken
  case h_1 unsent =>
    obtain ⟨⟨queue, client⟩, sends, shape⟩ :=
      Option.map_eq_some_iff.mp taken
    simp only [Prod.mk.injEq] at shape
    obtain ⟨rfl, rfl, rfl⟩ := shape
    rw [unsent] at listens
    have nothing : obtained pid = [] := listens
    rcases clientSend_cases ⟨Int.le_of_lt positive, small⟩ sends with
      ⟨isFault, rfl⟩ | ⟨isSent, rfl, fits⟩
    · refine ⟨invariant.distinct.update rfl (.inl unsent), invariant.paths,
        invariant.sending, ?_, invariant.bounded,
        Listening.update invariant.listening ?_⟩
      · simpa using invariant.replies
      · rw [isFault, nothing]
        rfl
    · refine ⟨invariant.distinct.send ⟨positive, small, notServer⟩ unsent
          isSent fits, invariant.paths, invariant.sending, ?_,
        invariant.bounded, Listening.update invariant.listening ?_⟩
      · intro other notOne
        rw [channel_append, channel_singleton_ne (Ne.symm notOne)]
        simpa using invariant.replies other notOne
      · rw [isSent, nothing]
        exact List.not_mem_nil
  case h_2 waits =>
    rw [waits] at listens
    obtain ⟨text, rfl, received, isNext⟩ :=
      clientReceive_cases (invariant.short notServer) taken
    have stays : next.pc = .receive ∨ next.pc = .returned := by
      rw [isNext]
      split <;> simp
    refine ⟨invariant.distinct.update
        (received.others 1 (Ne.symm notServer)) (.inr stays),
      invariant.paths, invariant.sending, ?_, invariant.bounded,
      Listening.update invariant.listening ?_⟩
    · intro other notOne
      rw [invariant.replies other notOne]
      by_cases same : other = pid
      · subst same
        rw [received.own, if_pos rfl, List.append_assoc,
          List.singleton_append]
      · rw [received.others other same, if_neg (Ne.symm same),
          List.append_nil]
    · rw [isNext]
      split
      case isTrue isEmpty =>
        exact ⟨obtained pid, by rw [isEmpty], listens⟩
      case isFalse notEmpty =>
        simpa [Listening, Ne.symm notEmpty] using listens
  case h_3 | h_4 | h_5 =>
    simp at taken

/-- What the server sends goes to the newest exchange and the queue. -/
theorem Invariant.put
    {messages : List Message}
    (invariant :
      Invariant behind files stdin (exchange :: older) obtained state)
    (newest : Exchange)
    (isPid : newest.pid = exchange.pid)
    (isPath : newest.path = exchange.path)
    (isSent : newest.messages = exchange.messages ++ messages)
    (noRequest : channel 1 messages = [])
    (short : ∀ message ∈ messages, message.2.length ≤ textSize)
    (sending : Sending behind files (newest :: older) next) :
    Invariant behind files stdin (newest :: older) obtained
      { state with
        queue := state.queue ++ messages
        server := next } := by
  obtain ⟨⟨waiting, isQueue, nodup, asked⟩, paths, -, replies, bounded,
    listening⟩ := invariant
  have sent :
      sentIn (newest :: older) =
        sentIn (exchange :: older) ++ messages := by
    rw [sentIn, sentIn, isSent, List.append_assoc]
  refine ⟨⟨waiting, ?_, ?_, ?_⟩, ?_, sending, ?_, ?_, listening⟩
  · rw [channel_append, noRequest, List.append_nil, isQueue]
  · rwa [List.map_cons, isPid]
  · rwa [List.map_cons, isPid]
  · intro other member
    rcases List.mem_cons.mp member with rfl | inOlder
    · rw [isPid, isPath]
      exact paths exchange List.mem_cons_self
    · exact paths other (List.mem_cons_of_mem exchange inOlder)
  · intro pid notServer
    rw [sent, channel_append, channel_append, replies pid notServer,
      List.append_assoc]
  · intro message member
    rw [sent] at member
    rcases List.mem_append.mp member with inOld | inNew
    · exact bounded message inOld
    · exact short message inNew

/-- A step of the server takes a request, or sends for the newest one. -/
theorem Invariant.server
    {answer : Answer}
    (invariant :
      Invariant behind files stdin exchanges obtained state)
    (called :
      serverCall qbytes behind files state.queue state.server =
        some (answer, after))
    (taken :
      server behind state.server answer = some (next, outputs)) :
    Invariant behind files stdin
      ((outputs.map Event.server).foldl note exchanges) obtained
      { state with queue := after, server := next } := by
  cases isPc : state.server.pc with
  | receive =>
      simp only [serverCall, isPc] at called
      have short : ∀ text ∈ channel 1 state.queue,
          text.length ≤ textSize := by
        obtain ⟨waiting, isQueue, -, asked⟩ := invariant.distinct
        intro text member
        rw [isQueue] at member
        obtain ⟨pid, inWaiting, rfl⟩ := List.mem_map.mp member
        exact Nat.le_of_lt
          (asked pid (List.mem_append_left _ inWaiting)).fits
      obtain ⟨text, rfl, received⟩ := msgrcv_received short called
      obtain ⟨pid, rfl, asked, distinct⟩ :=
        invariant.distinct.take received
      obtain ⟨⟨positive, small, -⟩, fits, -⟩ := asked
      obtain ⟨rfl, sending⟩ :=
        invariant.sending.receive (stdin pid)
          ⟨Int.le_of_lt positive, small⟩ fits isPc taken
      refine ⟨distinct _ rfl, ?_, sending, ?_, ?_, invariant.listening⟩
      · intro exchange member
        rcases List.mem_cons.mp member with rfl | inOlder
        · rfl
        · exact invariant.paths exchange inOlder
      · intro other notServer
        rw [received.others other notServer,
          ← invariant.replies other notServer]
        simp [note, sentIn]
      · simpa [note, sentIn] using invariant.bounded
  | reply pc =>
      obtain ⟨exchange, older, texts, rfl, rfl, rfl, short, sending⟩ :=
        invariant.sending.reply invariant.valid isPc called taken
      have notServer :=
        (invariant.asked List.mem_cons_self).isClient.2.2
      rw [note_puts]
      refine Invariant.put invariant _ rfl rfl rfl ?_ ?_ sending
      · exact channel_map_ne notServer texts
      · intro message member
        obtain ⟨text, isText, rfl⟩ := List.mem_map.mp member
        exact short text isText
  | sendEnd =>
      obtain ⟨exchange, older, rfl, -, isOutputs, isAfter, sending⟩ :=
        invariant.sending.finish isPc called taken
      obtain ⟨noRequest, isEmpty⟩ := endMessages_cases behind
      rw [isOutputs, isAfter, note_ended]
      refine Invariant.put invariant _ rfl rfl rfl noRequest ?_ sending
      intro message member
      rw [isEmpty message member, List.length_nil]
      exact Nat.zero_le _
  | returned | exited | faulted =>
      simp [serverCall, isPc] at called

/-- What clients receive starts no exchange. -/
theorem note_obtained
    (pid : Int)
    (texts : List (List UInt8))
    (exchanges : List Exchange) :
    (texts.map (Event.obtained pid)).foldl note exchanges = exchanges := by
  induction texts with
  | nil =>
      rfl
  | cons text texts inductionHypothesis =>
      exact inductionHypothesis

theorem Invariant.of_reaches
    (reaches :
      (system qbytes behind files stdin mtext mtexts).Reaches trace state) :
    Invariant behind files stdin (exchangesIn trace)
      (fun pid => obtainedIn pid trace) state := by
  induction reaches with
  | initial =>
      exact Invariant.initial behind files stdin mtext mtexts
  | @step trace events state later action earlier taken
      inductionHypothesis =>
      rw [exchangesIn_append]
      simp only [obtainedIn_append]
      cases action with
      | client pid =>
          simp only [system] at taken
          split at taken
          case isTrue isClient =>
            obtain ⟨⟨queue, next, texts⟩, moved, shape⟩ :=
              Option.map_eq_some_iff.mp taken
            obtain ⟨rfl, rfl⟩ := Prod.mk.inj shape
            rw [note_obtained]
            simp only [obtainedIn_obtained]
            exact inductionHypothesis.client isClient moved
          case isFalse =>
            simp at taken
      | server =>
          simp only [system] at taken
          split at taken
          · simp at taken
          case h_2 answer queue called =>
            obtain ⟨⟨next, outputs⟩, moved, shape⟩ :=
              Option.map_eq_some_iff.mp taken
            obtain ⟨rfl, rfl⟩ := Prod.mk.inj shape
            simp only [obtainedIn_server, List.append_nil]
            exact inductionHypothesis.server called moved

end Runs

section Replies

/-- What the reply to a request needs to be complete. -/
structure Deliverable
    (behind : Buffer 7)
    (files : List UInt8 → File)
    (exchange : Exchange) : Prop where
  isEnd :
    endType behind = exchange.pid
  strings :
    (files exchange.path).Strings
  fits :
    (files exchange.path).Fits exchange.n

/-- A client has received nothing but the start of its own reply. -/
structure Delivered
    (obtained : List (List UInt8))
    (pc : ClientPc)
    (canReceive : Prop)
    (exchange : Exchange) : Prop where
  start :
    obtained <+: exchange.messages.map Prod.snd
  whole :
    pc = .returned →
      exchange.ended = true ∧ obtained = exchange.messages.map Prod.snd
  goesOn :
    exchange.ended = true → pc ≠ .returned → canReceive

/-- An exchange that has ended is a reply exactly if its end is one. -/
theorem Exchange.Sent.isReply_iff
    (isSent : exchange.Sent files behind)
    (isEnded : exchange.ended = true)
    (valid : exchange.Valid)
    (short : ∀ message ∈ exchange.messages, message.2.length ≤ textSize) :
    IsReply exchange.pid
        (replyText exchange.path (files exchange.path))
        exchange.messages ↔
      endType behind = exchange.pid ∧
        (files exchange.path).Strings := by
  have messages := isSent.whole isEnded
  have isEmpty := (endMessages_cases behind).2
  constructor
  · intro isReply
    have strings : (files exchange.path).Strings := by
      by_contra notStrings
      refine not_isReply notStrings (fun message member => ?_) isReply
      rw [messages] at member
      rcases List.mem_append.mp member with inReplies | inEnd
      · obtain ⟨text, isText, rfl⟩ := List.mem_map.mp inReplies
        exact not_mem_of_mem_replyTexts valid.2 isText
      · rw [isEmpty message inEnd]
        exact List.not_mem_nil
    refine ⟨?_, strings⟩
    obtain ⟨pieces, -, isPieces⟩ := isReply
    rw [messages, List.map_append, List.map_singleton] at isPieces
    by_cases refused : endType behind < 1
    · rw [endMessages, if_pos refused, List.append_nil] at isPieces
      have inReplies : (exchange.pid, []) ∈ exchange.replies files := by
        rw [isPieces]
        exact List.mem_append_right _ List.mem_cons_self
      obtain ⟨text, isText, same⟩ := List.mem_map.mp inReplies
      obtain rfl : text = [] := (Prod.mk.inj same).2
      exact absurd strings (not_strings_of_nil_mem isText)
    · rw [endMessages, if_neg refused] at isPieces
      obtain ⟨-, same⟩ := List.append_inj' isPieces (by simp)
      exact (Prod.mk.inj (List.cons.inj same).1).1
  · rintro ⟨isEnd, strings⟩
    have notRefused : ¬ endType behind < 1 :=
      isEnd ▸ Int.not_lt.mpr valid.1
    refine ⟨replyTexts exchange.path (files exchange.path),
      ⟨flatten_replyTexts strings, ?_⟩, ?_⟩
    · intro text isText
      refine ⟨?_, short (exchange.pid, text) ?_⟩
      · rintro rfl
        exact not_strings_of_nil_mem isText strings
      · rw [messages]
        exact List.mem_append_left _ (List.mem_map_of_mem isText)
    · rw [messages, endMessages, if_neg notRefused, isEnd, List.map_append]
      rfl

/-- What is sent for a deliverable request, up to and with its end. -/
theorem Exchange.Sent.texts
    (isSent : exchange.Sent files behind)
    (valid : exchange.Valid)
    (deliverable : Deliverable behind files exchange) :
    ∃ texts,
      exchange.messages = texts.map (exchange.pid, ·) ∧
        (exchange.ended = false →
          texts <+: replyTexts exchange.path (files exchange.path)) ∧
        (exchange.ended = true →
          texts =
            replyTexts exchange.path (files exchange.path) ++ [[]]) := by
  cases isEnded : exchange.ended with
  | false =>
      obtain ⟨texts, isPrefix, isMessages⟩ :=
        List.prefix_map_iff.mp (isSent.start isEnded)
      exact ⟨texts, isMessages, fun _ => isPrefix, by simp⟩
  | true =>
      have notRefused : ¬ endType behind < 1 :=
        deliverable.isEnd ▸ Int.not_lt.mpr valid.1
      refine ⟨_, ?_, by simp, fun _ => rfl⟩
      rw [isSent.whole isEnded, endMessages, if_neg notRefused,
        deliverable.isEnd, List.map_append]
      rfl

/-- A run that takes deliverable requests only takes one at most. -/
theorem Invariant.single
    {obtained : Int → List (List UInt8)}
    (invariant :
      Invariant behind files stdin exchanges obtained state)
    (deliverable :
      ∀ exchange ∈ exchanges, Deliverable behind files exchange)
    (member : exchange ∈ exchanges) :
    exchanges = [exchange] := by
  obtain ⟨waiting, -, nodup, -⟩ := invariant.distinct
  have distinct := (List.nodup_append.mp nodup).2.1
  have same : ∀ other ∈ exchanges, other.pid = endType behind :=
    fun other inExchanges => (deliverable other inExchanges).isEnd.symm
  cases exchanges with
  | nil =>
      simp at member
  | cons newest older =>
      have noOlder : older = [] := by
        apply List.eq_nil_iff_forall_not_mem.mpr
        intro other inOlder
        apply (List.nodup_cons.mp distinct).1
        rw [same newest List.mem_cons_self,
          ← same other (List.mem_cons_of_mem _ inOlder)]
        exact List.mem_map_of_mem inOlder
      subst noOlder
      rw [List.mem_singleton.mp member]

/-- The client of a deliverable request receives its reply. -/
theorem Invariant.delivered
    {obtained : Int → List (List UInt8)}
    (invariant :
      Invariant behind files stdin exchanges obtained state)
    (deliverable :
      ∀ exchange ∈ exchanges, Deliverable behind files exchange)
    (member : exchange ∈ exchanges) :
    Delivered (obtained exchange.pid) (state.clients exchange.pid).pc
      ((clientStep qbytes exchange.pid (stdin exchange.pid) state.queue
        (state.clients exchange.pid)).isSome)
      exchange := by
  have asked := invariant.asked member
  have notServer := asked.isClient.2.2
  have listens := invariant.listening exchange.pid
  have replies := invariant.replies exchange.pid notServer
  have isSingle := invariant.single deliverable member
  obtain ⟨texts, isMessages, inProgress, whole⟩ :=
    (invariant.sending.sent exchange member).texts
      (invariant.valid exchange member) (deliverable exchange member)
  have noEmpty :
      [] ∉ replyTexts exchange.path (files exchange.path) :=
    fun isEmpty =>
      not_strings_of_nil_mem isEmpty (deliverable exchange member).strings
  have isTexts : exchange.messages.map Prod.snd = texts := by
    rw [isMessages, List.map_map]
    exact List.map_id texts
  have sent :
      texts =
        obtained exchange.pid ++ channel exchange.pid state.queue := by
    rw [← replies, isSingle, sentIn, sentIn, List.nil_append, isMessages,
      channel_map]
  rw [← isTexts] at sent
  constructor
  · exact ⟨_, sent.symm⟩
  · intro hasReturned
    rw [hasReturned] at listens
    obtain ⟨front, isObtained, -⟩ := listens
    rw [isObtained, isTexts] at sent
    have isEnded : exchange.ended = true := by
      by_contra running
      apply noEmpty
      apply (inProgress (Bool.eq_false_of_not_eq_true running)).subset
      simp [sent]
    refine ⟨isEnded, ?_⟩
    rw [isTexts, isObtained, sent]
    rcases List.eq_nil_or_concat' (channel exchange.pid state.queue) with
      isEmpty | ⟨others, last, isChannel⟩
    · rw [isEmpty, List.append_nil]
    · rw [whole isEnded, isChannel, ← List.append_assoc] at sent
      obtain ⟨isReplies, -⟩ := List.append_inj' sent (by simp)
      refine absurd ?_ noEmpty
      simp [isReplies]
  · intro isEnded notReturned
    have waits :=
      asked.sent.resolve_right notReturned
    rw [waits] at listens
    have noneEmpty : [] ∉ obtained exchange.pid := listens
    have waiting : channel exchange.pid state.queue ≠ [] := by
      intro isEmpty
      rw [isEmpty, List.append_nil, isTexts, whole isEnded] at sent
      apply noneEmpty
      rw [← sent]
      exact List.mem_append_right _ List.mem_cons_self
    simp only [clientStep, waits]
    exact clientReceive_isSome waiting

/-- A client whose request has not been taken has received nothing. -/
theorem Invariant.not_served
    {pid : Int}
    {obtained : Int → List (List UInt8)}
    (invariant :
      Invariant behind files stdin exchanges obtained state)
    (deliverable :
      ∀ exchange ∈ exchanges, Deliverable behind files exchange)
    (isClient : IsClient pid)
    (notServed : ∀ exchange ∈ exchanges, exchange.pid ≠ pid) :
    obtained pid = [] ∧ (state.clients pid).pc ≠ .returned := by
  have replies := invariant.replies pid isClient.2.2
  have nothing : channel pid (sentIn exchanges) = [] := by
    cases exchanges with
    | nil =>
        rfl
    | cons exchange older =>
        have isSingle :=
          invariant.single deliverable List.mem_cons_self
        obtain ⟨texts, isMessages, -⟩ :=
          (invariant.sending.sent exchange List.mem_cons_self).texts
            (invariant.valid exchange List.mem_cons_self)
            (deliverable exchange List.mem_cons_self)
        rw [isSingle, sentIn, sentIn, List.nil_append, isMessages]
        exact channel_map_ne (notServed exchange List.mem_cons_self) texts
  rw [nothing] at replies
  obtain ⟨isNothing, -⟩ := List.append_eq_nil_iff.mp replies.symm
  refine ⟨isNothing, fun hasReturned => ?_⟩
  have listens := invariant.listening pid
  rw [hasReturned, isNothing] at listens
  obtain ⟨front, isEmpty, -⟩ := listens
  simp at isEmpty

/--
`msgserver1q` and its clients, for all files and in every interleaving: a
request is answered by a reply of its client's type exactly if the `long` at
the literal `""` is that type and the file contains no NUL.  As long as only
such requests are taken, and what is stored for them fits in `mtext`, every
client receives its own reply and nothing else, and it can receive the end.
-/
theorem msgserver1q_replies
    (reaches :
      (system qbytes behind files stdin mtext mtexts).Reaches trace state) :
    (∀ exchange ∈ exchangesIn trace,
      IsClient exchange.pid ∧
        exchange.path = pathname (stdin exchange.pid) ∧
        (exchange.ended = true →
          (IsReply exchange.pid
              (replyText exchange.path (files exchange.path))
              exchange.messages ↔
            endType behind = exchange.pid ∧
              (files exchange.path).Strings))) ∧
      ((∀ exchange ∈ exchangesIn trace,
          Deliverable behind files exchange) →
        state.server.pc ≠ .faulted ∧ state.server.pc ≠ .exited ∧
          (∀ exchange ∈ exchangesIn trace,
            Delivered (obtainedIn exchange.pid trace)
              (state.clients exchange.pid).pc
              ((system qbytes behind files stdin mtext mtexts).Enabled state
                (.client exchange.pid))
              exchange) ∧
          ∀ pid, IsClient pid →
            (∀ exchange ∈ exchangesIn trace, exchange.pid ≠ pid) →
            obtainedIn pid trace = [] ∧
              (state.clients pid).pc ≠ .returned) := by
  have invariant := Invariant.of_reaches reaches
  constructor
  · intro exchange member
    refine ⟨(invariant.asked member).isClient,
      invariant.paths exchange member, fun isEnded => ?_⟩
    apply (invariant.sending.sent exchange member).isReply_iff isEnded
      (invariant.valid exchange member)
    intro message isSent
    exact invariant.bounded message (mem_sentIn member isSent)
  · intro deliverable
    refine ⟨invariant.sending.alive fun exchange member =>
        (deliverable exchange member).fits,
      invariant.sending.notExited, ?_, ?_⟩
    · intro exchange member
      obtain ⟨start, whole, goesOn⟩ :=
        invariant.delivered deliverable member
      refine ⟨start, whole, fun isEnded notReturned => ?_⟩
      have canReceive := goesOn isEnded notReturned
      simp only [System.Enabled, system,
        if_pos (invariant.asked member).isClient]
      rw [Option.isSome_map]
      exact canReceive
    · intro pid isClient notServed
      exact invariant.not_served deliverable isClient notServed

/-- One client asks for the file, and the server answers. -/
def oneClient (pid : Int) : List Action :=
  .client pid :: List.replicate 6 .server

/-- The pid is the `long` at the literal: its client receives the file. -/
theorem msgserver1q_replies_oneClient :
    ∃ trace state,
      (system 16384 ⟨[1, 0, 0, 0, 0, 0, 0], rfl⟩ oneFile
        (fun _ => ascii "f\n") (.filled textSize 1)
        (fun _ => .filled textSize 1)).Reaches trace state ∧
      (exchangesIn trace).map Exchange.messages =
        [[(256, ascii "x\n"), (256, [])]] ∧
      obtainedIn 256 trace = [ascii "x\n", []] := by
  obtain ⟨trace, state, reaches, observed⟩ :=
    System.Reaches.exists_of_run?
      (by decide +kernel :
        ((system 16384 ⟨[1, 0, 0, 0, 0, 0, 0], rfl⟩ oneFile
          (fun _ => ascii "f\n") (.filled textSize 1)
          (fun _ => .filled textSize 1)).run?
          (system 16384 ⟨[1, 0, 0, 0, 0, 0, 0], rfl⟩ oneFile
            (fun _ => ascii "f\n") (.filled textSize 1)
            (fun _ => .filled textSize 1)).initial
          (oneClient 256 ++ [.client 256, .client 256])).any
          (fun outcome => decide (
            exchangesIn outcome.2 =
                [{ pid := 256
                   path := ascii "f"
                   messages := [(256, ascii "x\n"), (256, [])]
                   ended := true }] ∧
              (outcome.1.clients 256).pc = .returned)) = true)
  obtain ⟨isExchanges, hasReturned⟩ := of_decide_eq_true observed
  have deliverable :
      ∀ exchange ∈ exchangesIn trace,
        Deliverable ⟨[1, 0, 0, 0, 0, 0, 0], rfl⟩ oneFile exchange := by
    rw [isExchanges]
    intro exchange member
    obtain rfl := List.mem_singleton.mp member
    exact ⟨by decide +kernel, by decide +kernel, by decide +kernel⟩
  have delivered :=
    ((msgserver1q_replies reaches).2 deliverable).2.2.1 _
      (isExchanges ▸ List.mem_cons_self)
  refine ⟨trace, state, reaches, by rw [isExchanges]; rfl, ?_⟩
  exact (delivered.whole hasReturned).2

/--
The `long` at the literal is 0, which is no type: the client of a file that
has been sent waits for the end.
-/
theorem msgserver1q_not_replies :
    ¬ ∀ (behind : Buffer 7) (files : List UInt8 → File)
        (stdin : Int → List UInt8) (mtext : Mtext) (mtexts : Int → Mtext)
        (trace : List Event) (state : State),
      (system 16384 behind files stdin mtext mtexts).Reaches trace state →
      ∀ exchange ∈ exchangesIn trace, exchange.ended = true →
        IsReply exchange.pid
          (replyText exchange.path (files exchange.path))
          exchange.messages := by
  intro always
  obtain ⟨trace, state, reaches, observed⟩ :=
    System.Reaches.exists_of_run?
      (by decide +kernel :
        ((system 16384 (.filled 7 0) oneFile
          (fun _ => ascii "f\n") (.filled textSize 1)
          (fun _ => .filled textSize 1)).run?
          (system 16384 (.filled 7 0) oneFile
            (fun _ => ascii "f\n") (.filled textSize 1)
            (fun _ => .filled textSize 1)).initial (oneClient 7)).any
          (fun outcome => decide (
            exchangesIn outcome.2 =
              [{ pid := 7
                 path := ascii "f"
                 messages := [(7, ascii "x\n")]
                 ended := true }])) = true)
  have isReply :=
    always _ _ _ _ _ trace state reaches _
      (of_decide_eq_true observed ▸ List.mem_cons_self) rfl
  exact absurd isReply.getLast? (by decide)

end Replies

end SingleQueue

end CsPrimer.SvMsg
