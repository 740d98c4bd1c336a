import Mathlib.Data.List.TakeWhile
import CsPrimer.EchoClient.Client

namespace CsPrimer.EchoClient

open Library

/-!
# When the client quits by lines

A piece is compared with the quit lines as if it were a line.  As long as each
piece says what its whole line says, the client stops with the first quit line,
and everything else is sent and comes back.  The first piece that does not makes
it stop in the middle of a line, or go on behind a quit line, or stop while the
echo of a full piece is on its way.
-/

/-- What has been delivered of a line behind a piece. -/
def lineAfter (line piece : List UInt8) : List UInt8 :=
  if piece.getLast? = some newline then [] else line ++ piece

section Pieces

variable
  {piece line text : List UInt8}
  {state : State}

theorem quit_shape (isQuit : IsQuit text) :
    text.length = 2 ∧ 0 ∉ text ∧ text.getLast? = some newline := by
  rcases isQuit with rfl | rfl <;> decide

/-- The NUL behind a piece does not hide a quit line, and makes none. -/
theorem isQuit_takeWhile
    (free : newline ∉ piece.dropLast) :
    IsQuit (piece.takeWhile (· ≠ 0)) ↔ IsQuit piece := by
  constructor
  · intro isQuit
    obtain ⟨-, -, isLast⟩ := quit_shape isQuit
    have whole := List.takeWhile_append_dropWhile (p := (· ≠ 0)) (l := piece)
    cases isRest : piece.dropWhile (· ≠ 0) with
    | nil =>
        rw [isRest, List.append_nil] at whole
        rwa [whole] at isQuit
    | cons char rest =>
        refine absurd ?_ free
        rw [← whole, isRest,
          List.dropLast_append_of_ne_nil (List.cons_ne_nil char rest)]
        exact List.mem_append_left _ (List.mem_of_getLast? isLast)
  · rintro (rfl | rfl) <;> decide

end Pieces

section Inputs

variable
  {piece : List UInt8}
  {state : State}

/-- A piece that does not fill `msg` is compared, and sent otherwise. -/
theorem input_eq_of_short
    (isSending : state.pc = .sending)
    (deliverable : Deliverable piece)
    (short : piece.length ≠ bufSize) :
    ∃ msg : Buffer bufSize,
      input piece state =
        if IsQuit piece then
          some ({ state with
              pc := .stopped
              msg := msg
              line := lineAfter state.line piece },
            [.typed piece, .closed])
        else if state.msgLen + piece.length ≤ intMax then
          some ({ state with
              pc := .receiving
              msg := msg
              msgLen := state.msgLen + piece.length
              recvLen := 0
              echo := state.echo ++ piece
              line := lineAfter state.line piece },
            [.typed piece, .sent piece, .answering])
        else
          none := by
  have fits : piece.length < bufSize :=
    Nat.lt_of_le_of_ne deliverable.1 short
  obtain ⟨first, next, stored, terminated, rest, isBytes⟩ :=
    state.msg.exists_terminated piece fits
  rw [List.append_assoc] at isBytes
  have isText : string? next.bytes = some (piece.takeWhile (· ≠ 0)) := by
    rw [← isBytes]
    exact string?_terminated piece rest
  have loaded : next.load? 0 piece.length = some piece := by
    rw [Buffer.load?_front deliverable.1, ← isBytes, List.take_left]
  refine ⟨next, ?_⟩
  have enabled : state.pc = .sending ∧ Deliverable piece :=
    ⟨isSending, deliverable⟩
  simp only [input, if_pos enabled, stored, if_pos short, terminated, isText,
    Option.bind_eq_bind, Option.bind_some, isQuit_takeWhile deliverable.2,
    send, loaded]
  split
  case isTrue =>
    rfl
  case isFalse =>
    split
    case isTrue =>
      rfl
    case isFalse =>
      rfl

/-- A piece that fills `msg` is sent, whatever it is. -/
theorem input_eq_of_full
    (isSending : state.pc = .sending)
    (deliverable : Deliverable piece)
    (full : piece.length = bufSize) :
    ∃ msg : Buffer bufSize,
      input piece state =
        if state.msgLen + piece.length ≤ intMax then
          some ({ state with
              msg := msg
              msgLen := state.msgLen + piece.length
              echo := state.echo ++ piece
              line := lineAfter state.line piece },
            [.typed piece, .sent piece])
        else
          none := by
  obtain ⟨next, stored, holds⟩ :=
    state.msg.store?_front piece deliverable.1
  have loaded : next.load? 0 piece.length = some piece := by
    rw [Buffer.load?_front deliverable.1, holds]
  refine ⟨next, ?_⟩
  have enabled : state.pc = .sending ∧ Deliverable piece :=
    ⟨isSending, deliverable⟩
  simp only [input, if_pos enabled, stored, if_neg (not_not_intro full),
    Option.bind_eq_bind, Option.bind_some, send, loaded]
  split
  case isTrue =>
    rfl
  case isFalse =>
    rfl

end Inputs

/-- What a step can be. -/
inductive Taken (state : State) : Action → State → List Event → Prop where
  | prompts
      (isPrompting : state.pc = .prompting) :
      Taken state .prompt { state with pc := .sending, msgLen := 0 }
        [.prompted]
  | quits
      {piece : List UInt8}
      {msg : Buffer bufSize}
      (isSending : state.pc = .sending)
      (deliverable : Deliverable piece)
      (isQuit : IsQuit piece) :
      Taken state (.input piece)
        { state with
          pc := .stopped
          msg := msg
          line := lineAfter state.line piece }
        [.typed piece, .closed]
  | sends
      {piece : List UInt8}
      {msg : Buffer bufSize}
      (isSending : state.pc = .sending)
      (deliverable : Deliverable piece)
      (notQuit : ¬ IsQuit piece)
      (fits : state.msgLen + piece.length ≤ intMax) :
      Taken state (.input piece)
        { state with
          pc := .receiving
          msg := msg
          msgLen := state.msgLen + piece.length
          recvLen := 0
          echo := state.echo ++ piece
          line := lineAfter state.line piece }
        [.typed piece, .sent piece, .answering]
  | goesOn
      {piece : List UInt8}
      {msg : Buffer bufSize}
      (isSending : state.pc = .sending)
      (deliverable : Deliverable piece)
      (notQuit : ¬ IsQuit piece)
      (fits : state.msgLen + piece.length ≤ intMax) :
      Taken state (.input piece)
        { state with
          msg := msg
          msgLen := state.msgLen + piece.length
          echo := state.echo ++ piece
          line := lineAfter state.line piece }
        [.typed piece, .sent piece]
  | receives
      {recvCnt : Nat}
      {msg : Buffer bufSize}
      (isReceiving : state.pc = .receiving)
      (positive : 0 < recvCnt)
      (available : recvCnt ≤ state.echo.length) :
      Taken state (.receive recvCnt)
        { state with
          msg := msg
          recvLen := state.recvLen + recvCnt
          echo := state.echo.drop recvCnt }
        [.printed ((state.echo.take recvCnt).takeWhile (· ≠ 0))]
  | leaves
      (isReceiving : state.pc = .receiving)
      (all : ¬ state.recvLen < state.msgLen) :
      Taken state .leave { state with pc := .prompting } []

section Steps

variable
  {state next : State}
  {events : List Event}

/-- What comes back is printed up to a NUL. -/
theorem receive_eq
    {recvCnt : Nat}
    (isReceiving : state.pc = .receiving)
    (more : state.recvLen < state.msgLen)
    (positive : 0 < recvCnt)
    (fits : recvCnt ≤ bufSize - 1)
    (available : recvCnt ≤ state.echo.length) :
    ∃ msg : Buffer bufSize,
      receive recvCnt state =
        some ({ state with
            msg := msg
            recvLen := state.recvLen + recvCnt
            echo := state.echo.drop recvCnt },
          [.printed ((state.echo.take recvCnt).takeWhile (· ≠ 0))]) := by
  have length : (state.echo.take recvCnt).length = recvCnt :=
    List.length_take_of_le available
  have room : (state.echo.take recvCnt).length < bufSize := by
    rw [length]
    exact Nat.lt_of_le_pred (by decide) fits
  obtain ⟨first, next, stored, terminated, rest, isBytes⟩ :=
    state.msg.exists_terminated (state.echo.take recvCnt) room
  rw [length] at terminated
  rw [List.append_assoc] at isBytes
  have isText :
      string? next.bytes =
        some ((state.echo.take recvCnt).takeWhile (· ≠ 0)) := by
    rw [← isBytes]
    exact string?_terminated _ rest
  refine ⟨next, ?_⟩
  rw [receive, if_pos ⟨isReceiving, more, positive, fits, available⟩]
  simp only [stored, terminated, isText, Option.bind_eq_bind,
    Option.bind_some]
  rfl

theorem taken_of_input
    {piece : List UInt8}
    (taken : input piece state = some (next, events)) :
    Taken state (.input piece) next events := by
  by_cases enabled : state.pc = .sending ∧ Deliverable piece
  · obtain ⟨isSending, deliverable⟩ := enabled
    by_cases full : piece.length = bufSize
    · have notQuit : ¬ IsQuit piece := by
        intro isQuit
        rw [(quit_shape isQuit).1] at full
        contradiction
      obtain ⟨msg, isInput⟩ := input_eq_of_full isSending deliverable full
      rw [isInput] at taken
      split at taken
      case isTrue fits =>
        obtain ⟨rfl, rfl⟩ := Prod.mk.inj (Option.some.inj taken)
        exact .goesOn isSending deliverable notQuit fits
      case isFalse =>
        contradiction
    · obtain ⟨msg, isInput⟩ := input_eq_of_short isSending deliverable full
      rw [isInput] at taken
      split at taken
      case isTrue isQuit =>
        obtain ⟨rfl, rfl⟩ := Prod.mk.inj (Option.some.inj taken)
        exact .quits isSending deliverable isQuit
      case isFalse notQuit =>
        split at taken
        case isTrue fits =>
          obtain ⟨rfl, rfl⟩ := Prod.mk.inj (Option.some.inj taken)
          exact .sends isSending deliverable notQuit fits
        case isFalse =>
          contradiction
  · rw [input, if_neg enabled] at taken
    contradiction

theorem taken_of_step?
    {action : Action}
    (taken : step? state action = some (next, events)) :
    Taken state action next events := by
  cases action with
  | prompt =>
      simp only [step?] at taken
      split at taken
      case isTrue isPrompting =>
        obtain ⟨rfl, rfl⟩ := Prod.mk.inj (Option.some.inj taken)
        exact .prompts isPrompting
      case isFalse =>
        contradiction
  | input piece =>
      exact taken_of_input taken
  | receive recvCnt =>
      simp only [step?] at taken
      by_cases enabled :
          state.pc = .receiving ∧ state.recvLen < state.msgLen ∧
            0 < recvCnt ∧ recvCnt ≤ bufSize - 1 ∧
            recvCnt ≤ state.echo.length
      · obtain ⟨isReceiving, more, positive, fits, available⟩ := enabled
        obtain ⟨msg, isReceive⟩ :=
          receive_eq isReceiving more positive fits available
        rw [isReceive] at taken
        obtain ⟨rfl, rfl⟩ := Prod.mk.inj (Option.some.inj taken)
        exact .receives isReceiving positive available
      · rw [receive, if_neg enabled] at taken
        contradiction
  | leave =>
      simp only [step?] at taken
      split at taken
      case isTrue isEnd =>
        obtain ⟨rfl, rfl⟩ := Prod.mk.inj (Option.some.inj taken)
        exact .leaves isEnd.1 isEnd.2
      case isFalse =>
        contradiction

end Steps

section Lines

variable {whole front piece text : List UInt8}

/-- The only new line of a text with one newline at most is the text. -/
theorem exists_quit_append
    (complete : whole = [] ∨ whole.getLast? = some newline)
    (free : newline ∉ text.dropLast) :
    (∃ line ∈ linesOf (whole ++ text), IsQuit line) ↔
      (∃ line ∈ linesOf whole, IsQuit line) ∨ IsQuit text := by
  rw [linesOf_append text complete]
  simp only [List.mem_append, or_and_right, exists_or]
  refine or_congr Iff.rfl ?_
  by_cases isEmpty : text = []
  · subst isEmpty
    refine iff_of_false ?_ (by decide)
    rintro ⟨line, member, -⟩
    contradiction
  · rw [linesOf_eq_singleton isEmpty free]
    simp

/-- Where a line is only begun, a piece ends a quit line if the line is one. -/
theorem exists_quit_piece
    (complete : whole = [] ∨ whole.getLast? = some newline)
    (begun : newline ∉ front)
    (free : newline ∉ piece.dropLast) :
    (∃ line ∈ linesOf (whole ++ front ++ piece), IsQuit line) ↔
      (∃ line ∈ linesOf (whole ++ front), IsQuit line) ∨
        IsQuit (front ++ piece) := by
  have begunFree : newline ∉ front.dropLast :=
    fun member => begun (List.mem_of_mem_dropLast member)
  have bothFree : newline ∉ (front ++ piece).dropLast := by
    by_cases isEmpty : piece = []
    · rwa [isEmpty, List.append_nil]
    · rw [List.dropLast_append_of_ne_nil isEmpty, List.mem_append, not_or]
      exact ⟨begun, free⟩
  have notQuit : ¬ IsQuit front := fun isQuit =>
    begun (List.mem_of_getLast? (quit_shape isQuit).2.2)
  rw [List.append_assoc, exists_quit_append complete bothFree,
    exists_quit_append complete begunFree, or_iff_left notQuit]

end Lines

/-- How far the round is. -/
def RoundOk (trace : List Event) (state : State) : Prop :=
  match state.pc with
  | .prompting =>
      state.echo = [] ∧
        (0 ∉ inRound Event.sentBytes trace →
          inRound Event.printedBytes trace = inRound Event.sentBytes trace)
  | .sending =>
      state.msgLen = (inRound Event.sentBytes trace).length ∧
        state.echo = inRound Event.sentBytes trace ∧
        inRound Event.printedBytes trace = []
  | .receiving =>
      state.recvLen ≤ state.msgLen ∧
        state.msgLen = (inRound Event.sentBytes trace).length ∧
        state.echo = (inRound Event.sentBytes trace).drop state.recvLen ∧
        (0 ∉ inRound Event.sentBytes trace →
          inRound Event.printedBytes trace =
            (inRound Event.sentBytes trace).take state.recvLen)
  | .stopped =>
      True

/-- The line that has been begun is what follows the last newline. -/
structure LineOk (trace : List Event) (state : State) : Prop where
  begun : newline ∉ state.line
  delivered :
    ∃ whole,
      trace.flatMap Event.typedBytes = whole ++ state.line ∧
        (whole = [] ∨ whole.getLast? = some newline)

section Invariants

variable
  {trace events : List Event}
  {state next : State}
  {action : Action}

theorem inRound_append
    (bytesOf : Event → List UInt8)
    (trace events : List Event) :
    inRound bytesOf (trace ++ events) =
      events.foldl
        (fun sofar event =>
          if event = .prompted then [] else sofar ++ bytesOf event)
        (inRound bytesOf trace) :=
  List.foldl_append

theorem LineOk.of_piece
    {piece : List UInt8}
    (lineOk : LineOk trace state)
    (deliverable : Deliverable piece)
    (isLine : next.line = lineAfter state.line piece)
    (isTyped : events.flatMap Event.typedBytes = piece) :
    LineOk (trace ++ events) next := by
  obtain ⟨begun, whole, isWhole, complete⟩ := lineOk
  have isTrace :
      (trace ++ events).flatMap Event.typedBytes =
        whole ++ state.line ++ piece := by
    rw [List.flatMap_append, isWhole, isTyped]
  by_cases ends : piece.getLast? = some newline
  · rw [lineAfter, if_pos ends] at isLine
    have notEmpty : piece ≠ [] := by
      rintro rfl
      contradiction
    refine ⟨isLine ▸ List.not_mem_nil, whole ++ state.line ++ piece, ?_,
      .inr ?_⟩
    · rw [isTrace, isLine, List.append_nil]
    · rw [List.getLast?_append_of_ne_nil _ notEmpty, ends]
  · rw [lineAfter, if_neg ends] at isLine
    refine ⟨?_, whole, ?_, complete⟩
    · rw [isLine, List.mem_append, not_or]
      refine ⟨begun, fun member => ?_⟩
      rcases List.eq_nil_or_concat piece with rfl | ⟨front, last, rfl⟩
      · contradiction
      · have free := deliverable.2
        rw [List.concat_eq_append] at ends free member
        rw [List.getLast?_concat, Option.some.injEq] at ends
        rw [List.dropLast_concat] at free
        rcases List.mem_append.mp member with inFront | isLast
        · exact free inFront
        · exact ends (List.mem_singleton.mp isLast).symm
    · rw [isTrace, isLine, List.append_assoc]

theorem LineOk.preserved
    (lineOk : LineOk trace state)
    (taken : Taken state action next events) :
    LineOk (trace ++ events) next := by
  cases taken with
  | quits _ deliverable | sends _ deliverable | goesOn _ deliverable =>
      refine lineOk.of_piece deliverable rfl ?_
      simp [Event.typedBytes]
  | prompts | receives | leaves =>
      obtain ⟨begun, whole, isWhole, complete⟩ := lineOk
      refine ⟨begun, whole, ?_, complete⟩
      rw [List.flatMap_append, isWhole]
      exact List.append_nil _

theorem RoundOk.preserved
    (roundOk : RoundOk trace state)
    (taken : Taken state action next events) :
    RoundOk (trace ++ events) next := by
  cases taken with
  | prompts isPrompting =>
      simp only [RoundOk, isPrompting] at roundOk
      simp only [RoundOk, inRound_append, List.foldl_cons, List.foldl_nil,
        if_true]
      exact ⟨rfl, roundOk.1, trivial⟩
  | quits =>
      trivial
  | @sends piece msg isSending _ _ _ =>
      simp only [RoundOk, isSending] at roundOk
      obtain ⟨isLength, isEcho, notPrinted⟩ := roundOk
      simp [RoundOk, inRound_append, Event.sentBytes, Event.printedBytes,
        isLength, isEcho, notPrinted]
  | @goesOn piece msg isSending _ _ _ =>
      simp only [RoundOk, isSending] at roundOk
      obtain ⟨isLength, isEcho, notPrinted⟩ := roundOk
      simp [RoundOk, inRound_append, Event.sentBytes, Event.printedBytes,
        isSending, isLength, isEcho, notPrinted]
  | @receives recvCnt msg isReceiving positive available =>
      simp only [RoundOk, isReceiving] at roundOk
      obtain ⟨bound, isLength, isEcho, printed⟩ := roundOk
      rw [isEcho, List.length_drop, ← isLength] at available
      simp only [RoundOk, isReceiving, inRound_append, List.foldl_cons,
        List.foldl_nil, reduceCtorEq, if_false, Event.sentBytes,
        Event.printedBytes, List.append_nil]
      refine ⟨by omega, isLength, by rw [isEcho, List.drop_drop],
        fun nulFree => ?_⟩
      have allPrinted :
          (state.echo.take recvCnt).takeWhile (· ≠ 0) =
            state.echo.take recvCnt := by
        refine List.takeWhile_eq_self_iff.mpr fun byte member => ?_
        have inEcho := List.mem_of_mem_take member
        rw [isEcho] at inEcho
        refine decide_eq_true fun isNul => nulFree ?_
        exact isNul ▸ List.mem_of_mem_drop inEcho
      rw [allPrinted, printed nulFree, isEcho, ← List.take_add]
  | leaves isReceiving all =>
      simp only [RoundOk, isReceiving] at roundOk
      obtain ⟨bound, isLength, isEcho, printed⟩ := roundOk
      have isEnd : state.recvLen = (inRound Event.sentBytes trace).length := by
        omega
      rw [List.append_nil]
      refine ⟨?_, fun nulFree => ?_⟩
      · rw [isEcho, isEnd, List.drop_length]
      · rw [printed nulFree, isEnd, List.take_length]

end Invariants

section Faithfulness

variable
  {trace events : List Event}
  {state next : State}
  {action : Action}
  {piece : List UInt8}

/-- Where no prompt is printed and nothing is closed, no round ends. -/
theorem prints_append
    (faithful : Faithful trace state)
    (noPrompt : .prompted ∉ events)
    (noClose : .closed ∉ events) :
    AtEvery PrintsSent (trace ++ events) := by
  refine faithful.prints.append ?_
  rintro before event after rfl (rfl | rfl)
  · exact absurd (List.mem_append_right before List.mem_cons_self) noPrompt
  · exact absurd (List.mem_append_right before List.mem_cons_self) noClose

/-- The last round prints what it sent exactly if no echo is left. -/
theorem prints_append_closed
    (faithful : Faithful trace state)
    (roundOk : RoundOk trace state)
    (isSending : state.pc = .sending) :
    AtEvery PrintsSent (trace ++ [.typed piece, .closed]) ↔
      state.echo = [] ∨ 0 ∈ state.echo := by
  simp only [RoundOk, isSending] at roundOk
  obtain ⟨-, isEcho, notPrinted⟩ := roundOk
  have isSent :
      inRound Event.sentBytes (trace ++ [.typed piece]) = state.echo := by
    simp [inRound_append, Event.sentBytes, isEcho]
  have isPrinted :
      inRound Event.printedBytes (trace ++ [.typed piece]) = [] := by
    simp [inRound_append, Event.printedBytes, notPrinted]
  constructor
  · intro prints
    have last :=
      prints (trace ++ [.typed piece]) .closed [] (by simp) (.inr rfl)
    rw [isSent, isPrinted] at last
    by_cases nulFree : 0 ∈ state.echo
    · exact .inr nulFree
    · exact .inl (last nulFree).symm
  · intro nothingLeft
    have isSplit :
        trace ++ [Event.typed piece, .closed] =
          trace ++ [.typed piece] ++ [.closed] := by
      simp
    rw [isSplit]
    refine (prints_append faithful (by simp) (by simp)).snoc ?_
    intro _ nulFree
    rw [isSent] at nulFree ⊢
    rw [isPrinted, nothingLeft.resolve_right nulFree]

/-- A piece that is delivered ends a quit line if its whole line is one. -/
theorem exists_quit_typed
    (faithful : Faithful trace state)
    (lineOk : LineOk trace state)
    (isSending : state.pc = .sending)
    (deliverable : Deliverable piece)
    (isTyped : events.flatMap Event.typedBytes = piece) :
    (∃ line ∈ linesOf ((trace ++ events).flatMap Event.typedBytes),
        IsQuit line) ↔
      IsQuit (state.line ++ piece) := by
  obtain ⟨begun, whole, isWhole, complete⟩ := lineOk
  have running : ¬ state.pc = .stopped := by
    rw [isSending]
    exact nofun
  have noQuit := mt faithful.stops.mpr running
  rw [isWhole] at noQuit
  rw [List.flatMap_append, isTyped, isWhole,
    exists_quit_piece complete begun deliverable.2, or_iff_right noQuit]

/-- A piece that stops the client has to end a quit line. -/
theorem faithful_iff_of_quit
    (faithful : Faithful trace state)
    (lineOk : LineOk trace state)
    (roundOk : RoundOk trace state)
    (isSending : state.pc = .sending)
    (deliverable : Deliverable piece)
    (isQuit : IsQuit piece)
    (stopped : next.pc = .stopped) :
    Faithful (trace ++ [.typed piece, .closed]) next ↔
      AgreesWithLine state piece := by
  have isTyped :
      [Event.typed piece, .closed].flatMap Event.typedBytes = piece := by
    simp [Event.typedBytes]
  have quits :=
    exists_quit_typed faithful lineOk isSending deliverable isTyped
  have sent := faithful.sends (by rw [isSending]; exact nofun)
  have prints := @prints_append_closed _ _ piece faithful roundOk isSending
  constructor
  · intro later
    exact ⟨iff_of_true isQuit (quits.mp (later.stops.mp stopped)),
      fun _ => prints.mp later.prints⟩
  · rintro ⟨agree, nothingLeft⟩
    exact
      { stops := iff_of_true stopped (quits.mpr (agree.mp isQuit))
        closes := iff_of_true (by simp) stopped
        sends := fun running => absurd stopped running
        sendsOthers := fun _ => ⟨piece, isQuit, by
          simp [Event.typedBytes, Event.sentBytes, sent]⟩
        prints := prints.mpr (nothingLeft isQuit) }

/-- A piece that does not stop the client must not end a quit line. -/
theorem faithful_iff_of_sent
    (faithful : Faithful trace state)
    (lineOk : LineOk trace state)
    (isSending : state.pc = .sending)
    (deliverable : Deliverable piece)
    (notQuit : ¬ IsQuit piece)
    (running : next.pc ≠ .stopped)
    (isTyped : events.flatMap Event.typedBytes = piece)
    (isSent : events.flatMap Event.sentBytes = piece)
    (noPrompt : .prompted ∉ events)
    (noClose : .closed ∉ events) :
    Faithful (trace ++ events) next ↔ AgreesWithLine state piece := by
  have quits :=
    exists_quit_typed faithful lineOk isSending deliverable isTyped
  have wasRunning : state.pc ≠ .stopped := by
    rw [isSending]
    exact nofun
  have wasOpen : .closed ∉ trace := mt faithful.closes.mp wasRunning
  constructor
  · intro later
    exact ⟨iff_of_false notQuit fun isLine =>
      running (later.stops.mpr (quits.mpr isLine)),
      fun isQuit => absurd isQuit notQuit⟩
  · rintro ⟨agree, -⟩
    exact
      { stops := iff_of_false running fun isLine =>
          notQuit (agree.mpr (quits.mp isLine))
        closes := iff_of_false
          (fun member =>
            (List.mem_append.mp member).elim wasOpen noClose) running
        sends := fun _ => by
          rw [List.flatMap_append, List.flatMap_append,
            faithful.sends wasRunning, isSent, isTyped]
        sendsOthers := fun stopped => absurd stopped running
        prints := prints_append faithful noPrompt noClose }

/-- Exactly a piece that says what its line says keeps the client faithful. -/
theorem faithful_iff_of_input
    (faithful : Faithful trace state)
    (lineOk : LineOk trace state)
    (roundOk : RoundOk trace state)
    (taken : Taken state (.input piece) next events) :
    Faithful (trace ++ events) next ↔ AgreesWithLine state piece := by
  cases taken with
  | quits isSending deliverable isQuit =>
      exact faithful_iff_of_quit faithful lineOk roundOk isSending deliverable
        isQuit rfl
  | sends isSending deliverable notQuit =>
      refine faithful_iff_of_sent faithful lineOk isSending deliverable
        notQuit nofun ?_ ?_ ?_ ?_ <;>
        simp [Event.typedBytes, Event.sentBytes]
  | goesOn isSending deliverable notQuit =>
      refine faithful_iff_of_sent faithful lineOk isSending deliverable
        notQuit ?_ ?_ ?_ ?_ ?_ <;>
        simp [Event.typedBytes, Event.sentBytes, isSending]

/-- A step without typing and sending keeps everything but the rounds. -/
theorem Faithful.of_quiet
    (faithful : Faithful trace state)
    (wasRunning : state.pc ≠ .stopped)
    (running : next.pc ≠ .stopped)
    (notTyped : events.flatMap Event.typedBytes = [])
    (notSent : events.flatMap Event.sentBytes = [])
    (noClose : .closed ∉ events)
    (prints : AtEvery PrintsSent (trace ++ events)) :
    Faithful (trace ++ events) next where
  stops := by
    rw [List.flatMap_append, notTyped, List.append_nil, ← faithful.stops]
    exact iff_of_false running wasRunning
  closes := by
    refine iff_of_false (fun member => ?_) running
    rcases List.mem_append.mp member with before | isNew
    · exact wasRunning (faithful.closes.mp before)
    · exact noClose isNew
  sends _ := by
    rw [List.flatMap_append, List.flatMap_append, notTyped, notSent,
      faithful.sends wasRunning]
  sendsOthers stopped :=
    absurd stopped running
  prints := prints

/-- Steps that agree with the lines keep the client faithful. -/
theorem Faithful.preserved
    (faithful : Faithful trace state)
    (lineOk : LineOk trace state)
    (roundOk : RoundOk trace state)
    (byLine : QuitsByLine state action)
    (taken : Taken state action next events) :
    Faithful (trace ++ events) next := by
  cases action with
  | input piece =>
      exact (faithful_iff_of_input faithful lineOk roundOk taken).mpr byLine.1
  | prompt =>
      cases taken with
      | prompts isPrompting =>
          simp only [RoundOk, isPrompting] at roundOk
          refine faithful.of_quiet (by rw [isPrompting]; exact nofun) nofun
            rfl rfl (by simp) ?_
          exact faithful.prints.snoc fun _ nulFree => roundOk.2 nulFree
  | receive recvCnt =>
      cases taken with
      | receives isReceiving =>
          refine faithful.of_quiet ?_ ?_ rfl rfl (by simp)
            (prints_append faithful (by simp) (by simp)) <;>
            rw [isReceiving] <;> exact nofun
  | leave =>
      cases taken with
      | leaves isReceiving =>
          exact faithful.of_quiet (by rw [isReceiving]; exact nofun) nofun
            rfl rfl (by simp) (prints_append faithful (by simp) (by simp))

end Faithfulness

section Runs

variable
  {msg : Buffer bufSize}
  {trace : List Event}
  {state : State}

theorem faithful_of_guarded
    (reaches : ((system msg).guarded QuitsByLine).Reaches trace state) :
    Faithful trace state ∧ LineOk trace state ∧ RoundOk trace state := by
  induction reaches with
  | initial =>
      refine ⟨?_, ⟨List.not_mem_nil, [], rfl, .inl rfl⟩, rfl, fun _ => rfl⟩
      exact
        { stops := iff_of_false nofun (by simp [linesOf])
          closes := iff_of_false List.not_mem_nil nofun
          sends := fun _ => rfl
          sendsOthers := nofun
          prints := .nil }
  | step _ taken inductionHypothesis =>
      obtain ⟨byLine, moved⟩ := System.guarded_step?_eq_some.mp taken
      obtain ⟨faithful, lineOk, roundOk⟩ := inductionHypothesis
      have step := taken_of_step? moved
      exact ⟨faithful.preserved lineOk roundOk byLine step,
        lineOk.preserved step, roundOk.preserved step⟩

/-- Between its reads from the user the client always goes on. -/
theorem exists_step
    (roundOk : RoundOk trace state)
    (isBetween : state.pc = .prompting ∨ state.pc = .receiving) :
    ∃ action, (step? state action).isSome := by
  rcases isBetween with isPrompting | isReceiving
  · refine ⟨.prompt, ?_⟩
    rw [step?, if_pos isPrompting]
    rfl
  · by_cases more : state.recvLen < state.msgLen
    · simp only [RoundOk, isReceiving] at roundOk
      obtain ⟨-, isLength, isEcho, -⟩ := roundOk
      have available : 1 ≤ state.echo.length := by
        rw [isEcho, List.length_drop]
        omega
      obtain ⟨later, isReceive⟩ :=
        receive_eq isReceiving more Nat.one_pos (by decide) available
      exact ⟨.receive 1, Option.isSome_iff_exists.mpr ⟨_, isReceive⟩⟩
    · refine ⟨.leave, ?_⟩
      rw [step?, if_pos ⟨isReceiving, more⟩]
      rfl

/-- The loop that receives has at most as many turns as there are bytes. -/
theorem length_le_of_receives
    {final : State}
    {later : List Event}
    {recvCnts : List Nat}
    (ran :
      (system msg).run? state (recvCnts.map .receive) =
        some (final, later)) :
    recvCnts.length ≤ state.echo.length := by
  induction recvCnts generalizing state later with
  | nil =>
      exact Nat.zero_le _
  | cons recvCnt recvCnts inductionHypothesis =>
      obtain ⟨next, events, behind, taken, goesOn, -⟩ :=
        System.run?_cons_eq_some.mp ran
      have bound := inductionHypothesis goesOn
      have moved : step? state (.receive recvCnt) = some (next, events) :=
        taken
      cases taken_of_step? moved with
      | receives _ positive available =>
          rw [List.length_drop] at bound
          rw [List.length_cons]
          omega

/-- A piece that agrees with its line, and has room, is handled. -/
theorem exists_input
    {piece : List UInt8}
    (isSending : state.pc = .sending)
    (deliverable : Deliverable piece)
    (room : IsQuit piece ∨ state.msgLen + piece.length ≤ intMax) :
    ∃ next events, step? state (.input piece) = some (next, events) := by
  by_cases full : piece.length = bufSize
  · have fits : state.msgLen + piece.length ≤ intMax := by
      refine room.resolve_left fun isQuit => ?_
      rw [(quit_shape isQuit).1] at full
      contradiction
    obtain ⟨later, isInput⟩ := input_eq_of_full isSending deliverable full
    rw [if_pos fits] at isInput
    exact ⟨_, _, isInput⟩
  · obtain ⟨later, isInput⟩ := input_eq_of_short isSending deliverable full
    by_cases isQuit : IsQuit piece
    · rw [if_pos isQuit] at isInput
      exact ⟨_, _, isInput⟩
    · rw [if_neg isQuit, if_pos (room.resolve_left isQuit)] at isInput
      exact ⟨_, _, isInput⟩

/-- A piece that is handled has room. -/
theorem room_of_input
    {next : State}
    {events : List Event}
    {piece : List UInt8}
    (taken : Taken state (.input piece) next events) :
    IsQuit piece ∨ state.msgLen + piece.length ≤ intMax := by
  cases taken with
  | quits _ _ isQuit =>
      exact .inl isQuit
  | sends _ _ _ fits | goesOn _ _ _ fits =>
      exact .inr fits

end Runs

/--
As long as the pieces agree with their lines, and `msg_len` has room, the client
is faithful, and it is never stuck.  The next piece is handled and keeps the
client faithful exactly if it agrees with its line and has room.
-/
theorem echoClient_quits
    (msg : Buffer bufSize)
    (trace : List Event)
    (state : State)
    (reaches : ((system msg).guarded QuitsByLine).Reaches trace state) :
    Faithful trace state ∧
      (state.pc = .prompting ∨ state.pc = .receiving →
        ∃ action, (step? state action).isSome) ∧
      (∀ (recvCnts : List Nat) final later,
        (system msg).run? state (recvCnts.map .receive) =
            some (final, later) →
          recvCnts.length ≤ state.echo.length) ∧
      ∀ piece, state.pc = .sending → Deliverable piece →
        ((∃ next events,
            step? state (.input piece) = some (next, events) ∧
              Faithful (trace ++ events) next) ↔
          QuitsByLine state (.input piece)) := by
  obtain ⟨faithful, lineOk, roundOk⟩ := faithful_of_guarded reaches
  refine ⟨faithful, exists_step roundOk, fun _ _ _ => length_le_of_receives,
    fun piece isSending deliverable => ⟨?_, ?_⟩⟩
  · rintro ⟨next, events, taken, later⟩
    have step := taken_of_step? taken
    exact ⟨(faithful_iff_of_input faithful lineOk roundOk step).mp later,
      room_of_input step⟩
  · rintro ⟨agrees, room⟩
    obtain ⟨next, events, taken⟩ := exists_input isSending deliverable room
    exact ⟨next, events, taken,
      (faithful_iff_of_input faithful lineOk roundOk
        (taken_of_step? taken)).mpr agrees⟩

/--
A line that fills `msg` and another go to the server and come back in parts, and
then the end.
-/
def lineAndQuit : List Action :=
  [.prompt, .input (List.replicate 29 'a'.toUInt8 ++ [newline]),
    .input (ascii "hi\n"), .receive 29, .receive 1, .receive 3, .leave, .prompt,
    .input (ascii "q\n")]

theorem echoClient_quits_lineAndQuit :
    ∃ trace state,
      ((system (.filled bufSize 0)).guarded QuitsByLine).Reaches trace state ∧
        state.pc = .stopped ∧ Faithful trace state := by
  obtain ⟨trace, state, reaches, observed⟩ :=
    System.Reaches.exists_of_run?
      (by decide +kernel :
        (((system (.filled bufSize 0)).guarded QuitsByLine).run?
          (system (.filled bufSize 0)).initial lineAndQuit).any
          (fun outcome => decide (outcome.1.pc = .stopped)) = true)
  exact ⟨trace, state, reaches, of_decide_eq_true observed,
    (echoClient_quits (.filled bufSize 0) trace state reaches).1⟩

/-- A line that fills `msg` before it ends in a `q`. -/
def fullPieceAndQ : List Action :=
  [.prompt, .input (List.replicate bufSize 'a'.toUInt8),
    .input (ascii "q\n")]

/-- The client stops in the middle of the line. -/
theorem not_faithful_fullPieceAndQ :
    ¬ ∀ msg trace state,
      (system msg).Reaches trace state → Faithful trace state := by
  intro always
  obtain ⟨trace, state, reaches, observed⟩ :=
    System.Reaches.exists_of_run?
      (by decide +kernel :
        ((system (.filled bufSize 0)).run?
          (system (.filled bufSize 0)).initial fullPieceAndQ).any
          (fun outcome => decide (
            outcome.1.pc = .stopped ∧
              ¬ ∃ line ∈ linesOf (outcome.2.flatMap Event.typedBytes),
                IsQuit line)) = true)
  obtain ⟨stopped, noQuit⟩ := of_decide_eq_true observed
  exact noQuit ((always _ trace state reaches).stops.mp stopped)

end CsPrimer.EchoClient
