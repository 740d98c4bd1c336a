import CsPrimer.Library.ByteStream
import CsPrimer.SvMsg.Bounds
import CsPrimer.SvMsg.Clients

namespace CsPrimer.SvMsg

open Library

/-!
# Replies

A client expects the content of the file it named, or its pathname with an
error text behind it, as messages that are not empty and then one that is.
What the servers send of a line is the string at its start.
-/

/-- The reply to a request for a path. -/
def replyText (path : List UInt8) : File → List UInt8
  | .content bytes => bytes
  | .missing strerror => path ++ errorSuffix strerror

/-- The messages that make a reply. -/
def IsReply
    (mtype : Int)
    (text : List UInt8)
    (messages : List (Int × List UInt8)) : Prop :=
  ∃ pieces,
    Cut textSize text pieces ∧
      messages = (pieces ++ [[]]).map (mtype, ·)

/-- The last message of a reply is empty. -/
theorem IsReply.getLast?
    {mtype : Int}
    {text : List UInt8}
    {messages : List (Int × List UInt8)}
    (isReply : IsReply mtype text messages) :
    messages.getLast? = some (mtype, []) := by
  obtain ⟨pieces, -, rfl⟩ := isReply
  rw [List.map_append, List.map_singleton, List.getLast?_concat]

/-- The texts a server sends for a path before it sends the end. -/
def replyTexts (path : List UInt8) : File → List (List UInt8)
  | .content bytes => (linesOf bytes).map fun line => line.takeWhile (· ≠ 0)
  | .missing strerror => [path ++ errorSuffix strerror]

/-- A file whose lines are strings. -/
def File.Strings : File → Prop
  | .content bytes => 0 ∉ bytes
  | .missing _ => True

instance (file : File) : Decidable file.Strings :=
  match file with
  | .content _ => inferInstanceAs (Decidable (_ ∉ _))
  | .missing _ => inferInstanceAs (Decidable True)

/-- A reply to a request of `n` bytes that stays inside `mtext`. -/
def File.Fits (n : Nat) : File → Prop
  | .content bytes => ∀ line ∈ linesOf bytes, line.length < textSize
  | .missing strerror => n + (errorSuffix strerror).length < textSize

instance (n : Nat) (file : File) : Decidable (file.Fits n) :=
  match file with
  | .content bytes =>
      inferInstanceAs
        (Decidable (∀ line ∈ linesOf bytes, line.length < textSize))
  | .missing _ => inferInstanceAs (Decidable (_ < _))

/-- A file system with one file. -/
def oneFile (path : List UInt8) : File :=
  if path = ascii "f" then
    .content (ascii "x\n")
  else
    .missing { bytes := ascii "error", free := by decide }

variable
  {path text : List UInt8}
  {file : File}
  {reply next : Reply}
  {left texts : List (List UInt8)}

section Texts

theorem not_mem_errorSuffix (strerror : ErrorText) :
    0 ∉ errorSuffix strerror := by
  simp only [errorSuffix, List.mem_append, not_or]
  exact ⟨⟨by decide, strerror.free⟩, by decide⟩

/-- No message of a reply contains a NUL. -/
theorem not_mem_of_mem_replyTexts
    (free : 0 ∉ path)
    (member : text ∈ replyTexts path file) :
    0 ∉ text := by
  cases file with
  | content bytes =>
      obtain ⟨line, -, rfl⟩ := List.mem_map.mp member
      intro isNul
      simpa using List.all_eq_true.mp List.all_takeWhile _ isNul
  | missing strerror =>
      obtain rfl := List.mem_singleton.mp member
      simp [free, not_mem_errorSuffix strerror]

/-- An empty message comes from a line that starts with a NUL. -/
theorem not_strings_of_nil_mem
    (member : [] ∈ replyTexts path file) :
    ¬ file.Strings := by
  cases file with
  | content bytes =>
      obtain ⟨line, isLine, isEmpty⟩ := List.mem_map.mp member
      obtain ⟨char, chars, rfl⟩ :=
        List.exists_cons_of_ne_nil (ne_nil_of_mem_linesOf isLine)
      have isNul : char = 0 := by
        by_contra isOther
        simp [isOther] at isEmpty
      have inBytes : char ∈ bytes := by
        rw [← flatten_linesOf bytes]
        exact List.mem_flatten.mpr ⟨_, isLine, List.mem_cons_self⟩
      exact fun free => free (isNul ▸ inBytes)
  | missing strerror =>
      have isEmpty := List.mem_singleton.mp member
      simp [errorSuffix, ascii] at isEmpty

/-- The texts are the reply, if the file contains no NUL. -/
theorem flatten_replyTexts
    (strings : file.Strings) :
    (replyTexts path file).flatten = replyText path file := by
  cases file with
  | content bytes =>
      have whole :
          (linesOf bytes).map (fun line => line.takeWhile (· ≠ 0)) =
            (linesOf bytes).map id := by
        apply List.map_congr_left
        intro line isLine
        rw [id_eq, List.takeWhile_eq_self_iff]
        intro char inLine
        have inBytes : char ∈ bytes := by
          rw [← flatten_linesOf bytes]
          exact List.mem_flatten.mpr ⟨line, isLine, inLine⟩
        simpa using fun isNul : char = 0 => strings (isNul ▸ inBytes)
      rw [replyTexts, whole, List.map_id, flatten_linesOf, replyText]
  | missing strerror =>
      simp [replyTexts, replyText]

/-- A file with a NUL is no reply in messages without one. -/
theorem not_isReply
    {mtype : Int}
    {messages : List (Int × List UInt8)}
    (notStrings : ¬ file.Strings)
    (free : ∀ message ∈ messages, 0 ∉ message.2) :
    ¬ IsReply mtype (replyText path file) messages := by
  rintro ⟨pieces, ⟨whole, -⟩, rfl⟩
  cases file with
  | content bytes =>
      have isNul : 0 ∈ pieces.flatten := by
        rw [whole]
        exact not_not.mp notStrings
      obtain ⟨piece, isPiece, inPiece⟩ := List.mem_flatten.mp isNul
      refine free (mtype, piece) (List.mem_map_of_mem ?_) inPiece
      exact List.mem_append_left [[]] isPiece
  | missing strerror =>
      exact notStrings trivial

end Texts

section Steps

/-- The rest of a file from the start of a line on. -/
def File.EndsWith (file : File) (stream : List UInt8) : Prop :=
  ∃ bytes past,
    file = .content bytes ∧ linesOf bytes = past ++ linesOf stream

/-- What a reply to a request of `n` bytes still has to send. -/
def Answering
    (n : Nat)
    (path : List UInt8)
    (file : File)
    (reply : Reply)
    (left : List (List UInt8)) : Prop :=
  match reply.pc with
  | .openFile opened ptr count =>
      opened = path ∧ count = n ∧ n = ptr + path.length ∧
        left = replyTexts path file ∧
        ∃ rest, reply.mtext.bytes.drop ptr = path ++ 0 :: rest
  | .sendError count =>
      count ≤ textSize ∧ left = [reply.mtext.bytes.take count]
  | .readLine stream =>
      file.EndsWith stream ∧
        left = (linesOf stream).map fun line => line.takeWhile (· ≠ 0)
  | .sendLine count stream =>
      file.EndsWith stream ∧ count ≤ textSize ∧
        left =
          reply.mtext.bytes.take count ::
            (linesOf stream).map fun line => line.takeWhile (· ≠ 0)
  | .finished =>
      left = []
  | .faulted =>
      True

/-- A reply that still has something to send can go on. -/
theorem Answering.ready
    {n : Nat}
    (answering : Answering n path file reply left) :
    reply.pc.Ready := by
  obtain ⟨pc, mtext⟩ := reply
  cases pc with
  | openFile opened ptr count =>
      simp only [Answering] at answering
      obtain ⟨-, rfl, isCount, -, rest, isBytes⟩ := answering
      have counted := congrArg List.length isBytes
      have total := mtext.length_eq
      rw [List.length_drop, List.length_append, List.length_cons] at counted
      exact ⟨by omega, by omega⟩
  | sendError count =>
      exact answering.1
  | sendLine count stream =>
      exact answering.2.1
  | readLine | finished | faulted =>
      trivial

/-- A request that has been split is answered from its start. -/
theorem answering_request
    {id : Int}
    {stdin rest : List UInt8}
    {mtext : Mtext}
    (file : File)
    (isBytes :
      mtext.bytes = decimal id ++ 0 :: (pathname stdin ++ 0 :: rest)) :
    Answering (request id stdin).length (pathname stdin) file
      { pc :=
          .openFile (pathname stdin) ((decimal id).length + 1)
            (request id stdin).length
        mtext := mtext }
      (replyTexts (pathname stdin) file) := by
  refine ⟨rfl, rfl, ?_, rfl, rest, by simp [isBytes]⟩
  rw [request, List.length_append, List.length_cons]
  omega

/-- What the kernel does with a call of a reply. -/
theorem Answering.replyCall
    {n qbytes : Nat}
    {mtype : Int}
    {files : List UInt8 → File}
    {queue after : List Message}
    {answer : Answer}
    (answering : Answering n path (files path) reply left)
    (positive : 1 ≤ mtype)
    (called :
      replyCall qbytes mtype files queue reply = some (answer, after)) :
    answer ≠ .notSent ∧
      (∀ found, answer = .found found → found = files path) ∧
      ∀ next texts,
        respond reply answer = some (next, texts) →
          after = queue ++ texts.map (mtype, ·) := by
  have isReady := answering.ready
  have notRefused : ¬ mtype < 1 := Int.not_lt.mpr positive
  obtain ⟨pc, mtext⟩ := reply
  cases pc with
  | openFile opened ptr count =>
      obtain ⟨rfl, -⟩ := answering
      simp only [SvMsg.replyCall, Option.some.injEq, Prod.mk.injEq]
        at called
      obtain ⟨rfl, rfl⟩ := called
      refine ⟨by simp, by simp, ?_⟩
      intro next texts responds
      cases isFile : files opened <;>
        simp [respond, isFile] at responds <;> simp [← responds.2]
  | readLine stream =>
      simp only [SvMsg.replyCall, Option.some.injEq, Prod.mk.injEq]
        at called
      obtain ⟨rfl, rfl⟩ := called
      refine ⟨by simp, by simp, ?_⟩
      intro next texts responds
      simp [respond] at responds
      simp [← responds.2]
  | sendError count | sendLine count stream =>
      simp only [SvMsg.replyCall, msgsnd, if_neg notRefused] at called
      split at called
      · simp only [Option.some.injEq, Prod.mk.injEq] at called
        obtain ⟨rfl, rfl⟩ := called
        refine ⟨by simp, by simp, ?_⟩
        intro next texts responds
        simp only [respond] at responds
        obtain ⟨-, ⟨-, rfl⟩ | ⟨isOther, -⟩⟩ := send_eq isReady responds
        · rfl
        · simp at isOther
      · simp at called
  | finished | faulted =>
      simp [SvMsg.replyCall] at called

/-- A reply that fits never leaves `mtext`. -/
theorem Answering.inMtext
    {n : Nat}
    {answer : Answer}
    (answering : Answering n path file reply left)
    (truthful : ∀ found, answer = .found found → found = file)
    (fits : file.Fits n) :
    InMtext (respondNul reply.pc answer) := by
  have stays : InMtext 0 := by decide
  obtain ⟨pc, mtext⟩ := reply
  cases pc with
  | openFile opened ptr count =>
      obtain ⟨-, rfl, -⟩ := answering
      cases answer with
      | found other =>
          obtain rfl := truthful other rfl
          cases other with
          | content bytes =>
              exact stays
          | missing strerror =>
              exact (inMtext_natCast _).mpr fits
      | received | failed | sent | notSent | forked | notForked | done =>
          exact stays
  | readLine stream =>
      obtain ⟨⟨bytes, past, rfl, isLines⟩, -⟩ := answering
      refine (inMtext_natCast _).mpr ?_
      cases isRest : linesOf stream with
      | nil =>
          exact Nat.zero_lt_succ _
      | cons line later =>
          apply fits
          rw [isLines, isRest]
          exact List.mem_append_right past List.mem_cons_self
  | sendError | sendLine | finished | faulted =>
      exact stays

/-- The text of a message comes from `mtext`. -/
theorem length_le_of_respond
    {answer : Answer}
    (isReady : reply.pc.Ready)
    (taken : respond reply answer = some (next, texts))
    (member : text ∈ texts) :
    text.length ≤ textSize := by
  obtain ⟨pc, mtext⟩ := reply
  cases pc with
  | sendError count | sendLine count stream =>
      simp only [respond] at taken
      obtain ⟨-, ⟨-, rfl⟩ | ⟨-, rfl⟩⟩ := send_eq isReady taken
      · obtain rfl := List.mem_singleton.mp member
        exact Nat.le_trans (List.length_take_le count _) isReady
      · simp at member
  | openFile | readLine =>
      simp only [respond] at taken
      split at taken <;> simp_all
  | finished | faulted =>
      simp [respond] at taken

/-- A file that cannot be opened is answered by its path and the error. -/
theorem cannotOpen_answers
    {ptr n : Nat}
    {mtext : Mtext}
    {rest : List UInt8}
    (strerror : ErrorText)
    (free : 0 ∉ path)
    (isCount : n = ptr + path.length)
    (isBytes : mtext.bytes.drop ptr = path ++ 0 :: rest) :
    Answering n path (.missing strerror)
      (cannotOpen ptr n strerror mtext)
      (replyTexts path (.missing strerror)) := by
  have counted := congrArg List.length isBytes
  have total := mtext.length_eq
  rw [List.length_drop, List.length_append, List.length_cons] at counted
  by_cases fits : n + (errorSuffix strerror).length < textSize
  · obtain ⟨printed, others, printedBytes, moves⟩ :=
      cannotOpen_eq ptr strerror mtext fits
    have isFront : ptr ≤ (mtext.bytes.take n).length := by
      rw [List.length_take]
      omega
    have isPath : (mtext.bytes.take n).drop ptr = path := by
      rw [List.drop_take, isBytes, isCount, Nat.add_sub_cancel_left,
        List.take_left]
    have isText :
        string? (printed.bytes.drop ptr) =
          some (path ++ errorSuffix strerror) := by
      rw [printedBytes, List.drop_append_of_le_length isFront, isPath,
        ← List.append_assoc]
      refine string?_append_nul ?_
      simp [free, not_mem_errorSuffix strerror]
    obtain ⟨next, moved, isShort, isMessage⟩ := moves _ isText
    rw [moved]
    exact ⟨isShort, by rw [isMessage, replyTexts]⟩
  · have isFault :=
      cannotOpen_overflows ptr strerror mtext (by omega) fits
    simp only [Answering, isFault]

/-- The next line is stored, or the reply is finished. -/
theorem readLine_answers
    {n : Nat}
    {stream : List UInt8}
    (path : List UInt8)
    (mtext : Mtext)
    (ends : file.EndsWith stream) :
    Answering n path file (readLine stream mtext)
      ((linesOf stream).map fun line => line.takeWhile (· ≠ 0)) := by
  obtain ⟨bytes, past, isFile, isLines⟩ := ends
  cases isStream : linesOf stream with
  | nil =>
      rw [linesOf_eq_nil_iff.mp isStream]
      rfl
  | cons line later =>
      by_cases fits : line.length < textSize
      · obtain ⟨next, rest, reads, isLater, isMessage⟩ :=
          readLine_eq mtext isStream fits
        rw [reads]
        refine ⟨⟨bytes, past ++ [line], isFile, ?_⟩, ?_, ?_⟩
        · rw [isLines, isStream, isLater, List.append_assoc]
          rfl
        · exact Nat.le_trans (List.takeWhile_prefix _).length_le
            (Nat.le_of_lt fits)
        · rw [isMessage, isLater, List.map_cons]
      · have isFault := readLine_overflows mtext isStream fits
        simp only [Answering, isFault]

/-- What a step of a reply sends is what it had to send first. -/
theorem respond_answers
    {n : Nat}
    {answer : Answer}
    (free : 0 ∉ path)
    (answering : Answering n path file reply left)
    (truthful : ∀ found, answer = .found found → found = file)
    (taken : respond reply answer = some (next, texts)) :
    ∃ sent later,
      Answering n path file next later ∧
        left = sent ++ later ∧
        (texts = sent ∨ answer = .notSent ∧ texts = []) := by
  obtain ⟨pc, mtext⟩ := reply
  cases pc with
  | openFile opened ptr count =>
      simp only [Answering] at answering
      obtain ⟨-, rfl, isCount, rfl, rest, isBytes⟩ := answering
      cases answer with
      | found other =>
          obtain rfl := truthful other rfl
          cases other with
          | content bytes =>
              simp only [respond, Option.some.injEq, Prod.mk.injEq] at taken
              obtain ⟨rfl, rfl⟩ := taken
              exact ⟨[], _, ⟨⟨bytes, [], rfl, rfl⟩, rfl⟩, rfl, .inl rfl⟩
          | missing strerror =>
              simp only [respond, Option.some.injEq, Prod.mk.injEq] at taken
              obtain ⟨rfl, rfl⟩ := taken
              exact ⟨[], _,
                cannotOpen_answers strerror free isCount isBytes, rfl,
                .inl rfl⟩
      | received | failed | sent | notSent | forked | notForked | done =>
          simp [respond] at taken
  | sendError count =>
      obtain ⟨inside, rfl⟩ := answering
      simp only [respond] at taken
      obtain ⟨rfl, outcome⟩ := send_eq inside taken
      refine ⟨_, [], rfl, (List.append_nil _).symm, ?_⟩
      exact outcome.imp And.right id
  | readLine stream =>
      obtain ⟨ends, rfl⟩ := answering
      cases answer with
      | done =>
          simp only [respond, Option.some.injEq, Prod.mk.injEq] at taken
          obtain ⟨rfl, rfl⟩ := taken
          exact ⟨[], _, readLine_answers path mtext ends, rfl, .inl rfl⟩
      | received | failed | found | sent | notSent | forked | notForked =>
          simp [respond] at taken
  | sendLine count stream =>
      obtain ⟨ends, inside, rfl⟩ := answering
      simp only [respond] at taken
      obtain ⟨rfl, outcome⟩ := send_eq inside taken
      refine ⟨[mtext.bytes.take count], _, ⟨ends, rfl⟩, rfl, ?_⟩
      exact outcome.imp And.right id
  | finished | faulted =>
      simp [respond] at taken

end Steps

end CsPrimer.SvMsg
