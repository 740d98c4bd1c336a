import CsPrimer.SvMsg.Reply

namespace CsPrimer.SvMsg

open Library

/-!
# What the steps of a reply do to the buffer

One lemma for each function: what it leaves in `mtext` as long as it stays
inside, and when it does not.
-/

variable
  {mtext : Mtext}
  {stream line path : List UInt8}
  {ptr n : Nat}

/-- The text of a message has less room than `MAXMSG` says. -/
theorem maxMsg_eq : maxMsg = textSize + 8 :=
  rfl

/-- A NUL behind the end of `mtext` is a fault. -/
theorem splitRequest_overflows
    (mtext : Mtext)
    (outside : textSize ≤ n) :
    splitRequest mtext n = .fault := by
  have stored : mtext.store? n [0] = none :=
    dif_neg (by rw [List.length_singleton]; omega)
  simp only [splitRequest, stored]

/-- A terminated request is split inside of it, or it is skipped. -/
theorem splitRequest_cases
    (mtext : Mtext)
    (inside : n < textSize) :
    (∃ next, splitRequest mtext n = .skipped next) ∨
      ∃ number path ptr next,
        splitRequest mtext n = .request number path ptr n next ∧
          ptr ≤ n := by
  obtain ⟨terminated, stored, rest, isBytes⟩ :=
    mtext.store?_holds n [0] (by rw [List.length_singleton]; omega)
  have total := mtext.length_eq
  have isFront : (mtext.bytes.take n).length = n := by
    rw [List.length_take]
    omega
  have isNul : terminated.bytes[n]? = some 0 := by
    rw [← isBytes, List.append_assoc,
      List.getElem?_append_right (by omega), isFront]
    simp
  obtain ⟨text, isText⟩ :=
    Option.isSome_iff_exists.mp
      (string?_isSome_iff.mpr (List.mem_of_getElem? isNul))
  have isShort := length_le_of_string? isText isNul
  cases isIndex : text.idxOf? space with
  | none =>
      exact .inl
        ⟨terminated, by simp only [splitRequest, stored, isText, isIndex]⟩
  | some index =>
      obtain ⟨before, after, rfl, rfl⟩ := eq_append_of_idxOf? isIndex
      obtain ⟨next, -, splits, -, isNumber, isPath⟩ := store?_splits isText
      refine .inr ⟨before, after, before.length + 1, next, ?_, ?_⟩
      · simp only [splitRequest, stored, isText, isIndex, splits, isNumber,
          isPath]
      · rw [List.length_append, List.length_cons] at isShort
        omega

/-- An error text that fits is printed behind the request. -/
theorem cannotOpen_eq
    (ptr : Nat)
    (strerror : ErrorText)
    (mtext : Mtext)
    (fits : n + (errorSuffix strerror).length < textSize) :
    ∃ (printed : Mtext) (rest : List UInt8),
      printed.bytes =
          mtext.bytes.take n ++ (errorSuffix strerror ++ 0 :: rest) ∧
        ∀ text, string? (printed.bytes.drop ptr) = some text →
          ∃ next,
            cannotOpen ptr n strerror mtext =
                { pc := .sendError text.length, mtext := next } ∧
              text.length ≤ textSize ∧
              next.bytes.take text.length = text := by
  have room := maxMsg_eq
  have whole :
      (errorSuffix strerror).take (maxMsg - n - 1) =
        errorSuffix strerror := by
    apply List.take_of_length_le
    omega
  obtain ⟨printed, stored, rest, isBytes⟩ :=
    mtext.store?_holds n (errorSuffix strerror ++ [0]) (by
      rw [List.length_append, List.length_singleton]
      omega)
  have prints :
      mtext.snprintf? n (maxMsg - n) (errorSuffix strerror) =
        some printed := by
    rw [Buffer.snprintf?, if_neg (by omega), whole, stored]
  refine ⟨printed, rest, by rw [← isBytes]; simp, ?_⟩
  intro text isText
  have isLength : text.length ≤ textSize := by
    obtain ⟨-, later, isLater⟩ := string?_eq_some_iff.mp isText
    have counted := congrArg List.length isLater
    have total := printed.length_eq
    rw [List.length_drop, List.length_append] at counted
    omega
  obtain ⟨next, moved, later, nextBytes⟩ :=
    (Buffer.Holds.nil printed).store List.length_nil text (by omega)
  refine ⟨next, ?_, isLength, ?_⟩
  · simp only [cannotOpen, prints, isText, moved]
  · rw [← nextBytes, List.nil_append, List.take_left]

/-- An error text that does not fit is a fault, although it is cut. -/
theorem cannotOpen_overflows
    (ptr : Nat)
    (strerror : ErrorText)
    (mtext : Mtext)
    (inside : n < textSize)
    (overflows : ¬ n + (errorSuffix strerror).length < textSize) :
    (cannotOpen ptr n strerror mtext).pc = .faulted := by
  have room := maxMsg_eq
  have outside :
      ¬ n + ((errorSuffix strerror).take (maxMsg - n - 1) ++ [0]).length ≤
        textSize := by
    rw [List.length_append, List.length_take, List.length_singleton]
    omega
  have prints :
      mtext.snprintf? n (maxMsg - n) (errorSuffix strerror) = none := by
    rw [Buffer.snprintf?, if_neg (by omega), Buffer.store?, dif_neg outside]
  simp only [cannotOpen, prints]

theorem readLine_nil (mtext : Mtext) :
    readLine [] mtext = { pc := .finished, mtext := mtext } :=
  rfl

/-- What `fgets` stores of a stream that has not ended. -/
theorem fgets_cons
    {later : List (List UInt8)}
    (isLines : linesOf stream = line :: later) :
    ∃ char chars rest,
      fgets (maxMsg - 1) stream = (char :: chars, rest) ∧
        char :: chars = line.take (maxMsg - 1) ∧
        (line.length < textSize →
          char :: chars = line ∧ linesOf rest = later) := by
  have room := maxMsg_eq
  obtain ⟨stored, follows⟩ := fgets_of_linesOf (maxMsg - 1) isLines
  have notEmpty : line ≠ [] :=
    ne_nil_of_mem_linesOf (isLines ▸ List.mem_cons_self)
  obtain ⟨char, chars, shape⟩ := List.exists_cons_of_ne_nil
    (by rw [stored]; simpa using notEmpty :
      (fgets (maxMsg - 1) stream).1 ≠ [])
  refine ⟨char, chars, (fgets (maxMsg - 1) stream).2, ?_, ?_, ?_⟩
  · rw [← shape]
  · rw [← shape, stored]
  · intro fits
    refine ⟨?_, follows (by omega)⟩
    rw [← shape, stored, List.take_of_length_le (by omega)]

/-- A line that fits is stored, and sent up to its first NUL. -/
theorem readLine_eq
    {later : List (List UInt8)}
    (mtext : Mtext)
    (isLines : linesOf stream = line :: later)
    (fits : line.length < textSize) :
    ∃ next rest,
      readLine stream mtext =
          { pc := .sendLine (line.takeWhile (· ≠ 0)).length rest
            mtext := next } ∧
        linesOf rest = later ∧
        next.bytes.take (line.takeWhile (· ≠ 0)).length =
          line.takeWhile (· ≠ 0) := by
  obtain ⟨char, chars, rest, read, -, whole⟩ := fgets_cons isLines
  obtain ⟨rfl, isLater⟩ := whole fits
  obtain ⟨next, stored, others, isBytes⟩ :=
    (Buffer.Holds.nil mtext).store List.length_nil (char :: chars ++ [0])
      (by
        rw [List.length_append, List.length_singleton]
        omega)
  have nextBytes : next.bytes = char :: chars ++ 0 :: others := by
    rw [← isBytes]
    simp
  have isText :
      string? next.bytes = some ((char :: chars).takeWhile (· ≠ 0)) := by
    rw [nextBytes]
    exact string?_terminated (char :: chars) others
  refine ⟨next, rest, ?_, isLater, ?_⟩
  · simp only [readLine, read, stored, isText]
  · obtain ⟨-, others, isBytes⟩ := string?_eq_some_iff.mp isText
    rw [isBytes, List.take_left]

/-- A line that does not fit is a fault. -/
theorem readLine_overflows
    {later : List (List UInt8)}
    (mtext : Mtext)
    (isLines : linesOf stream = line :: later)
    (overflows : ¬ line.length < textSize) :
    (readLine stream mtext).pc = .faulted := by
  have room := maxMsg_eq
  obtain ⟨char, chars, rest, read, isLine, -⟩ := fgets_cons isLines
  have stored : mtext.store? 0 (char :: chars ++ [0]) = none := by
    refine dif_neg ?_
    rw [isLine, List.length_append, List.length_take, List.length_singleton]
    omega
  simp only [readLine, read, stored]

/-- A `msgsnd` reads from `mtext` only. -/
theorem send_eq
    {next : ReplyPc}
    {reply later : Reply}
    {answer : Answer}
    {texts : List (List UInt8)}
    (inside : n ≤ textSize)
    (taken : send n next reply answer = some (later, texts)) :
    later = { reply with pc := next } ∧
      (answer = .sent ∧ texts = [reply.mtext.bytes.take n] ∨
        answer = .notSent ∧ texts = []) := by
  have loaded : reply.mtext.load? 0 n = some (reply.mtext.bytes.take n) :=
    Buffer.load?_front inside
  cases answer with
  | sent =>
      simp only [send, loaded, Option.some.injEq, Prod.mk.injEq] at taken
      exact ⟨taken.1.symm, .inl ⟨rfl, taken.2.symm⟩⟩
  | notSent =>
      simp only [send, Option.some.injEq, Prod.mk.injEq] at taken
      exact ⟨taken.1.symm, .inr ⟨rfl, taken.2.symm⟩⟩
  | received | failed | found | forked | notForked | done =>
      simp [send] at taken

end CsPrimer.SvMsg
