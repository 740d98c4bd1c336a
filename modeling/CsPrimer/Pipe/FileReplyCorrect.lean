import CsPrimer.Pipe.FileReply

namespace CsPrimer.Pipe

open Library

/-!
# What the client prints of a file

The header travels with its terminating NUL, and the client prints each piece
up to its first NUL.
-/

variable
  {content : List UInt8}
  {chunks pieces : List (List UInt8)}

/-- The reads of a stream that ends after some pieces. -/
def readsOf (pieces : List (List UInt8)) : List ReadResult :=
  pieces.map .data ++ [.endOfFile]

/-- All pieces fit in the buffer with a NUL behind them. -/
def Short (pieces : List (List UInt8)) : Prop :=
  ∀ piece ∈ pieces, piece.length < maxSize

/-- No piece goes on behind a NUL. -/
def NulLast (pieces : List (List UInt8)) : Prop :=
  ∀ piece ∈ pieces, 0 ∈ piece → piece.getLast? = some 0

/-- The server writes every chunk it has read. -/
theorem copyFile_readsOf
    (buf : Buffer (maxSize + 1))
    (cut : Cut maxSize content chunks) :
    copyFile buf (readsOf chunks) = some chunks := by
  induction chunks generalizing buf content with
  | nil =>
      rfl
  | cons chunk rest inductionHypothesis =>
      obtain ⟨-, bounded, later, rfl, cutLater⟩ := Cut.cons_iff.mp cut
      obtain ⟨next, stored, holds⟩ :=
        (Buffer.Holds.nil buf).store List.length_nil chunk (by
          simp only [maxSize] at *
          omega)
      have loaded : next.load? 0 chunk.length = some chunk := by
        have loading := holds.load 0 chunk.length (by simp)
        rwa [List.nil_append, List.drop_zero, List.take_length] at loading
      have copied := inductionHypothesis next cutLater
      rw [readsOf] at copied
      simp only [readsOf, List.map_cons, List.cons_append, copyFile, stored,
        loaded, copied, Option.bind_some, Option.map_some]

/-- What `fputs` prints of a piece. -/
def printed (piece : List UInt8) : List UInt8 :=
  piece.takeWhile (· ≠ 0)

/-- A piece is printed if it leaves room for the NUL behind it. -/
theorem printReply_short
    {piece : List UInt8}
    (results : List ReadResult)
    (buf : Buffer maxSize)
    (short : piece.length < maxSize) :
    ∃ next,
      printReply buf (.data piece :: results) =
        (printReply next results).map (printed piece ++ ·) := by
  obtain ⟨filled, storedPiece, filledHolds⟩ :=
    (Buffer.Holds.nil buf).store List.length_nil piece (by omega)
  obtain ⟨terminated, storedNul, terminatedHolds⟩ :=
    filledHolds.store rfl [0] (by
      rw [List.length_singleton]
      exact short)
  rw [List.nil_append] at storedNul terminatedHolds
  obtain ⟨rest, isBytes⟩ := terminatedHolds
  have isText : string? terminated.bytes = some (printed piece) := by
    rw [← isBytes, List.append_assoc]
    exact string?_terminated piece rest
  refine ⟨terminated, ?_⟩
  simp only [printReply, storedPiece, storedNul, isText, Option.bind_some]

/-- A piece that fills the buffer has no room for the NUL behind it. -/
theorem printReply_long
    {piece : List UInt8}
    (results : List ReadResult)
    (buf : Buffer maxSize)
    (long : maxSize ≤ piece.length) :
    printReply buf (.data piece :: results) = none := by
  rw [printReply]
  cases filled : buf.store? 0 piece with
  | none =>
      rfl
  | some next =>
      have outside : next.store? piece.length [0] = none := by
        rw [Buffer.store?, dif_neg]
        simp only [List.length_singleton]
        omega
      rw [Option.bind_some, outside, Option.bind_none]

/-- The client prints something exactly if all pieces are short. -/
theorem printReply_readsOf
    {output : List UInt8}
    (buf : Buffer maxSize) :
    printReply buf (readsOf pieces) = some output ↔
      Short pieces ∧ output = pieces.flatMap printed := by
  induction pieces generalizing buf output with
  | nil =>
      simp [readsOf, printReply, Short, eq_comm]
  | cons piece rest inductionHypothesis =>
      rw [readsOf, List.map_cons, List.cons_append, ← readsOf]
      by_cases short : piece.length < maxSize
      · obtain ⟨next, isPrinted⟩ :=
          printReply_short (readsOf rest) buf short
        rw [isPrinted, Option.map_eq_some_iff]
        simp only [inductionHypothesis, Short, List.forall_mem_cons,
          List.flatMap_cons]
        constructor
        · rintro ⟨later, ⟨shortRest, rfl⟩, rfl⟩
          exact ⟨⟨short, shortRest⟩, rfl⟩
        · rintro ⟨⟨-, shortRest⟩, rfl⟩
          exact ⟨_, ⟨shortRest, rfl⟩, rfl⟩
      · rw [printReply_long _ buf (Nat.le_of_not_lt short)]
        simp [Short, short]

/-- What is printed of a piece leaves out its NULs, at least. -/
theorem printed_sublist (piece : List UInt8) :
    (printed piece).Sublist (piece.filter (· ≠ 0)) := by
  have kept : (printed piece).filter (· ≠ 0) = printed piece :=
    List.filter_eq_self.mpr (List.all_eq_true.mp List.all_takeWhile)
  have filtered :=
    (List.takeWhile_sublist (l := piece) (· ≠ (0 : UInt8))).filter (· ≠ 0)
  rwa [← printed, kept] at filtered

theorem flatMap_printed_sublist (pieces : List (List UInt8)) :
    (pieces.flatMap printed).Sublist (pieces.flatten.filter (· ≠ 0)) := by
  induction pieces with
  | nil =>
      exact List.Sublist.refl []
  | cons piece rest inductionHypothesis =>
      rw [List.flatMap_cons, List.flatten_cons, List.filter_append]
      exact (printed_sublist piece).append inductionHypothesis

/-- Only a piece that ends with its NUL is printed as a whole. -/
theorem printed_eq_filter_iff
    {piece : List UInt8}
    (once : piece.count 0 ≤ 1) :
    printed piece = piece.filter (· ≠ 0) ↔
      (0 ∈ piece → piece.getLast? = some 0) := by
  induction piece with
  | nil =>
      simp [printed]
  | cons char rest inductionHypothesis =>
      by_cases isNul : char = 0
      · subst isNul
        have free : 0 ∉ rest := by
          rw [List.count_cons_self] at once
          exact List.count_eq_zero.mp (by omega)
        have kept : rest.filter (· ≠ 0) = rest := by
          refine List.filter_eq_self.mpr fun other member => ?_
          exact decide_eq_true fun isNul => free (isNul ▸ member)
        cases rest with
        | nil =>
            simp [printed]
        | cons other later =>
            have notLast : (other :: later).getLast? ≠ some 0 :=
              fun isLast => free (List.mem_of_getLast? isLast)
            rw [List.filter_cons_of_neg (by decide), kept,
              List.getLast?_cons_cons]
            simp [printed, notLast]
      · have onceRest : rest.count 0 ≤ 1 := by
          rwa [List.count_cons_of_ne isNul] at once
        have ofRest := inductionHypothesis onceRest
        have isPrinted : printed (char :: rest) = char :: printed rest := by
          simp [printed, isNul]
        rw [isPrinted, List.filter_cons_of_pos (by simpa using isNul),
          List.cons.injEq, ofRest]
        cases rest with
        | nil =>
            simp [Ne.symm isNul]
        | cons other later =>
            rw [List.getLast?_cons_cons]
            simp [Ne.symm isNul]

/-- Nothing is lost exactly if no piece goes on behind a NUL. -/
theorem flatMap_printed_eq_iff
    (once : pieces.flatten.count 0 ≤ 1) :
    pieces.flatMap printed = pieces.flatten.filter (· ≠ 0) ↔
      NulLast pieces := by
  induction pieces with
  | nil =>
      simp [NulLast]
  | cons piece rest inductionHypothesis =>
      rw [List.flatten_cons, List.count_append] at once
      have ofPiece := printed_eq_filter_iff (by omega : piece.count 0 ≤ 1)
      have ofRest := inductionHypothesis (by omega)
      rw [List.flatMap_cons, List.flatten_cons, List.filter_append, NulLast,
        List.forall_mem_cons, ← NulLast, ← ofPiece, ← ofRest]
      constructor
      · intro same
        have lengths := congrArg List.length same
        rw [List.length_append, List.length_append] at lengths
        have atMost := (printed_sublist piece).length_le
        have restAtMost := (flatMap_printed_sublist rest).length_le
        have samePiece :=
          (printed_sublist piece).eq_of_length (by omega)
        exact ⟨samePiece, List.append_cancel_left (samePiece ▸ same)⟩
      · rintro ⟨samePiece, sameRest⟩
        rw [samePiece, sameRest]

namespace Program

/-- The bytes a server sends for a file. -/
def sent (program : Program) (content : List UInt8) : List UInt8 :=
  program.header ++ 0 :: content ++ program.trailer

/-- What the user should see of a file. -/
def shown (program : Program) (content : List UInt8) : List UInt8 :=
  program.header ++ content ++ program.trailer

/-- Neither the header nor the trailer contains a NUL. -/
theorem nul_not_mem (program : Program) :
    0 ∉ program.header ∧ 0 ∉ program.trailer := by
  cases program with
  | pipe =>
      decide
  | fifo =>
      decide

/-- The server sends the header, the file and the trailer. -/
theorem server_readsOf
    (program : Program)
    (buf : Buffer (maxSize + 1))
    (cut : Cut maxSize content chunks) :
    ∃ writes,
      program.server buf (readsOf chunks) = some writes ∧
        writes.flatten = program.sent content := by
  have copied := copyFile_readsOf buf cut
  cases program with
  | pipe =>
      refine ⟨(pipe.header ++ [0]) :: chunks ++ [pipe.trailer], ?_, ?_⟩
      · rw [server, pipeServer, copied, Option.map_some]
      · simp [sent, cut.whole]
  | fifo =>
      refine ⟨(fifo.header ++ [0]) :: chunks, ?_, ?_⟩
      · rw [server, fifoServer, copied, Option.map_some]
      · simp [sent, cut.whole, trailer]

/-- The NUL of the header is the only byte that is not to be shown. -/
theorem filter_sent
    (program : Program)
    (free : 0 ∉ content) :
    (program.sent content).count 0 = 1 ∧
      (program.sent content).filter (· ≠ 0) = program.shown content := by
  obtain ⟨headerFree, trailerFree⟩ := program.nul_not_mem
  have kept :
      ∀ bytes : List UInt8, 0 ∉ bytes → bytes.filter (· ≠ 0) = bytes := by
    intro bytes bytesFree
    refine List.filter_eq_self.mpr fun byte member => ?_
    exact decide_eq_true fun isNul => bytesFree (isNul ▸ member)
  constructor
  · simp [sent, List.count_eq_zero.mpr headerFree,
      List.count_eq_zero.mpr trailerFree, List.count_eq_zero.mpr free]
  · rw [sent, shown, List.append_assoc, List.filter_append,
      List.cons_append, List.filter_cons_of_neg (by decide),
      List.filter_append, kept _ headerFree, kept _ free,
      kept _ trailerFree, List.append_assoc]

end Program

/--
`pipe.c` and the FIFO pair, for every file without NUL bytes, however the
server's reads cut the file and the client's reads cut the reply: the client
prints the header, the whole file and the trailer, and stores each NUL inside
`buf`, exactly if every piece is shorter than the buffer and no piece goes on
behind the NUL of the header.
-/
theorem printReply_faithful_iff
    (program : Program)
    (servBuf : Buffer (maxSize + 1))
    (buf : Buffer maxSize)
    (free : 0 ∉ content)
    (cutFile : Cut maxSize content chunks) :
    ∃ writes,
      program.server servBuf (readsOf chunks) = some writes ∧
        ∀ pieces, Cut maxSize writes.flatten pieces →
          (printReply buf (readsOf pieces) =
              some (program.shown content) ↔
            Short pieces ∧ NulLast pieces) := by
  obtain ⟨writes, served, isSent⟩ := program.server_readsOf servBuf cutFile
  refine ⟨writes, served, fun pieces cut => ?_⟩
  obtain ⟨once, isShown⟩ := program.filter_sent free
  rw [← isSent, ← cut.whole] at once isShown
  rw [printReply_readsOf, ← isShown, eq_comm (b := pieces.flatMap printed),
    flatMap_printed_eq_iff (Nat.le_of_eq once)]

/-- A reply whose header and file arrive in two pieces. -/
theorem printReply_faithful_iff_headerFirst :
    printReply ⟨List.replicate maxSize 7, List.length_replicate⟩
        [.data (Program.fifo.header ++ [0]), .data (ascii "ab\n"),
          .endOfFile] =
      some (Program.fifo.header ++ ascii "ab\n") := by
  obtain ⟨writes, served, faithful⟩ :=
    printReply_faithful_iff .fifo
      ⟨List.replicate (maxSize + 1) 7, List.length_replicate⟩
      ⟨List.replicate maxSize 7, List.length_replicate⟩
      (by decide : 0 ∉ ascii "ab\n")
      (⟨by decide, by decide⟩ :
        Cut maxSize (ascii "ab\n") [ascii "ab", ascii "\n"])
  obtain rfl : writes =
      [Program.fifo.header ++ [0], ascii "ab", ascii "\n"] := by
    have isServed :
        Program.fifo.server
            ⟨List.replicate (maxSize + 1) 7, List.length_replicate⟩
            (readsOf [ascii "ab", ascii "\n"]) =
          some [Program.fifo.header ++ [0], ascii "ab", ascii "\n"] := by
      decide +kernel
    exact Option.some.inj (served.symm.trans isServed)
  exact (faithful [Program.fifo.header ++ [0], ascii "ab\n"]
    ⟨by decide, by decide⟩).mpr
      ⟨by unfold Short; decide, by unfold NulLast; decide⟩

/-- The client shows every file, however its reply is delivered. -/
def Faithful (program : Program) : Prop :=
  ∀ (content : List UInt8) (chunks : List (List UInt8))
    (servBuf : Buffer (maxSize + 1)) (buf : Buffer maxSize),
    0 ∉ content → Cut maxSize content chunks →
      ∃ writes,
        program.server servBuf (readsOf chunks) = some writes ∧
          ∀ pieces, Cut maxSize writes.flatten pieces →
            printReply buf (readsOf pieces) = some (program.shown content)

/--
A reply with a file of one byte that arrives in one piece: the client prints
the header and nothing else.
-/
theorem printReply_not_faithful :
    ¬ Faithful .pipe ∧ ¬ Faithful .fifo := by
  have refuted : ∀ program, ¬ Faithful program := by
    intro program faithful
    obtain ⟨writes, served, shows⟩ :=
      faithful [120] [[120]]
        ⟨List.replicate (maxSize + 1) 0, List.length_replicate⟩
        ⟨List.replicate maxSize 0, List.length_replicate⟩
        (by decide) ⟨by decide, by decide⟩
    obtain ⟨_, servedAgain, isSent⟩ :=
      program.server_readsOf
        ⟨List.replicate (maxSize + 1) 0, List.length_replicate⟩
        (⟨by decide, by decide⟩ : Cut maxSize [120] [[120]])
    obtain rfl := Option.some.inj (servedAgain.symm.trans served)
    have inOnePiece :
        Cut maxSize (program.sent [120]) [program.sent [120]] := by
      cases program <;> exact ⟨by decide, by decide⟩
    have isShown :
        program.shown [120] = [program.sent [120]].flatMap printed :=
      ((printReply_readsOf _).mp (shows _ (isSent ▸ inOnePiece))).2
    revert isShown
    clear * -
    cases program <;> decide
  exact ⟨refuted .pipe, refuted .fifo⟩

end CsPrimer.Pipe
