import CsPrimer.Pipe.FileReplyCorrect

namespace CsPrimer.Pipe

open Library

/-!
# `fifo.c`: the reply as strings

The server of `fifo.c` writes what its buffer holds as a string, not the number
of bytes it has read, so what stands behind a chunk decides how much of it is
written.  What `open` and `strerror` yield are arguments.
-/

namespace Text

/-- What the server of `fifo.c` has done when it ends. -/
inductive Outcome where
  | errorHandler (message : List UInt8)
  | wrote (writes : List (List UInt8))
  deriving Repr, DecidableEq

/-- The header of a file. -/
def header : List UInt8 :=
  ascii "context of file: \n"

/--
`while((n = read(fd, buf, MAXSIZE)) > 0) write(writefd, buf, strlen(buf));`,
the bytes of each write.
-/
def copyFile
    (buf : Buffer (maxSize + 1)) :
    List ReadResult → Option (List (List UInt8))
  | .data bytes :: results =>
      (buf.store? 0 bytes).bind fun buf =>
        (string? buf.bytes).bind fun text =>
          (copyFile buf results).map (text :: ·)
  | _ =>
      some []

/-- The reply to a pathname of `n` bytes that stands in the buffer. -/
def reply
    (openFile : List UInt8 → Option (List ReadResult))
    (strerror : List UInt8)
    (buf : Buffer (maxSize + 1))
    (n : Nat) :
    Option (List (List UInt8)) := do
  let pathname ← string? buf.bytes
  match openFile pathname with
  | none =>
      let buf ← buf.snprintf? n (maxSize + 1 - n)
        (ascii ": can't open, " ++ strerror ++ ascii "\n")
      let text ← string? buf.bytes
      some [text]
  | some results =>
      let buf ← buf.snprintf? 0 (maxSize + 1) header
      let text ← string? buf.bytes
      let texts ← copyFile buf results
      some (text :: texts ++ [ascii "\n"])

/-- `server`; a store outside of `buf` has no outcome. -/
def server
    (openFile : List UInt8 → Option (List ReadResult))
    (strerror : List UInt8)
    (buf : Buffer (maxSize + 1)) :
    ReadResult → Option Outcome
  | .endOfFile =>
      some (.errorHandler (ascii "end-of-file while reading pathname"))
  | .error =>
      none
  | .data bytes => do
      let buf ← buf.store? 0 bytes
      let buf ← buf.store? bytes.length [0]
      let writes ← reply openFile strerror buf bytes.length
      some (.wrote writes)

variable
  {buf next : Buffer (maxSize + 1)}
  {chunk content memory rest text : List UInt8}
  {chunks texts : List (List UInt8)}

/-- The string at the start of some memory goes on behind a text. -/
theorem length_le_of_string?_append
    (free : 0 ∉ chunk)
    (isText : string? (chunk ++ rest) = some text) :
    chunk.length ≤ text.length := by
  obtain ⟨-, behind, split⟩ := string?_eq_some_iff.mp isText
  by_contra shorter
  have isNul : (chunk ++ rest)[text.length]? = some 0 := by
    rw [split, List.getElem?_append_right (Nat.le_refl _), Nat.sub_self]
    rfl
  rw [List.getElem?_append_left (Nat.not_le.mp shorter)] at isNul
  exact free (List.mem_of_getElem? isNul)

/-- A text is the string exactly if a NUL stands behind it. -/
theorem string?_append_eq_self_iff
    (free : 0 ∉ chunk) :
    string? (chunk ++ rest) = some chunk ↔ rest[0]? = some 0 := by
  constructor
  · intro isText
    obtain ⟨-, behind, split⟩ := string?_eq_some_iff.mp isText
    rw [List.append_cancel_left split]
    rfl
  · intro isNul
    cases rest with
    | nil => cases isNul
    | cons byte behind =>
        obtain rfl := Option.some.inj isNul
        exact string?_append_nul free

/-- Where a NUL stands after a chunk has been stored. -/
theorem nul_behind_iff
    {position : Nat}
    (free : 0 ∉ chunk) :
    (chunk ++ memory.drop chunk.length)[position]? = some 0 ↔
      chunk.length ≤ position ∧ memory[position]? = some 0 := by
  by_cases inside : position < chunk.length
  · rw [List.getElem?_append_left inside]
    constructor
    · intro isNul
      exact absurd (List.mem_of_getElem? isNul) free
    · rintro ⟨behind, -⟩
      exact absurd inside (Nat.not_lt.mpr behind)
  · have behind := Nat.not_lt.mp inside
    rw [List.getElem?_append_right behind, List.getElem?_drop,
      Nat.add_sub_cancel' behind]
    exact (and_iff_right behind).symm

/--
Each chunk ends where the buffer holds a NUL, and no chunk is shorter than an
earlier one.
-/
def EndAtNul
    (memory : List UInt8)
    (chunks : List (List UInt8)) : Prop :=
  (∀ chunk ∈ chunks, memory[chunk.length]? = some 0) ∧
    (chunks.map List.length).Pairwise (· ≤ ·)

/-- The first chunk moves the start of what the later ones find. -/
theorem endAtNul_cons_iff
    (free : 0 ∉ chunk) :
    EndAtNul memory (chunk :: chunks) ↔
      memory[chunk.length]? = some 0 ∧
        EndAtNul (chunk ++ memory.drop chunk.length) chunks := by
  simp only [EndAtNul, nul_behind_iff free, List.forall_mem_cons,
    List.map_cons, List.pairwise_cons, List.forall_mem_map]
  constructor
  · rintro ⟨⟨atFirst, atLater⟩, notShorter, increasing⟩
    exact ⟨atFirst,
      fun later member => ⟨notShorter later member, atLater later member⟩,
      increasing⟩
  · rintro ⟨atFirst, later, increasing⟩
    exact ⟨⟨atFirst, fun chunk member => (later chunk member).2⟩,
      fun chunk member => (later chunk member).1, increasing⟩

/-- One round of the loop, for a chunk that fits in the buffer. -/
theorem exists_copyFile_cons
    (buf : Buffer (maxSize + 1))
    (results : List ReadResult)
    (fits : chunk.length ≤ maxSize) :
    ∃ next : Buffer (maxSize + 1),
      next.bytes = chunk ++ buf.bytes.drop chunk.length ∧
        copyFile buf (.data chunk :: results) =
          (string? next.bytes).bind fun text =>
            (copyFile next results).map (text :: ·) := by
  obtain ⟨next, stored, isBytes⟩ :=
    buf.exists_store? 0 chunk (by omega)
  rw [List.take_zero, List.nil_append, Nat.zero_add] at isBytes
  exact ⟨next, isBytes, by rw [copyFile, stored, Option.bind_some]⟩

/-- No chunk is cut short. -/
theorem length_le_of_copyFile
    (cut : Cut maxSize content chunks)
    (free : 0 ∉ content)
    (copied : copyFile buf (readsOf chunks) = some texts) :
    content.length ≤ texts.flatten.length := by
  induction chunks generalizing buf content texts with
  | nil =>
      rw [Cut.nil_iff.mp cut]
      exact Nat.zero_le _
  | cons chunk chunks inductionHypothesis =>
      obtain ⟨-, bounded, later, rfl, cutLater⟩ := Cut.cons_iff.mp cut
      rw [List.mem_append, not_or] at free
      obtain ⟨chunkFree, laterFree⟩ := free
      obtain ⟨next, isBytes, round⟩ :=
        exists_copyFile_cons buf (readsOf chunks) bounded
      obtain ⟨text, isText, rest⟩ :=
        Option.bind_eq_some_iff.mp (round.symm.trans copied)
      obtain ⟨others, copiedLater, rfl⟩ := Option.map_eq_some_iff.mp rest
      have firstLength :=
        length_le_of_string?_append chunkFree (isBytes ▸ isText)
      have laterLength :=
        inductionHypothesis cutLater laterFree copiedLater
      rw [List.flatten_cons, List.length_append, List.length_append]
      exact Nat.add_le_add firstLength laterLength

/-- The loop copies a file exactly if every chunk ends at a NUL. -/
theorem copyFile_iff
    (buf : Buffer (maxSize + 1))
    (cut : Cut maxSize content chunks)
    (free : 0 ∉ content) :
    (∃ texts,
      copyFile buf (readsOf chunks) = some texts ∧
        texts.flatten = content) ↔
      EndAtNul buf.bytes chunks := by
  induction chunks generalizing buf content with
  | nil =>
      obtain rfl := Cut.nil_iff.mp cut
      simp [readsOf, copyFile, EndAtNul]
  | cons chunk chunks inductionHypothesis =>
      obtain ⟨-, bounded, later, rfl, cutLater⟩ := Cut.cons_iff.mp cut
      rw [List.mem_append, not_or] at free
      obtain ⟨chunkFree, laterFree⟩ := free
      obtain ⟨next, isBytes, round⟩ :=
        exists_copyFile_cons buf (readsOf chunks) bounded
      rw [endAtNul_cons_iff chunkFree, ← isBytes,
        ← inductionHypothesis next cutLater laterFree]
      constructor
      · rintro ⟨texts, copied, isContent⟩
        obtain ⟨text, isText, rest⟩ :=
          Option.bind_eq_some_iff.mp (round.symm.trans copied)
        obtain ⟨others, copiedLater, rfl⟩ := Option.map_eq_some_iff.mp rest
        have laterLength :=
          length_le_of_copyFile cutLater laterFree copiedLater
        have firstLength :=
          length_le_of_string?_append chunkFree (isBytes ▸ isText)
        have lengths := congrArg List.length isContent
        rw [List.flatten_cons, List.length_append,
          List.length_append] at lengths
        obtain ⟨rfl, isLater⟩ :=
          List.append_inj isContent (by omega : text.length = chunk.length)
        refine ⟨?_, others, copiedLater, isLater⟩
        rw [isBytes, string?_append_eq_self_iff chunkFree,
          List.getElem?_drop] at isText
        exact isText
      · rintro ⟨atNul, others, copiedLater, isLater⟩
        have isText : string? next.bytes = some chunk := by
          rw [isBytes, string?_append_eq_self_iff chunkFree,
            List.getElem?_drop]
          exact atNul
        refine ⟨chunk :: others, ?_, by rw [List.flatten_cons, isLater]⟩
        rw [readsOf] at copiedLater round
        rw [readsOf, List.map_cons, List.cons_append, round, isText,
          Option.bind_some, copiedLater, Option.map_some]

/-- The bytes of the buffer when the pathname has been read. -/
def withPathname
    (stack : Buffer (maxSize + 1))
    (pathname : List UInt8) : List UInt8 :=
  pathname ++ 0 :: stack.bytes.drop (pathname.length + 1)

/-- A NUL that the header, the pathname or the stack have left behind. -/
def NulLeft
    (stack : Buffer (maxSize + 1))
    (pathname : List UInt8)
    (position : Nat) : Prop :=
  position = header.length ∨
    header.length < position ∧
      (withPathname stack pathname)[position]? = some 0

theorem nul_not_mem_header : 0 ∉ header := by
  decide

/-- Where a NUL stands behind the header. -/
theorem headed_nul_iff
    {stack : Buffer (maxSize + 1)}
    {pathname : List UInt8}
    {position : Nat} :
    (header ++ 0 ::
        (withPathname stack pathname).drop (header.length + 1))[position]? =
      some 0 ↔ NulLeft stack pathname position := by
  unfold NulLeft
  rcases Nat.lt_trichotomy position header.length with before | rfl | behind
  · rw [List.getElem?_append_left before]
    constructor
    · intro isNul
      exact absurd (List.mem_of_getElem? isNul) nul_not_mem_header
    · omega
  · simp
  · rw [List.getElem?_append_right (Nat.le_of_lt behind)]
    obtain ⟨more, rfl⟩ := Nat.exists_eq_add_of_lt behind
    have isDropped :
        (header.length + more + 1 - header.length) = more + 1 := by
      omega
    rw [isDropped, List.getElem?_cons_succ, List.getElem?_drop,
      Nat.add_right_comm]
    have isBehind : header.length + more + 1 ≠ header.length := by omega
    simp only [isBehind, behind, false_or, true_and]

variable
  {openFile : List UInt8 → Option (List ReadResult)}
  {results : List ReadResult}
  {stack : Buffer (maxSize + 1)}
  {pathname : List UInt8}

/-- The reply to a pathname that can be opened. -/
theorem exists_server_eq
    (strerror : List UInt8)
    (stack : Buffer (maxSize + 1))
    (bounded : pathname.length ≤ maxSize)
    (opens : openFile (pathname.takeWhile (· ≠ 0)) = some results) :
    ∃ headed : Buffer (maxSize + 1),
      headed.bytes =
          header ++
            0 :: (withPathname stack pathname).drop (header.length + 1) ∧
        server openFile strerror stack (.data pathname) =
          (copyFile headed results).map fun texts =>
            .wrote (header :: texts ++ [ascii "\n"]) := by
  obtain ⟨first, storedPathname, isFirst⟩ :=
    stack.exists_store? 0 pathname (by omega)
  obtain ⟨second, storedNul, isSecond⟩ :=
    first.exists_store? pathname.length [0]
      (by rw [List.length_singleton]; omega)
  obtain ⟨headed, storedHeader, isHeaded⟩ :=
    second.exists_store? 0 (header ++ [0]) (by decide)
  rw [List.take_zero, List.nil_append, Nat.zero_add] at isFirst isHeaded
  have isPathname : second.bytes = withPathname stack pathname := by
    rw [isSecond, isFirst, List.take_left, List.append_assoc,
      List.length_singleton, List.drop_append,
      List.drop_of_length_le (Nat.le_succ _), List.drop_drop,
      List.nil_append, Nat.add_sub_cancel_left]
    rfl
  rw [List.append_assoc, List.singleton_append, isPathname,
    List.length_append, List.length_singleton] at isHeaded
  refine ⟨headed, isHeaded, ?_⟩
  have isOpened : string? second.bytes = some (pathname.takeWhile (· ≠ 0)) := by
    rw [isPathname, withPathname, string?_terminated]
  have isHeader : string? headed.bytes = some header := by
    rw [isHeaded]
    exact string?_append_nul nul_not_mem_header
  have printed :
      second.snprintf? 0 (maxSize + 1) header = some headed := by
    rw [Buffer.snprintf?, if_neg (by decide),
      List.take_of_length_le (by decide),
      storedHeader]
  simp only [server, reply, storedPathname, storedNul, isOpened, opens, printed,
    isHeader, Option.bind_eq_bind, Option.bind_some]
  cases copyFile headed results with
  | none => rfl
  | some texts => rfl

/-- The server writes the header, a file and a newline, and nothing else. -/
def Transfers
    (openFile : List UInt8 → Option (List ReadResult))
    (strerror : List UInt8)
    (stack : Buffer (maxSize + 1))
    (pathname content : List UInt8) : Prop :=
  ∃ writes,
    server openFile strerror stack (.data pathname) =
        some (.wrote writes) ∧
      writes.flatten = header ++ content ++ ascii "\n"

/--
`fifo.c`, for every file without NUL bytes, however the reads cut it: the
server transfers the file exactly if no chunk is shorter than an earlier one
and each chunk ends where the header, the pathname or the former content of the
stack has left a NUL in the buffer.
-/
theorem server_transfers_iff
    (strerror : List UInt8)
    (stack : Buffer (maxSize + 1))
    (bounded : pathname.length ≤ maxSize)
    (cut : Cut maxSize content chunks)
    (free : 0 ∉ content)
    (opens :
      openFile (pathname.takeWhile (· ≠ 0)) = some (readsOf chunks)) :
    Transfers openFile strerror stack pathname content ↔
      (chunks.map List.length).Pairwise (· ≤ ·) ∧
        ∀ chunk ∈ chunks, NulLeft stack pathname chunk.length := by
  obtain ⟨headed, isHeaded, served⟩ :=
    exists_server_eq strerror stack bounded opens
  have copies := copyFile_iff headed cut free
  simp only [EndAtNul, isHeaded, headed_nul_iff] at copies
  rw [And.comm, ← copies, Transfers, served]
  constructor
  · rintro ⟨writes, isServed, isSent⟩
    obtain ⟨texts, copied, isWrites⟩ := Option.map_eq_some_iff.mp isServed
    obtain rfl := Outcome.wrote.inj isWrites
    refine ⟨texts, copied, ?_⟩
    simpa using isSent
  · rintro ⟨texts, copied, rfl⟩
    refine ⟨header :: texts ++ [ascii "\n"], by rw [copied, Option.map_some],
      ?_⟩
    simp

/-- Chunks of 18 and 21 bytes go through if the stack holds zeros. -/
theorem server_transfers_iff_twoChunks :
    Transfers
      (fun _ => some
        (readsOf [ascii "the quick brown fo", ascii "x jumps over the dog\n"]))
      [] (.filled (maxSize + 1) 0) (ascii "/tmp/a")
      (ascii "the quick brown fox jumps over the dog\n") :=
  (server_transfers_iff [] (.filled (maxSize + 1) 0)
    (by decide) ⟨by decide, by decide⟩ (by decide) rfl).mpr
    (by
      unfold NulLeft
      decide)

/-- A file of six bytes drags a part of the header behind it. -/
theorem server_not_transfers :
    ¬ ∀ (openFile : List UInt8 → Option (List ReadResult))
        (strerror : List UInt8) (stack : Buffer (maxSize + 1))
        (pathname content : List UInt8) (chunks : List (List UInt8)),
      pathname.length ≤ maxSize → Cut maxSize content chunks →
        0 ∉ content →
          openFile (pathname.takeWhile (· ≠ 0)) = some (readsOf chunks) →
            Transfers openFile strerror stack pathname content := by
  intro transfers
  obtain ⟨writes, served, isSent⟩ :=
    transfers (fun _ => some (readsOf [ascii "hello\n"])) []
      (.filled (maxSize + 1) 0) (ascii "/tmp/hello") (ascii "hello\n")
      [ascii "hello\n"] (by decide) ⟨by decide, by decide⟩ (by decide) rfl
  have wrote :
      server (fun _ => some (readsOf [ascii "hello\n"])) []
          (.filled (maxSize + 1) 0) (.data (ascii "/tmp/hello")) =
        some (.wrote
          [header, ascii "hello\nt of file: \n", ascii "\n"]) := by
    decide +kernel
  obtain rfl := Outcome.wrote.inj (Option.some.inj (served.symm.trans wrote))
  exact absurd isSent (by decide)

end Text

end CsPrimer.Pipe
