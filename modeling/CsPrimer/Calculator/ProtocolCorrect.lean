import CsPrimer.Calculator.Protocol

namespace CsPrimer.Calculator

open Library

/-!
# What the server computes from the bytes of the client

The client's message is the count byte followed by the operands and the
operator.  However the stream is cut, the server collects everything behind
the count byte at the start of `opinfo`, where the operands lie aligned and
the operator is the last byte received.
-/

/-- The operators of the calculator. -/
inductive Operator where
  | plus
  | minus
  | times
  deriving Repr, DecidableEq

namespace Operator

/-- The character the user types. -/
def char : Operator → UInt8
  | plus => '+'.toUInt8
  | minus => '-'.toUInt8
  | times => '*'.toUInt8

/-- The operation on exact integers. -/
def apply : Operator → Int → Int → Int
  | plus => (· + ·)
  | minus => (· - ·)
  | times => (· * ·)

/-- All results on the way from the left to the right. -/
def partials (operator : Operator) : List Int → List Int
  | [] => []
  | first :: rest => rest.scanl operator.apply first

/-- The left fold of the operator over some operands. -/
def fold (operator : Operator) : List Int → Int
  | [] => 0
  | first :: rest => rest.foldl operator.apply first

theorem operation?_char (operator : Operator) :
    operation? operator.char = some operator.apply := by
  cases operator with
  | plus => rfl
  | minus => rfl
  | times => rfl

end Operator

variable
  {operands : List Int32}
  {opinfo opmsg : Buffer bufSize}
  {written stream : List UInt8}

/-- The operands as they lie in memory. -/
def operandBytes (operands : List Int32) : List UInt8 :=
  operands.flatMap intBytes

@[simp]
theorem length_operandBytes (operands : List Int32) :
    (operandBytes operands).length = operands.length * opsz := by
  induction operands with
  | nil =>
      rfl
  | cons operand rest inductionHypothesis =>
      rw [operandBytes, List.flatMap_cons, List.length_append,
        ← operandBytes, inductionHypothesis, length_intBytes,
        List.length_cons, Nat.succ_mul, Nat.add_comm]

/-- The message of the client. -/
def message (operands : List Int32) (operator : UInt8) : List UInt8 :=
  UInt8.ofNat operands.length :: operandBytes operands ++ [operator]

theorem scanOperands_holds
    (i : Nat)
    (operands : List Int32)
    (holds : opmsg.Holds written)
    (isLength : written.length = i * opsz + 1)
    (fits : (i + operands.length) * opsz + 1 ≤ bufSize) :
    ∃ next,
      scanOperands opmsg i operands = some next ∧
        next.Holds (written ++ operandBytes operands) := by
  induction operands generalizing opmsg written i with
  | nil =>
      exact ⟨opmsg, rfl, by simpa [operandBytes] using holds⟩
  | cons operand rest inductionHypothesis =>
      simp only [opsz, bufSize, List.length_cons] at isLength fits
      obtain ⟨middle, stored, middleHolds⟩ :=
        holds.store isLength (intBytes operand) (by
          rw [length_intBytes]
          simp only [bufSize]
          omega)
      obtain ⟨next, scanned, nextHolds⟩ :=
        inductionHypothesis (i + 1) middleHolds
          (by
            rw [List.length_append, length_intBytes]
            simp only [opsz]
            omega)
          (by
            simp only [opsz, bufSize]
            omega)
      refine ⟨next, ?_, ?_⟩
      · rw [scanOperands, stored, Option.bind_some, scanned]
      · rwa [List.append_assoc] at nextHolds

/-- What `op_client` writes, for any former content of `opmsg`. -/
theorem opClient_eq
    (opmsg : Buffer bufSize)
    (operator : UInt8)
    (bounded : operands.length ≤ 255) :
    opClient opmsg operands operator = some (message operands operator) := by
  have room : operands.length * opsz + 2 ≤ bufSize := by
    simp only [opsz, bufSize]
    omega
  obtain ⟨counted, storedCount, countedHolds⟩ :=
    (Buffer.Holds.nil opmsg).store List.length_nil [UInt8.ofNat operands.length]
      (by decide : 0 + 1 ≤ bufSize)
  obtain ⟨scanned, storedOperands, scannedHolds⟩ :=
    scanOperands_holds 0 operands countedHolds rfl
      (by
        rw [Nat.zero_add]
        omega)
  obtain ⟨complete, storedOperator, completeHolds⟩ :=
    scannedHolds.store
      (by simp [Nat.add_comm] :
        _ = operands.length * opsz + 1)
      [operator] (by
        rw [List.length_singleton]
        omega)
  have isTotal :
      (message operands operator).length = operands.length * opsz + 2 := by
    simp [message]
  have isMessage :
      [] ++ [UInt8.ofNat operands.length] ++ operandBytes operands ++
        [operator] = message operands operator := rfl
  rw [isMessage] at completeHolds
  have loaded :=
    completeHolds.load 0 (operands.length * opsz + 2) (by omega)
  rw [List.drop_zero, List.take_of_length_le (Nat.le_of_eq isTotal)] at loaded
  simp only [opClient, storedCount, storedOperands, storedOperator, loaded,
    Option.bind_eq_bind, Option.bind_some]

/-- The receive loop collects the stream, however it is cut. -/
theorem receive_cut
    {pieces : List (List UInt8)}
    {total : Nat}
    (holds : opinfo.Holds written)
    (cut : Cut (bufSize - 1) stream pieces)
    (isTotal : written.length + stream.length = total)
    (fits : total ≤ bufSize) :
    ∃ next,
      receive total opinfo written.length (pieces.map .data) =
          .received next total ∧
        next.Holds (written ++ stream) := by
  induction pieces generalizing opinfo written stream with
  | nil =>
      obtain rfl := Cut.nil_iff.mp cut
      rw [List.length_nil, Nat.add_zero] at isTotal
      refine ⟨opinfo, ?_, by rwa [List.append_nil]⟩
      rw [List.map_nil, receive, isTotal, if_neg (Int.lt_irrefl _)]
  | cons piece rest inductionHypothesis =>
      obtain ⟨nonempty, -, later, rfl, cutLater⟩ := Cut.cons_iff.mp cut
      rw [List.length_append] at isTotal
      have more : (written.length : Int) < total := by
        have positive := List.length_pos_iff.mpr nonempty
        omega
      obtain ⟨middle, stored, middleHolds⟩ :=
        holds.store rfl piece (by omega)
      obtain ⟨next, received, nextHolds⟩ :=
        inductionHypothesis middleHolds cutLater
          (by rw [List.length_append]; omega)
      refine ⟨next, ?_, by rwa [← List.append_assoc]⟩
      rw [List.length_append, Int.natCast_add] at received
      simp only [List.map_cons, receive, if_pos more, readOpinfo,
        Int.natCast_nonneg, if_true, Int.toNat_natCast, stored,
        Option.map_some, received]

/-- The operands lie aligned at the start of what has been received. -/
theorem opndAt_eq
    {i : Nat}
    {rest : List UInt8}
    (holds : opinfo.Holds (operandBytes operands ++ rest))
    (inside : i < operands.length) :
    opndAt opinfo i = some operands[i] := by
  have split :
      operands = operands.take i ++ operands[i] :: operands.drop (i + 1) := by
    simp
  have isOffset : (operandBytes (operands.take i)).length = i * opsz := by
    rw [length_operandBytes, List.length_take,
      Nat.min_eq_left (Nat.le_of_lt inside)]
  have bytes :
      operandBytes operands ++ rest =
        operandBytes (operands.take i) ++ (intBytes operands[i] ++
          (operandBytes (operands.drop (i + 1)) ++ rest)) := by
    calc
      operandBytes operands ++ rest =
          operandBytes
            (operands.take i ++ operands[i] :: operands.drop (i + 1)) ++
            rest := by rw [← split]
      _ = _ := by
        simp only [operandBytes, List.flatMap_append, List.flatMap_cons,
          List.append_assoc]
  rw [bytes] at holds
  have loaded := holds.load (i * opsz) opsz (by
    rw [List.length_append, isOffset, List.length_append,
      length_intBytes]
    exact Nat.add_le_add_left (Nat.le_add_right 4 _) _)
  rw [opndAt, loaded, Option.map_some, ← isOffset, List.drop_left,
    List.take_left' (length_intBytes _), intOfBytes_intBytes]

/-- The operator is the last byte received. -/
theorem charAt_last
    {op : UInt8}
    (holds : opinfo.Holds (written ++ [op])) :
    charAt opinfo (written.length + 1 - 1) = some op := by
  obtain ⟨rest, isBytes⟩ := holds
  rw [charAt, Int.add_sub_cancel, if_pos (Int.natCast_nonneg _),
    Int.toNat_natCast, ← isBytes]
  simp

/-- The loop of `calculate` folds the operands from index `start` on. -/
theorem foldlM_opnds
    {operation : Int → Int → Int}
    {opnds : Nat → Option Int32}
    {start : Nat}
    {result : Int32}
    {rest : List Int32}
    (reads :
      ∀ i operand, rest[i]? = some operand →
        opnds (start + i) = some operand) :
    (List.range' start rest.length).foldlM
        (fun result i => do
          let operand ← opnds i
          int? (operation result.toInt operand.toInt))
        result =
      foldInt? operation result rest := by
  induction rest generalizing start result with
  | nil =>
      rfl
  | cons operand rest inductionHypothesis =>
      have readsFirst : opnds start = some operand :=
        reads 0 operand rfl
      have readsRest :
          ∀ i next, rest[i]? = some next →
            opnds (start + 1 + i) = some next := by
        intro i next member
        have reading := reads (i + 1) next member
        rwa [Nat.add_comm i 1, ← Nat.add_assoc] at reading
      rw [foldInt?, List.foldlM_cons, List.length_cons, List.range'_succ,
        List.foldlM_cons, readsFirst]
      refine congrArg _ (funext fun next => ?_)
      exact inductionHypothesis readsRest

/-- `calculate` on memory that starts with the operands. -/
theorem calculate_eq
    {first : Int32}
    {others : List Int32}
    {rest : List UInt8}
    (operator : Operator)
    (holds : opinfo.Holds (operandBytes (first :: others) ++ rest)) :
    calculate (first :: others).length (opndAt opinfo) operator.char =
      foldInt? operator.apply first others := by
  have readsFirst : opndAt opinfo 0 = some first :=
    opndAt_eq holds (Nat.succ_pos _)
  have readsOthers :
      ∀ i operand, others[i]? = some operand →
        opndAt opinfo (1 + i) = some operand := by
    intro i operand member
    obtain ⟨inside, rfl⟩ := List.getElem?_eq_some_iff.mp member
    rw [Nat.add_comm]
    exact opndAt_eq holds (Nat.succ_lt_succ inside)
  simp only [calculate, readsFirst, operator.operation?_char,
    Option.bind_eq_bind, Option.bind_some, List.length_cons,
    Int.toNat_natCast, Nat.add_sub_cancel]
  exact foldlM_opnds readsOthers

/-- The reply to a request that has been received as a whole. -/
theorem reply_eq
    {first result : Int32}
    {others : List Int32}
    (operator : Operator)
    (holds :
      opinfo.Holds (operandBytes (first :: others) ++ [operator.char]))
    (folded : foldInt? operator.apply first others = some result) :
    reply (first :: others).length opinfo
        (((first :: others).length * opsz + 1 : Nat) : Int) =
      .replied opinfo (4 * (first :: others).length + 1) operator.char
        (intBytes result) := by
  have isOperator := charAt_last holds
  rw [length_operandBytes] at isOperator
  rw [← calculate_eq operator holds] at folded
  have isLength :
      (((first :: others).length * opsz + 1 : Nat) : Int) =
        4 * (first :: others).length + 1 := by
    simp only [opsz]
    omega
  simp only [reply, Int.natCast_add, Int.cast_ofNat_Int, isOperator, folded]
  rw [← isLength]
  rfl

/--
`op_client` and `op_server`, for every list of 1 to 255 operands and every
operator without overflow, any former content of both buffers and every way
the client's message is cut into reads: the server receives exactly the
operands and the operator and replies with the left fold.
-/
theorem opServer_opClient
    (opmsg opinfo : Buffer bufSize)
    (operands : List Int32)
    (operator : Operator)
    (nonempty : operands ≠ [])
    (bounded : operands.length ≤ 255)
    (fits :
      ∀ value ∈ operator.partials (operands.map Int32.toInt), Fits value) :
    ∃ sent,
      opClient opmsg operands operator.char = some sent ∧
        sent.length = operands.length * 4 + 2 ∧
        ∀ count rest pieces,
          sent = count ++ rest →
          count ≠ [] → count.length ≤ 1 →
          Cut (bufSize - 1) rest pieces →
          ∃ received result,
            opServer opinfo (.data count :: pieces.map .data) =
                .replied received (4 * operands.length + 1) operator.char
                  (intBytes result) ∧
              result.toInt = operator.fold (operands.map Int32.toInt) := by
  obtain ⟨first, others, rfl⟩ := List.exists_cons_of_ne_nil nonempty
  refine ⟨_, opClient_eq opmsg operator.char bounded, by simp [message], ?_⟩
  intro count rest pieces isSent countNonempty countBounded cut
  obtain ⟨byte, rfl⟩ : ∃ byte, count = [byte] :=
    List.length_eq_one_iff.mp
      (Nat.le_antisymm countBounded (List.length_pos_iff.mpr countNonempty))
  obtain ⟨rfl, rfl⟩ :
      UInt8.ofNat (first :: others).length = byte ∧
        operandBytes (first :: others) ++ [operator.char] = rest := by
    simpa [message] using isSent
  have isCount :
      readOpndCnt (.data [UInt8.ofNat (first :: others).length]) =
        (first :: others).length := by
    have small : (first :: others).length < 256 := by omega
    rw [readOpndCnt, UInt8.toNat_ofNat_of_lt' small]
  have isTotal :
      0 + (operandBytes (first :: others) ++ [operator.char]).length =
        (first :: others).length * opsz + 1 := by
    simp
  have room : (first :: others).length * opsz + 1 ≤ bufSize := by
    simp only [opsz, bufSize]
    omega
  obtain ⟨received, ran, holds⟩ :=
    receive_cut (Buffer.Holds.nil opinfo) cut isTotal room
  obtain ⟨result, folded, isResult⟩ := exists_foldInt? fits
  refine ⟨received, result, ?_, isResult⟩
  have replied := reply_eq operator holds folded
  have ranFromStart :
      receive ((first :: others).length * opsz + 1) opinfo 0
          (pieces.map .data) =
        .received received (((first :: others).length * opsz + 1 : Nat)) :=
    ran
  rw [← replied, opServer, isCount]
  simp only [ranFromStart]

/-- `7 - -2 - 3`, cut inside the first operand and before the operator. -/
theorem opServer_opClient_minus :
    ∃ received result,
      opServer ⟨List.replicate bufSize 255, List.length_replicate⟩
          [.data [3], .data [7, 0], .data [0, 0, 254, 255, 255, 255, 3, 0],
            .data [0, 0], .data ['-'.toUInt8]] =
        .replied received 13 '-'.toUInt8 (intBytes result) ∧
      result.toInt = 6 := by
  obtain ⟨sent, wrote, -, serves⟩ :=
    opServer_opClient ⟨List.replicate bufSize 0, List.length_replicate⟩
      ⟨List.replicate bufSize 255, List.length_replicate⟩ [7, -2, 3] .minus
      (by decide) (by decide) (by decide)
  rw [opClient_eq _ _ (by decide), Option.some.injEq] at wrote
  exact serves [3]
    [7, 0, 0, 0, 254, 255, 255, 255, 3, 0, 0, 0, '-'.toUInt8]
    [[7, 0], [0, 0, 254, 255, 255, 255, 3, 0], [0, 0], ['-'.toUInt8]]
    (wrote ▸ by decide) (by decide) (by decide) ⟨by decide, by decide⟩

end CsPrimer.Calculator
