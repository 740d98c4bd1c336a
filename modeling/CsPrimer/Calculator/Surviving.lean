import CsPrimer.Calculator.Protocol
import Mathlib.Tactic.IntervalCases

namespace CsPrimer.Calculator

open Library

/-!
# Which peers the server survives

The receive loop of `op_server` adds the result of `read` to `recv_len` without
a look at it.  So `recv_len` is the sum of the results, and what the loop does
depends on nothing else: it ends when the sum reaches the bound, and it stores
inside `opinfo` while the sum stays between 0 and `BUF_SIZE`.
-/

variable
  {bound recvLen : Int}
  {opinfo : Buffer bufSize}
  {reads : Nat → Option ReadResult}
  {n : Nat}

/-- One read adds its result; what it stores lies inside the buffer. -/
theorem readOpinfo_spec
    {next : Buffer bufSize}
    {nextLen : Int}
    {result : ReadResult}
    (read : readOpinfo opinfo recvLen result = some (next, nextLen)) :
    nextLen = recvLen + result.count ∧
      (recvLen < nextLen → 0 ≤ recvLen ∧ nextLen ≤ bufSize) := by
  cases result with
  | data bytes =>
      simp only [readOpinfo] at read
      split at read
      case isFalse => cases read
      case isTrue nonneg =>
        obtain ⟨stored, isStored, isNext⟩ := Option.map_eq_some_iff.mp read
        obtain ⟨rfl, rfl⟩ := Prod.mk.inj isNext
        have fits := Buffer.fits_of_store? isStored
        exact ⟨rfl, fun _ => ⟨nonneg, by omega⟩⟩
  | endOfFile =>
      cases read
      simp [ReadResult.count]
  | error =>
      simp only [readOpinfo] at read
      split at read
      case isFalse => cases read
      case isTrue =>
        cases read
        exact ⟨rfl, fun grows => by omega⟩

/-- A read that keeps the sum between 0 and the size has an outcome. -/
theorem exists_readOpinfo
    (opinfo : Buffer bufSize)
    {result : ReadResult}
    (nonneg : 0 ≤ recvLen)
    (bounded : recvLen ≤ bufSize)
    (fits : recvLen + result.count ≤ bufSize) :
    ∃ next,
      readOpinfo opinfo recvLen result =
        some (next, recvLen + result.count) := by
  simp only [bufSize] at bounded
  cases result with
  | data bytes =>
      simp only [ReadResult.count] at fits ⊢
      obtain ⟨next, stored, -⟩ :=
        opinfo.store?_holds recvLen.toNat bytes (by omega)
      exact ⟨next, by rw [readOpinfo, if_pos nonneg, stored]; rfl⟩
  | endOfFile =>
      exact ⟨opinfo, by rw [readOpinfo, ReadResult.count, Int.add_zero]⟩
  | error =>
      have inRange : Fits (recvLen - 1) := by
        constructor <;> omega
      exact ⟨opinfo, by rw [readOpinfo, if_pos inRange]; rfl⟩

/-- The loop goes on from where the earlier reads left it. -/
theorem receive_append
    (earlier later : List ReadResult) :
    receive bound opinfo recvLen (earlier ++ later) =
      match receive bound opinfo recvLen earlier with
      | .waiting opinfo recvLen => receive bound opinfo recvLen later
      | other => other := by
  induction earlier generalizing opinfo recvLen with
  | nil =>
      cases later with
      | nil =>
          simp only [List.append_nil, receive]
          split <;> rename_i test <;> simp [test]
      | cons result rest =>
          simp only [List.nil_append, receive]
          split <;> rename_i test <;> simp [test]
  | cons result rest inductionHypothesis =>
      simp only [List.cons_append, receive]
      split
      case isFalse => rfl
      case isTrue =>
        cases readOpinfo opinfo recvLen result with
        | none => rfl
        | some next => exact inductionHypothesis

/-- One more read of a loop that has read for the last time at a given sum. -/
theorem receive_snoc
    {results : List ReadResult}
    {result : ReadResult}
    {middle : Buffer bufSize}
    {middleLen : Int}
    (before :
      receive bound opinfo recvLen results =
        receive bound middle middleLen [])
    (goesOn : middleLen < bound) :
    receive bound opinfo recvLen (results ++ [result]) =
      match readOpinfo middle middleLen result with
      | none => .fault
      | some (next, nextLen) => receive bound next nextLen [] := by
  rw [receive_append, before]
  cases read : readOpinfo middle middleLen result with
  | none => simp only [receive, if_pos goesOn, read]
  | some next => simp only [receive, if_pos goesOn, read]

/--
For any results of the reads, the loop never leaves the buffer, ends once the
peer has closed or failed, and leaves a valid index of the operator.
-/
structure Survives
    (bound : Int)
    (opinfo : Buffer bufSize)
    (reads : Nat → Option ReadResult) : Prop where
  inside :
    ∀ n, Returned reads n →
      receive bound opinfo 0 (firstReads reads n) ≠ .fault
  index :
    ∀ n next recvLen, Returned reads n →
      receive bound opinfo 0 (firstReads reads n) =
        .received next recvLen →
        0 ≤ recvLen - 1 ∧ recvLen - 1 < bufSize
  ends :
    ∀ n, Returned reads n →
      (reads n = some .endOfFile ∨ reads n = some .error) →
        ∃ m next recvLen, Returned reads m ∧
          receive bound opinfo 0 (firstReads reads m) =
            .received next recvLen

/--
While the sum of the results is below the bound it stays between 0 and the size
of the buffer, and it reaches the bound if the peer closes or fails.
-/
structure Sufficient
    (bound : Int)
    (reads : Nat → Option ReadResult) : Prop where
  inside :
    ∀ n, Returned reads n →
      (∀ m < n, totalRead reads m < bound) →
        0 ≤ totalRead reads n ∧ totalRead reads n ≤ bufSize
  ends :
    ∀ n, Returned reads n →
      (reads n = some .endOfFile ∨ reads n = some .error) →
        ∃ m, Returned reads m ∧ bound ≤ totalRead reads m

theorem receive_nil_ne_fault :
    receive bound opinfo recvLen [] ≠ .fault := by
  unfold receive
  split <;> simp

/-- The loop has ended exactly if the sum has reached the bound. -/
theorem receive_nil_eq_received_iff
    {next : Buffer bufSize}
    {nextLen : Int} :
    receive bound opinfo recvLen [] = .received next nextLen ↔
      bound ≤ recvLen ∧ opinfo = next ∧ recvLen = nextLen := by
  unfold receive
  split
  case isTrue goesOn => simp; omega
  case isFalse ended => simp; omega

/-- A read of a loop that never leaves the buffer. -/
theorem Survives.exists_receive_succ
    {middle : Buffer bufSize}
    (survives : Survives bound opinfo reads)
    (returned : Returned reads (n + 1))
    (before :
      receive bound opinfo 0 (firstReads reads n) =
        receive bound middle (totalRead reads n) [])
    (goesOn : totalRead reads n < bound) :
    (∃ next,
      receive bound opinfo 0 (firstReads reads (n + 1)) =
        receive bound next (totalRead reads (n + 1)) []) ∧
      (totalRead reads n < totalRead reads (n + 1) →
        0 ≤ totalRead reads n ∧
          totalRead reads (n + 1) ≤ bufSize) := by
  obtain ⟨result, last⟩ := returned.exists_last
  have noFault := survives.inside (n + 1) returned
  rw [firstReads_succ last, receive_snoc before goesOn] at noFault ⊢
  cases read : readOpinfo middle (totalRead reads n) result with
  | none =>
      rw [read] at noFault
      exact absurd rfl noFault
  | some outcome =>
      obtain ⟨isSum, fits⟩ := readOpinfo_spec read
      rw [totalRead_succ last, ← isSum]
      exact ⟨⟨outcome.1, rfl⟩, fits⟩

/--
A loop that never leaves the buffer is at the sum of the results until the sum
reaches the bound, and the sum does not exceed the size of the buffer.
-/
theorem Survives.exists_receive_eq
    (survives : Survives bound opinfo reads)
    (returned : Returned reads n)
    (below : ∀ m < n, totalRead reads m < bound) :
    totalRead reads n ≤ bufSize ∧
      ∃ next,
        receive bound opinfo 0 (firstReads reads n) =
          receive bound next (totalRead reads n) [] := by
  induction n with
  | zero =>
      exact ⟨Int.natCast_nonneg bufSize, opinfo, rfl⟩
  | succ n inductionHypothesis =>
      obtain ⟨bounded, middle, before⟩ :=
        inductionHypothesis (returned.of_le n.le_succ)
          fun m earlier => below m (Nat.lt_succ_of_lt earlier)
      obtain ⟨after, fits⟩ :=
        survives.exists_receive_succ returned before
          (below n n.lt_succ_self)
      refine ⟨?_, after⟩
      by_cases grows : totalRead reads n < totalRead reads (n + 1)
      · exact (fits grows).2
      · exact Int.le_trans (Int.not_lt.mp grows) bounded

/-- Once the sum is negative, no data can be read, and it stays so. -/
theorem Survives.stays_negative
    {start : Nat}
    (survives : Survives bound opinfo reads)
    (positive : 0 < bound)
    (below : ∀ m < start, totalRead reads m < bound)
    (negative : totalRead reads start < 0)
    (returned : Returned reads n) :
    totalRead reads n < bound ∧
      (start ≤ n → totalRead reads n < 0) := by
  induction n using Nat.strongRecOn with
  | ind n inductionHypothesis =>
      by_cases before : n < start
      · exact ⟨below n before, fun late => absurd late (Nat.not_le.mpr before)⟩
      suffices stays : totalRead reads n < 0 from
        ⟨Int.lt_trans stays positive, fun _ => stays⟩
      rcases Nat.eq_or_lt_of_le (Nat.not_lt.mp before) with rfl | after
      · exact negative
      obtain ⟨last, rfl⟩ :=
        Nat.exists_eq_succ_of_ne_zero (Nat.ne_zero_of_lt after)
      have earlier :
          ∀ m ≤ last, totalRead reads m < bound ∧
            (start ≤ m → totalRead reads m < 0) :=
        fun m inside =>
          inductionHypothesis m (Nat.lt_succ_of_le inside)
            (returned.of_le (Nat.le_succ_of_le inside))
      have lastNegative :=
        (earlier last (Nat.le_refl last)).2 (Nat.le_of_lt_succ after)
      obtain ⟨-, middle, state⟩ :=
        survives.exists_receive_eq (returned.of_le last.le_succ)
          fun m inside => (earlier m (Nat.le_of_lt inside)).1
      have fits :=
        (survives.exists_receive_succ returned state
          (Int.lt_trans lastNegative positive)).2
      rw [Nat.succ_eq_add_one]
      omega

/-- The sum reaches the bound if the loop ends. -/
theorem exists_totalRead_of_received
    {next : Buffer bufSize}
    {nextLen : Int}
    (survives : Survives bound opinfo reads)
    (returned : Returned reads n)
    (ended :
      receive bound opinfo 0 (firstReads reads n) =
        .received next nextLen) :
    ∃ m ≤ n, bound ≤ totalRead reads m := by
  by_contra never
  have below : ∀ m ≤ n, totalRead reads m < bound := by
    intro m inside
    by_contra reached
    exact never ⟨m, inside, Int.not_lt.mp reached⟩
  obtain ⟨-, last, state⟩ :=
    survives.exists_receive_eq returned
      fun m inside => below m (Nat.le_of_lt inside)
  rw [state, receive_nil_eq_received_iff] at ended
  exact absurd (below n (Nat.le_refl n)) (Int.not_lt.mpr ended.1)

theorem Survives.sufficient
    (survives : Survives bound opinfo reads)
    (positive : 0 < bound) :
    Sufficient bound reads where
  inside n returned below := by
    refine ⟨?_, (survives.exists_receive_eq returned below).1⟩
    by_contra negative
    obtain ⟨i, before, isError⟩ :=
      exists_error_of_totalRead_neg returned (Int.not_le.mp negative)
    obtain ⟨m, next, nextLen, mReturned, ended⟩ :=
      survives.ends i (returned.of_le (Nat.le_of_lt before)) (.inr isError)
    obtain ⟨k, inside, reached⟩ :=
      exists_totalRead_of_received survives mReturned ended
    have stays :=
      survives.stays_negative positive below (Int.not_le.mp negative)
        (mReturned.of_le inside)
    exact absurd stays.1 (Int.not_lt.mpr reached)
  ends n returned closed := by
    obtain ⟨m, next, nextLen, mReturned, ended⟩ :=
      survives.ends n returned closed
    obtain ⟨k, inside, reached⟩ :=
      exists_totalRead_of_received survives mReturned ended
    exact ⟨k, mReturned.of_le inside, reached⟩

/-- A loop whose sums suffice stops at the first one that reaches the bound. -/
theorem Sufficient.exists_receive_eq
    (sufficient : Sufficient bound reads)
    (opinfo : Buffer bufSize)
    (returned : Returned reads n) :
    ∃ m ≤ n,
      (∀ k < m, totalRead reads k < bound) ∧
        (m = n ∨ bound ≤ totalRead reads m) ∧
          ∃ next,
            receive bound opinfo 0 (firstReads reads n) =
              receive bound next (totalRead reads m) [] := by
  induction n with
  | zero =>
      exact ⟨0, Nat.le_refl 0, fun k before => absurd before k.not_lt_zero,
        .inl rfl, opinfo, rfl⟩
  | succ n inductionHypothesis =>
      obtain ⟨result, last⟩ := returned.exists_last
      obtain ⟨m, inside, below, stopped, middle, before⟩ :=
        inductionHypothesis (returned.of_le n.le_succ)
      rw [firstReads_succ last]
      by_cases goesOn : totalRead reads m < bound
      · obtain rfl : m = n :=
          stopped.resolve_right (Int.not_le.mpr goesOn)
        have belowNext : ∀ k < m + 1, totalRead reads k < bound := by
          intro k earlier
          rcases Nat.lt_succ_iff_lt_or_eq.mp earlier with earlier | rfl
          · exact below k earlier
          · exact goesOn
        obtain ⟨nonneg, bounded⟩ :=
          sufficient.inside m (returned.of_le m.le_succ) below
        obtain ⟨-, fits⟩ := sufficient.inside (m + 1) returned belowNext
        rw [totalRead_succ last] at fits
        obtain ⟨next, read⟩ := exists_readOpinfo middle nonneg bounded fits
        refine ⟨m + 1, Nat.le_refl _, belowNext, .inl rfl, next, ?_⟩
        rw [receive_snoc before goesOn, read, totalRead_succ last]
      · refine ⟨m, Nat.le_succ_of_le inside, below,
          .inr (Int.not_lt.mp goesOn), middle, ?_⟩
        rw [receive_append, before]
        simp only [receive, if_neg goesOn]

theorem Sufficient.survives
    (sufficient : Sufficient bound reads)
    (positive : 0 < bound)
    (opinfo : Buffer bufSize) :
    Survives bound opinfo reads where
  inside n returned := by
    obtain ⟨m, -, -, -, next, state⟩ :=
      sufficient.exists_receive_eq opinfo returned
    rw [state]
    exact receive_nil_ne_fault
  index n next nextLen returned ended := by
    obtain ⟨m, inside, below, -, last, state⟩ :=
      sufficient.exists_receive_eq opinfo returned
    rw [state, receive_nil_eq_received_iff] at ended
    obtain ⟨reached, -, rfl⟩ := ended
    have bounded := sufficient.inside m (returned.of_le inside) below
    omega
  ends n returned closed := by
    obtain ⟨k, kReturned, reached⟩ := sufficient.ends n returned closed
    obtain ⟨m, -, -, stopped, last, state⟩ :=
      sufficient.exists_receive_eq opinfo kReturned
    have ended : bound ≤ totalRead reads m := by
      rcases stopped with rfl | ended
      · exact reached
      · exact ended
    refine ⟨k, last, totalRead reads m, kReturned, ?_⟩
    rw [state, receive_nil_eq_received_iff]
    exact ⟨ended, rfl, rfl⟩

theorem readOpndCnt_nonneg (count : ReadResult) :
    0 ≤ readOpndCnt count := by
  unfold readOpndCnt
  split
  · exact Int.natCast_nonneg _
  · exact Int.le_refl 0

/--
The server survives a peer exactly if the results of the reads suffice, for any
result of the first read and any former content of the buffer.
-/
theorem opServer_survives_iff
    (count : ReadResult)
    (opinfo : Buffer bufSize)
    (reads : Nat → Option ReadResult) :
    Survives (readOpndCnt count * opsz + 1) opinfo reads ↔
      Sufficient (readOpndCnt count * opsz + 1) reads := by
  have positive : 0 < readOpndCnt count * opsz + 1 := by
    have nonneg := readOpndCnt_nonneg count
    simp only [opsz]
    omega
  constructor
  · intro survives
    exact survives.sufficient positive
  · intro sufficient
    exact sufficient.survives positive opinfo

/-- A peer that sends 2043 bytes in two pieces. -/
def twoPieces : Nat → Option ReadResult
  | 0 => some (.data (List.replicate 1020 1))
  | 1 => some (.data (List.replicate 1023 1))
  | _ => none

theorem totalRead_twoPieces :
    totalRead twoPieces 1 = 1020 ∧ totalRead twoPieces 2 = 2043 := by
  have first : totalRead twoPieces 1 = 1020 := by
    rw [totalRead_succ (rfl : twoPieces 0 = some (.data _)),
      ReadResult.count, List.length_replicate]
    rfl
  refine ⟨first, ?_⟩
  rw [totalRead_succ (rfl : twoPieces 1 = some (.data _)), first,
    ReadResult.count, List.length_replicate]
  rfl

/--
A peer that announces two operands and closes keeps the server reading for
ever, and one that announces 255 can make it store behind the buffer.
-/
theorem opServer_not_survives :
    ¬ Survives (readOpndCnt (.data [2]) * opsz + 1)
        (.filled bufSize 0) (fun _ => some .endOfFile) ∧
      ¬ Survives (readOpndCnt (.data [255]) * opsz + 1)
        (.filled bufSize 0) twoPieces := by
  constructor
  · intro survives
    have sufficient := survives.sufficient (by decide)
    obtain ⟨m, -, reached⟩ :=
      sufficient.ends 0 (fun i before => absurd before i.not_lt_zero)
        (.inl rfl)
    have nothing :
        ∀ m, totalRead (fun _ => some .endOfFile) m = 0 := by
      intro m
      induction m with
      | zero => rfl
      | succ m inductionHypothesis =>
          rw [totalRead, inductionHypothesis]
          rfl
    rw [nothing m] at reached
    exact absurd reached (by decide)
  · intro survives
    have sufficient := survives.sufficient (by decide)
    obtain ⟨first, both⟩ := totalRead_twoPieces
    have returned : Returned twoPieces 2 := by
      intro i before
      interval_cases i <;> rfl
    have below :
        ∀ m < 2,
          totalRead twoPieces m < readOpndCnt (.data [255]) * opsz + 1 := by
      intro m before
      interval_cases m
      · decide
      · rw [first]
        decide
    have bounded := (sufficient.inside 2 returned below).2
    rw [both] at bounded
    exact absurd bounded (by decide)

end CsPrimer.Calculator
