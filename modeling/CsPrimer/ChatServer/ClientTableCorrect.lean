import CsPrimer.ChatServer.ClientTable
import Mathlib.Data.List.Basic
import Mathlib.Data.List.Nodup
import Mathlib.Data.Nat.Init

namespace CsPrimer.ChatServer

open Library

/-!
# When the table of the chat server lists the connected clients

The loop that closes the gap moves the descriptors behind the leaving one, but
starts one cell too late: it drops the successor of the leaving descriptor
instead.  The table is therefore accurate as long as only the client that has
connected last leaves.
-/

section Loops

theorem store_eq_some
    {vec stored : Vector Nat maxClnt}
    {i sockfd : Nat}
    (isStored : store vec i sockfd = some stored) :
    ∀ j, stored[j]? = if i = j then some sockfd else vec[j]? := by
  intro j
  by_cases inBounds : i < maxClnt
  · simp only [store, inBounds, dite_true, Option.some.injEq] at isStored
    subst isStored
    exact Vector.getElem?_set inBounds
  · simp [store, inBounds] at isStored

/-- The shift moves the cells behind `i + 1` down by one. -/
theorem shiftClnts_eq_some
    {clntCnt i : Nat}
    {vec shifted : Vector Nat maxClnt}
    (isShifted : shiftClnts clntCnt vec i = some shifted)
    (j : Nat) :
    shifted[j]? =
      if i < j ∧ j < clntCnt then vec[j + 1]? else vec[j]? := by
  fun_induction shiftClnts clntCnt vec i with
  | case1 | case2 =>
      simp at isShifted
  | case3 vec i more sockfd found stored isStored inductionHypothesis =>
      have cell := store_eq_some isStored
      rw [inductionHypothesis isShifted, cell, cell]
      by_cases isNext : j = i + 1
      · -- The first cell the loop overwrites.
        subst isNext
        have inside : i < i + 1 ∧ i + 1 < clntCnt := by omega
        simp [inside, found]
      · have notWritten : i + 1 ≠ j := Ne.symm isNext
        by_cases later : i + 1 < j
        · have notNext : i ≠ j := by omega
          simp [later, Nat.lt_of_succ_lt later, notWritten, notNext]
        · have notMoved : ¬ i < j := by omega
          simp [later, notMoved, notWritten]
  | case4 vec i done =>
      simp only [Option.some.injEq] at isShifted
      subst isShifted
      have last : ¬ (i < j ∧ j < clntCnt) := by omega
      rw [if_neg last]

/-- The search stops at the first cell with the descriptor. -/
theorem searchClnt_eq_shiftClnts
    {clntCnt i p clntSockfd : Nat}
    {vec : Vector Nat maxClnt}
    (reached : i ≤ p)
    (inTable : p < clntCnt)
    (found : vec[p]? = some clntSockfd)
    (first : ∀ j, j < p → vec[j]? ≠ some clntSockfd) :
    searchClnt clntCnt vec clntSockfd i = shiftClnts clntCnt vec p := by
  induction reached using Nat.decreasingInduction with
  | self =>
      unfold searchClnt
      simp [inTable, found]
  | of_succ i less inductionHypothesis =>
      have inBounds : p < maxClnt :=
        (Vector.getElem?_eq_some_iff.mp found).1
      have cell : vec[i]? = some vec[i] :=
        Vector.getElem?_eq_getElem (Nat.lt_trans less inBounds)
      have other : clntSockfd ≠ vec[i] := by
        intro same
        exact first i less (same ▸ cell)
      unfold searchClnt
      simp only [Nat.lt_trans less inTable, if_true, cell, other, if_false]
      exact inductionHypothesis

theorem Table.listed_getElem?
    (table : Table)
    (j : Nat) :
    table.listed[j]? =
      if j < table.clntCnt then table.clntSockfdvec[j]? else none := by
  simp [listed, List.getElem?_take]

/-- `send_msg` writes to every listed descriptor but its own. -/
theorem sendMsg_eq_filter
    {table : Table}
    (fits : table.clntCnt ≤ maxClnt)
    (selfSockfd i : Nat) :
    sendMsg table selfSockfd i =
      some ((table.listed.drop i).filter (· ≠ selfSockfd)) := by
  fun_induction sendMsg table selfSockfd i with
  | case1 i more missing =>
      have inBounds : i < maxClnt := Nat.lt_of_lt_of_le more fits
      simp [inBounds] at missing
  | case2 i more sockfd found inductionHypothesis =>
      have isHead : table.listed[i]? = some sockfd := by
        rw [table.listed_getElem?, if_pos more, found]
      rw [List.drop_eq_getElem?_toList_append, isHead]
      simp [inductionHypothesis, List.filter_cons]
  | case3 i done =>
      have none : table.listed.drop i = [] := by
        apply List.drop_eq_nil_of_le
        apply Nat.le_trans _ (Nat.le_of_not_lt done)
        rw [Table.listed, List.length_take]
        exact Nat.min_le_left _ _
      simp [none]

/-- Registration appends the descriptor to the table. -/
theorem listed_registerClnt
    {table registered : Table}
    {clntSockfd : Nat}
    (isRegistered : registerClnt table clntSockfd = some registered) :
    registered.listed = table.listed ++ [clntSockfd] ∧
      registered.clntCnt = table.clntCnt + 1 ∧
      registered.clntCnt ≤ maxClnt := by
  obtain ⟨vec, isStored, rfl⟩ := Option.map_eq_some_iff.mp isRegistered
  have cell := store_eq_some isStored
  have inBounds : table.clntCnt < maxClnt := by
    by_contra outside
    simp [store, outside] at isStored
  refine ⟨?_, rfl, inBounds⟩
  apply List.ext_getElem?
  intro j
  have length : table.listed.length = table.clntCnt := by
    simp [Table.listed, Nat.min_eq_left (Nat.le_of_lt inBounds)]
  rw [Table.listed_getElem?, cell, List.getElem?_append, length,
    Table.listed_getElem?]
  rcases Nat.lt_trichotomy j table.clntCnt with less | rfl | greater
  · have different : table.clntCnt ≠ j := Nat.ne_of_gt less
    simp [less, different, Nat.lt_succ_of_lt less]
  · simp
  · have outside : ¬ j < table.clntCnt + 1 := by omega
    have notFirst : j - table.clntCnt ≠ 0 := by omega
    simp [outside, Nat.not_lt_of_gt greater, notFirst]

/--
Removal takes the descriptor behind the leaving one out of the table, and the
last one when there is none behind it.
-/
theorem listed_removeClnt
    {table removed : Table}
    {clntSockfd p : Nat}
    (isRemoved : removeClnt table clntSockfd = some removed)
    (found : table.listed[p]? = some clntSockfd)
    (first : ∀ j, j < p → table.listed[j]? ≠ some clntSockfd) :
    removed.listed =
      (table.listed.eraseIdx (p + 1)).take (table.clntCnt - 1) := by
  obtain ⟨vec, isSearched, rfl⟩ := Option.map_eq_some_iff.mp isRemoved
  have inTable : p < table.clntCnt := by
    by_contra outside
    simp [Table.listed_getElem?, outside] at found
  rw [Table.listed_getElem?, if_pos inTable] at found
  have firstCell :
      ∀ j, j < p → table.clntSockfdvec[j]? ≠ some clntSockfd := by
    intro j less
    simpa [Table.listed_getElem?, Nat.lt_trans less inTable] using
      first j less
  rw [searchClnt_eq_shiftClnts (Nat.zero_le p) inTable found firstCell]
    at isSearched
  apply List.ext_getElem?
  intro j
  rw [Table.listed_getElem?, List.getElem?_take, List.getElem?_eraseIdx,
    Table.listed_getElem?, Table.listed_getElem?,
    shiftClnts_eq_some isSearched]
  by_cases inside : j < table.clntCnt - 1
  · have bounds : j < table.clntCnt ∧ j + 1 < table.clntCnt := by omega
    by_cases behind : p < j
    · have notBefore : ¬ j < p + 1 := by omega
      simp [inside, bounds, behind, notBefore]
    · have before : j < p + 1 := by omega
      simp [inside, bounds, behind, before]
  · simp [inside]

theorem clntCnt_removeClnt
    {table removed : Table}
    {clntSockfd : Nat}
    (isRemoved : removeClnt table clntSockfd = some removed) :
    removed.clntCnt = table.clntCnt - 1 := by
  obtain ⟨vec, -, rfl⟩ := Option.map_eq_some_iff.mp isRemoved
  rfl

end Loops

/--
The table lists the connected clients, whose descriptors are open, and
`send_msg` writes to all of them but the sender.
-/
structure Accurate (state : State) : Prop where
  listed :
    state.table.listed = state.connected
  once :
    state.connected.Nodup
  opened :
    ∀ sockfd ∈ state.connected, sockfd ∉ state.closing
  delivered :
    ∀ sender, sendMsg state.table sender 0 =
      some (state.connected.filter (· ≠ sender))

/-- Only the client that has connected last leaves. -/
def LastLeaves (state : State) (action : Action) : Prop :=
  ∀ sockfd ∈ state.connected, action = .disconnect sockfd →
    state.connected.getLast? = some sockfd

instance (state : State) (action : Action) :
    Decidable (LastLeaves state action) :=
  inferInstanceAs (Decidable (∀ sockfd ∈ _, _ → _))

/-- What every run keeps, whoever leaves. -/
structure Bookkeeping (state : State) : Prop where
  once :
    state.connected.Nodup
  opened :
    ∀ sockfd ∈ state.connected, sockfd ∉ state.closing
  fresh :
    ∀ sockfd, state.accepted = some sockfd →
      sockfd ∉ state.connected ∧ sockfd ∉ state.closing
  count :
    state.table.clntCnt = state.connected.length
  fits :
    state.table.clntCnt ≤ maxClnt

section Steps

variable
  {state next : State}
  {action : Action}
  {events : List Event}

/-- What the steps of the system do. -/
inductive Move (state : State) : Action → State → List Event → Prop where
  | accept
      (sockfd : Nat)
      (isNew : sockfd ∉ state.connected ∧ sockfd ∉ state.closing) :
      Move state (.accept sockfd)
        { state with accepted := some sockfd } []
  | register
      {sockfd : Nat}
      {table : Table}
      (pending : state.accepted = some sockfd)
      (isRegistered : registerClnt state.table sockfd = some table) :
      Move state .register
        { state with
          table := table
          accepted := none
          connected := state.connected ++ [sockfd] } []
  | receive
      {sockfds : List Nat}
      (sockfd : Nat)
      (msg : List UInt8)
      (sent : sendMsg state.table sockfd 0 = some sockfds) :
      Move state (.receive sockfd msg) state (sockfds.map (.written · msg))
  | disconnect
      {table : Table}
      (sockfd : Nat)
      (member : sockfd ∈ state.connected)
      (isRemoved : removeClnt state.table sockfd = some table) :
      Move state (.disconnect sockfd)
        { state with
          table := table
          connected := state.connected.erase sockfd
          closing := state.closing ++ [sockfd] } []
  | close
      (sockfd : Nat) :
      Move state (.close sockfd)
        { state with closing := state.closing.erase sockfd } []

theorem step_move
    (taken : system.step? state action = some (next, events)) :
    Move state action next events := by
  cases action with
  | accept sockfd =>
      by_cases isNew :
          state.accepted = none ∧ sockfd ∉ state.connected ∧
            sockfd ∉ state.closing
      · simp only [system, if_pos isNew, Option.some.injEq,
          Prod.mk.injEq] at taken
        obtain ⟨rfl, rfl⟩ := taken
        exact .accept sockfd isNew.2
      · simp [system, isNew] at taken
  | register =>
      cases pending : state.accepted with
      | none =>
          simp [system, pending] at taken
      | some sockfd =>
          simp only [system, pending] at taken
          obtain ⟨table, isRegistered, outcome⟩ :=
            Option.map_eq_some_iff.mp taken
          simp only [Prod.mk.injEq] at outcome
          obtain ⟨rfl, rfl⟩ := outcome
          exact .register pending isRegistered
  | receive sockfd msg =>
      by_cases member : sockfd ∈ state.connected
      · simp only [system, if_pos member] at taken
        obtain ⟨sockfds, sent, outcome⟩ := Option.map_eq_some_iff.mp taken
        simp only [Prod.mk.injEq] at outcome
        obtain ⟨rfl, rfl⟩ := outcome
        exact .receive sockfd msg sent
      · simp [system, member] at taken
  | disconnect sockfd =>
      by_cases member : sockfd ∈ state.connected
      · simp only [system, if_pos member] at taken
        obtain ⟨table, isRemoved, outcome⟩ :=
          Option.map_eq_some_iff.mp taken
        simp only [Prod.mk.injEq] at outcome
        obtain ⟨rfl, rfl⟩ := outcome
        exact .disconnect sockfd member isRemoved
      · simp [system, member] at taken
  | close sockfd =>
      by_cases member : sockfd ∈ state.closing
      · simp only [system, if_pos member, Option.some.injEq,
          Prod.mk.injEq] at taken
        obtain ⟨rfl, rfl⟩ := taken
        exact .close sockfd
      · simp [system, member] at taken

/-- Every step keeps the books. -/
theorem Bookkeeping.step
    (books : Bookkeeping state)
    (move : Move state action next events) :
    Bookkeeping next := by
  cases move with
  | accept sockfd isNew =>
      refine { books with fresh := ?_ }
      rintro other same
      obtain rfl := Option.some.inj same
      exact isNew
  | @register sockfd table pending isRegistered =>
      obtain ⟨-, count, fits⟩ := listed_registerClnt isRegistered
      obtain ⟨isNew, isOpen⟩ := books.fresh sockfd pending
      refine ⟨?_, ?_, nofun, ?_, fits⟩
      · simpa using books.once.concat isNew
      · intro other member
        rcases List.mem_append.mp member with earlier | last
        · exact books.opened other earlier
        · exact List.mem_singleton.mp last ▸ isOpen
      · rw [count, books.count, List.length_append]
        rfl
  | receive sockfd msg sent =>
      exact books
  | disconnect sockfd member isRemoved =>
      have count := clntCnt_removeClnt isRemoved
      refine ⟨books.once.erase sockfd, ?_, ?_, ?_, ?_⟩
      · intro other erased
        obtain ⟨different, earlier⟩ :=
          books.once.mem_erase_iff.mp erased
        simp [books.opened other earlier, different]
      · intro other pending
        obtain ⟨isNew, isOpen⟩ := books.fresh other pending
        have different : other ≠ sockfd := by
          rintro rfl
          exact isNew member
        refine ⟨fun erased => isNew (List.mem_of_mem_erase erased), ?_⟩
        simp [isOpen, different]
      · rw [count, books.count, List.length_erase_of_mem member]
      · rw [count]
        exact Nat.le_trans (Nat.sub_le _ _) books.fits
  | close sockfd =>
      have kept : ∀ other, other ∉ state.closing →
          other ∉ state.closing.erase sockfd :=
        fun other isOpen erased => isOpen (List.mem_of_mem_erase erased)
      refine { books with opened := ?_, fresh := ?_ }
      · exact fun other member => kept other (books.opened other member)
      · exact fun other pending =>
          ⟨(books.fresh other pending).1,
            kept other (books.fresh other pending).2⟩

/-- The books are kept in every run. -/
theorem Bookkeeping.of_reaches
    {trace : List Event}
    (reaches : system.Reaches trace state) :
    Bookkeeping state := by
  induction reaches with
  | initial =>
      constructor <;> simp [system, Table.initial]
  | step earlier taken books =>
      exact books.step (step_move taken)

/-- An accurate table stays so exactly if the last client leaves. -/
theorem Bookkeeping.listed_removeClnt_iff
    (books : Bookkeeping state)
    (listed : state.table.listed = state.connected)
    {sockfd : Nat}
    {removed : Table}
    (member : sockfd ∈ state.connected)
    (isRemoved : removeClnt state.table sockfd = some removed) :
    removed.listed = state.connected.erase sockfd ↔
      state.connected.getLast? = some sockfd := by
  obtain ⟨before, after, split⟩ := List.append_of_mem member
  have once := books.once
  rw [split, List.nodup_middle, List.nodup_cons] at once
  have notBefore : sockfd ∉ before := by
    intro isBefore
    exact once.1 (List.mem_append_left after isBefore)
  have found : state.table.listed[before.length]? = some sockfd := by
    rw [listed, split]
    simp
  have first :
      ∀ j, j < before.length → state.table.listed[j]? ≠ some sockfd := by
    intro j less same
    rw [listed, split, List.getElem?_append_left less] at same
    exact notBefore (List.mem_of_getElem? same)
  have removedListed := listed_removeClnt isRemoved found first
  rw [books.count, listed, split] at removedListed
  have erased :
      (before ++ sockfd :: after).erase sockfd = before ++ after := by
    rw [List.erase_append_right _ notBefore, List.erase_cons_head]
  rw [split, erased, removedListed]
  cases after with
  | nil =>
      have untouched :
          (before ++ [sockfd]).eraseIdx (before.length + 1) =
            before ++ [sockfd] :=
        List.eraseIdx_of_length_le (by simp)
      simp [untouched]
  | cons behind rest =>
      -- The successor is gone, and the leaving descriptor is still there.
      have different : sockfd ≠ behind := by
        rintro rfl
        simp at once
      have shifted :
          (before ++ sockfd :: behind :: rest).eraseIdx
              (before.length + 1) =
            before ++ sockfd :: rest := by
        simp [List.eraseIdx_append_of_length_le]
      have notLast : (behind :: rest).getLast? ≠ some sockfd := by
        intro last
        exact once.1 (List.mem_append_right before
          (List.mem_of_getLast? last))
      have sameLength :
          (before ++ sockfd :: behind :: rest).length - 1 =
            (before ++ sockfd :: rest).length := by
        simp
      rw [shifted, sameLength, List.take_length]
      simp [different, notLast]

/-- The table stays accurate when the client that leaves is the last one. -/
theorem Bookkeeping.listed_step
    (books : Bookkeeping state)
    (listed : state.table.listed = state.connected)
    (lastLeaves : LastLeaves state action)
    (move : Move state action next events) :
    next.table.listed = next.connected := by
  cases move with
  | accept | receive | close =>
      exact listed
  | register pending isRegistered =>
      exact listed ▸ (listed_registerClnt isRegistered).1
  | disconnect sockfd member isRemoved =>
      exact (books.listed_removeClnt_iff listed member isRemoved).mpr
        (lastLeaves sockfd member rfl)

/-- The table is accurate exactly when it lists the connected clients. -/
theorem Bookkeeping.accurate_iff
    (books : Bookkeeping state) :
    Accurate state ↔ state.table.listed = state.connected := by
  constructor
  · exact Accurate.listed
  · intro listed
    refine ⟨listed, books.once, books.opened, fun sender => ?_⟩
    rw [sendMsg_eq_filter books.fits, listed, List.drop_zero]

end Steps

/-- The table is accurate as long as only the last client leaves. -/
theorem listed_of_reaches
    {trace : List Event}
    {state : State}
    (reaches : (system.guarded LastLeaves).Reaches trace state) :
    state.table.listed = state.connected := by
  induction reaches with
  | initial =>
      rfl
  | step earlier taken listed =>
      obtain ⟨lastLeaves, stepped⟩ :=
        System.guarded_step?_eq_some.mp taken
      have books := Bookkeeping.of_reaches earlier.of_guarded
      exact books.listed_step listed lastLeaves (step_move stepped)

/--
The table of the chat server, for every run of accepts and disconnects with at
most `MAX_CLNT` clients at a time: it is accurate as long as only the client
that has connected last leaves, and the first other client that leaves makes
it inaccurate.
-/
theorem clientTable_accurate
    {trace : List Event}
    {state : State}
    (reaches : (system.guarded LastLeaves).Reaches trace state) :
    Accurate state ∧
      ∀ action next events,
        system.step? state action = some (next, events) →
        (Accurate next ↔ LastLeaves state action) := by
  have books := Bookkeeping.of_reaches reaches.of_guarded
  have listed := listed_of_reaches reaches
  refine ⟨books.accurate_iff.mpr listed, ?_⟩
  intro action next events taken
  have move := step_move taken
  rw [(books.step move).accurate_iff]
  constructor
  · intro nextListed sockfd member isDisconnect
    subst isDisconnect
    cases move with
    | disconnect _ _ isRemoved =>
        exact (books.listed_removeClnt_iff listed member isRemoved).mp
          nextListed
  · intro lastLeaves
    exact books.listed_step listed lastLeaves move

/-- Two clients connect, the first one talks, and the second one leaves. -/
theorem clientTable_accurate_twoClients :
    ∃ trace state,
      (system.guarded LastLeaves).Reaches trace state ∧
        Accurate state ∧
        trace = [.written 5 [104, 105]] ∧
        state.connected = [4] := by
  obtain ⟨trace, state, reaches, checked⟩ :=
    System.Reaches.exists_of_run?
      (by decide +kernel :
        ((system.guarded LastLeaves).run?
          (system.guarded LastLeaves).initial
          [.accept 4, .register, .accept 5, .register,
            .receive 4 [104, 105], .disconnect 5, .close 5]).any
          (fun outcome => decide (outcome.2 = [.written 5 [104, 105]] ∧
            outcome.1.connected = [4])) = true)
  obtain ⟨written, connected⟩ := of_decide_eq_true checked
  exact ⟨trace, state, reaches, (clientTable_accurate reaches).1, written,
    connected⟩

/--
Two clients connect, and the first one leaves: the table keeps its descriptor
and drops that of the other.
-/
theorem clientTable_not_accurate :
    ¬ ∀ (trace : List Event) (state : State),
      system.Reaches trace state → Accurate state := by
  intro always
  obtain ⟨trace, state, reaches, checked⟩ :=
    System.Reaches.exists_of_run?
      (by decide +kernel :
        (system.run? system.initial
          [.accept 4, .register, .accept 5, .register,
            .disconnect 4]).any
          (fun outcome => decide (outcome.1.table.listed = [4] ∧
            outcome.1.connected = [5])) = true)
  obtain ⟨listed, connected⟩ := of_decide_eq_true checked
  have accurate := (always trace state reaches).listed
  rw [listed, connected] at accurate
  simp at accurate

end CsPrimer.ChatServer
