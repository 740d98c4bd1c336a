import CsPrimer.PxShm.LogWork

namespace CsPrimer.PxShm

open Library

/-!
# A token that is taken early

When the server takes a token before the copy to the slot it prints next has
ended, nothing keeps it from printing that slot while the copy is incomplete:
the clients in the critical section can always leave it.
-/

variable
  {nclients : Nat}
  {trace events : List (Event nclients)}
  {state : State nclients}
  {sender : Fin nclients}
  {after : Shared nclients}
  {next : Client}

/-- A fresh copy is either new or was fresh before and not released. -/
theorem FreshCopy.of_append
    {offset : Nat}
    {message : Message nclients}
    (fresh : FreshCopy (trace ++ events) offset message) :
    .copied offset message ∈ events ∨
      (FreshCopy trace offset message ∧ .released offset ∉ events) := by
  obtain ⟨before, later, split, notReleased⟩ := fresh
  rcases List.append_eq_append_iff.mp split with
    ⟨front, -, isEvents⟩ | ⟨front, isTrace, isRest⟩
  · exact .inl (isEvents ▸ by simp)
  · cases front with
    | nil =>
        have isEvents : events = .copied offset message :: later :=
          isRest.symm
        exact .inl (isEvents ▸ by simp)
    | cons event rest =>
        obtain ⟨rfl, rfl⟩ :
            .copied offset message = event ∧ later = rest ++ events := by
          simpa using isRest
        simp only [List.mem_append, not_or] at notReleased
        exact .inr ⟨⟨before, rest, isTrace, notReleased.1⟩,
          notReleased.2⟩

/-- A client only comes to own a slot by a reservation. -/
theorem ClientMove.owns_before
    {before : Shared nclients}
    {process : Client}
    (move : ClientMove sender before after process next events)
    {index offset : Nat}
    (owns : next.Owns index offset) :
    process.Owns index offset ∨ events = [.reserved (sender, index)] := by
  obtain ⟨ownsOffset, isIndex⟩ := owns
  cases move with
  | stays _ _ sameSlot sameIndex =>
      exact .inl ⟨sameSlot ▸ ownsOffset, isIndex.trans sameIndex⟩
  | increments _ _ ownsNothing =>
      simp [ownsNothing.2] at ownsOffset
  | accepts _ _ ownsNothing =>
      simp [ownsNothing.2] at ownsOffset
  | reserves isReserved _ _ _ sameIndex =>
      rw [isIndex, sameIndex]
      exact .inr isReserved
  | fills target _ _ ownsTarget sameIndex =>
      refine .inl ⟨?_, isIndex.trans sameIndex⟩
      exact ownsTarget.1.trans (ownsTarget.2.symm.trans ownsOffset)
  | copies target _ _ ownsTarget =>
      simp [ownsTarget.2] at ownsOffset

/-- What is copied is the message of the client, to the slot it gives up. -/
theorem ClientMove.copied
    {before : Shared nclients}
    {process : Client}
    (move : ClientMove sender before after process next events)
    {offset : Nat}
    {message : Message nclients}
    (isCopied : .copied offset message ∈ events) :
    message = (sender, process.index) ∧ process.owns? = some offset ∧
      next.owns? = none ∧ process.crit = 0 := by
  cases move with
  | copies target isEvent _ ownsTarget outside =>
      obtain ⟨rfl, rfl⟩ :
          offset = target ∧ message = (sender, process.index) := by
        simpa [isEvent] using isCopied
      exact ⟨rfl, ownsTarget.1, ownsTarget.2, outside⟩
  | stays silent | increments silent | accepts silent | reserves silent
  | fills _ silent =>
      simp [silent] at isCopied

/--
What was copied freshly belongs to a position that has not been released, and
its copy has ended.
-/
def CopiesAhead
    (trace : List (Event nclients))
    (state : State nclients) : Prop :=
  ∀ (message : Message nclients) (offset : Nat),
    FreshCopy trace offset message →
      ¬ state.Owned message offset ∧
        ∃ position : Nat,
          (printsIn trace).length ≤ position + state.server.debt ∧
            (reservedIn trace)[position]? = some message ∧
            offset = place position

namespace CopiesAhead

/-- A step of a client. -/
theorem client_step
    (ahead : CopiesAhead trace state)
    (slots : Slots trace state)
    (silent : printsIn events = [])
    (move :
      ClientMove sender state.shared after (state.clients sender) next
        events)
    (journal : (reservedIn (trace ++ events)).Nodup) :
    CopiesAhead (trace ++ events)
      { state with
        shared := after
        clients := Function.update state.clients sender next } := by
  intro message offset fresh
  have samePrints : printsIn (trace ++ events) = printsIn trace := by
    simp [silent]
  have stillAt :
      ∀ {position : Nat}, (reservedIn trace)[position]? = some message →
        (reservedIn (trace ++ events))[position]? = some message := by
    intro position found
    have inBounds := (List.getElem?_eq_some_iff.mp found).1
    rw [reservedIn_append, List.getElem?_append_left inBounds, found]
  rw [samePrints]
  rcases fresh.of_append with isCopied | ⟨earlier, -⟩
  · obtain ⟨rfl, owned, ownsNothing, -⟩ := move.copied isCopied
    obtain ⟨position, unprinted, found, isPlace⟩ :=
      slots.owners (sender, (state.clients sender).index) offset
        ⟨owned, rfl⟩
    refine ⟨?_, position, Nat.le_add_right_of_le unprinted,
      stillAt found, isPlace⟩
    simp [State.Owned, Client.Owns, ownsNothing]
  · obtain ⟨notOwned, position, unreleased, found, isPlace⟩ :=
      ahead message offset earlier
    refine ⟨fun ownedAfter => ?_, position, unreleased, stillAt found,
      isPlace⟩
    by_cases same : message.1 = sender
    · obtain ⟨process, index⟩ := message
      obtain rfl : process = sender := same
      have owns : next.Owns index offset := by
        simpa [State.Owned] using ownedAfter
      rcases move.owns_before owns with before | isReserved
      · exact notOwned before
      · rw [isReserved, reservedIn_append, reservedIn_reserved,
          List.nodup_append_comm] at journal
        exact (List.nodup_cons.mp journal).1 (List.mem_of_getElem? found)
    · exact notOwned (by simpa [State.Owned, same] using ownedAfter)

/-- A step of the server. -/
theorem server_step
    {process : Server}
    (ahead : CopiesAhead trace state)
    (effect :
      ServerEffect (printsIn trace).length state.shared after state.server
        process events)
    (move :
      ServerMove (printsIn trace).length state.shared state.server process
        events) :
    CopiesAhead (trace ++ events)
      { state with shared := after, server := process } := by
  intro message offset fresh
  rcases fresh.of_append with isCopied | ⟨earlier, notReleased⟩
  · exact absurd isCopied (effect.copiesNothing offset message)
  · obtain ⟨notOwned, position, unreleased, found, isPlace⟩ :=
      ahead message offset earlier
    refine ⟨notOwned, position, ?_, by simpa [effect.silent.2] using found,
      isPlace⟩
    cases move with
    | stays silent sameToken sameDebt =>
        simpa [silent.1, sameDebt] using unreleased
    | takes waits silent =>
        subst silent
        have noDebt : state.server.debt = 0 := by
          simp [Server.debt, waits]
        rw [noDebt] at unreleased
        simpa using Nat.le_add_right_of_le unreleased
    | prints shown usesToken makesDebt =>
        subst shown
        rw [makesDebt.1] at unreleased
        simpa [makesDebt.2] using unreleased
    | releases last isLast released paysDebt noToken =>
        subst released
        rw [paysDebt.1, isLast] at unreleased
        have different : position ≠ last := by
          rintro rfl
          simp [isPlace] at notReleased
        have later : last + 1 ≤ position := by omega
        simpa [paysDebt.2, isLast] using later

/-- The copies stay ahead in every run without an early token. -/
theorem of_reaches
    {nloop : Fin nclients → Int}
    (reaches :
      ((system nloop).guarded Announced).Reaches trace state) :
    CopiesAhead trace state := by
  induction reaches with
  | initial =>
      intro message offset fresh
      obtain ⟨before, later, split, -⟩ := fresh
      simp at split
  | step earlier taken ahead =>
      have counts := Counts.of_reaches earlier.of_guarded
      have slots := Slots.of_reaches earlier
      obtain ⟨-, stepped⟩ := System.guarded_step?_eq_some.mp taken
      have journal := Journal.of_reaches (earlier.of_guarded.step stepped)
      rcases system_step_cases stepped with
        ⟨sender, after, process, -, clientStep, rfl⟩ |
        ⟨after, process, -, serverStep, rfl⟩
      · exact ahead.client_step slots (counts.effect clientStep).silent.1
          (client_move (counts.locals sender) clientStep)
          journal.reservedOnce
      · obtain ⟨effect, move⟩ :=
          server_effect counts.serverOk counts.msgoff serverStep
        exact ahead.server_step effect move

/-- Nothing is fresh in the next slot to print while it is still owned. -/
theorem not_fresh
    (ahead : CopiesAhead trace state)
    (counts : Counts trace state)
    (slots : Slots trace state)
    (noDebt : state.server.debt = 0)
    {owner : Message nclients}
    (owned : state.Owned owner (place (printsIn trace).length))
    (message : Message nclients) :
    ¬ FreshCopy trace (place (printsIn trace).length) message := by
  intro fresh
  obtain ⟨notOwned, position, unprinted, found, isPlace⟩ :=
    ahead message _ fresh
  rw [noDebt, Nat.add_zero] at unprinted
  rw [isPlace] at owned notOwned
  exact notOwned (slots.owner_eq counts found unprinted owned ▸ owned)

end CopiesAhead

/-- The clients can always leave the critical section for the server. -/
theorem exists_unlocked
    {nloop : Fin nclients → Int}
    {offset : Nat}
    (reaches : (system nloop).Reaches trace state)
    (waits : state.server.pc = .waitMutex)
    (incomplete : ∀ message, ¬ FreshCopy trace offset message) :
    ∃ later final,
      (system nloop).Reaches (trace ++ later) final ∧
        final.server.pc = .waitMutex ∧
        final.shared.mutex ≠ 0 ∧
        printsIn later = [] ∧
        ∀ message, ¬ FreshCopy (trace ++ later) offset message := by
  induction work : state.work nloop using Nat.strong_induction_on
    generalizing trace state with
  | h remaining inductionHypothesis =>
      by_cases unlocked : state.shared.mutex = 0
      · have counts := Counts.of_reaches reaches
        have inside : 0 < total Client.crit state.clients := by
          have mutex := counts.mutex
          have serverOutside : state.server.crit = 0 := by
            simp [Server.crit, waits]
          omega
        obtain ⟨sender, isInside⟩ := exists_of_total_pos inside
        cases stepped :
            client (nloop sender) sender state.shared
              (state.clients sender) with
        | none =>
            exfalso
            rcases client_eq_none (counts.locals sender) stepped with
              pc | ⟨pc, -⟩ | ⟨pc, -⟩ <;>
              simp [Client.crit, pc] at isInside
        | some outcome =>
            obtain ⟨after, process, events⟩ := outcome
            have taken :
                (system nloop).step? state (.client sender) =
                  some
                    ({ state with
                      shared := after
                      clients :=
                        Function.update state.clients sender process },
                      events) := by
              simp [system, stepped]
            have move := client_move (counts.locals sender) stepped
            have stillIncomplete :
                ∀ message,
                  ¬ FreshCopy (trace ++ events) offset message := by
              intro message fresh
              rcases fresh.of_append with isCopied | ⟨earlier, -⟩
              · exact Nat.ne_of_gt isInside (move.copied isCopied).2.2.2
              · exact incomplete message earlier
            obtain ⟨later, final, reached, finalWaits, finalUnlocked,
                noPrint, finalIncomplete⟩ :=
              inductionHypothesis _ (work ▸ step_work taken)
                (reaches.step taken) waits stillIncomplete rfl
            refine ⟨events ++ later, final, ?_, finalWaits, finalUnlocked,
              ?_, ?_⟩
            · simpa using reached
            · simp [noPrint, (counts.effect stepped).silent.1]
            · simpa using finalIncomplete
      · exact ⟨[], state, by simpa using reaches, waits, unlocked, rfl,
          by simpa using incomplete⟩

/-- A server with a token can print a slot no copy to which has ended. -/
theorem exists_early_print
    {nloop : Fin nclients → Int}
    (reaches : (system nloop).Reaches trace state)
    (waits : state.server.pc = .waitMutex)
    (incomplete : ∀ message,
      ¬ FreshCopy trace (place (printsIn trace).length) message) :
    ∃ later final,
      (system nloop).Reaches (trace ++ later) final ∧
        ¬ AtEvery PrintsFresh (trace ++ later) := by
  obtain ⟨later, final, reached, finalWaits, unlocked, noPrint,
      stillIncomplete⟩ :=
    exists_unlocked reaches waits incomplete
  have counts := Counts.of_reaches reached
  have samePrints : printsIn (trace ++ later) = printsIn trace := by
    simp [noPrint]
  have isIndex :
      final.server.index = (printsIn trace).length % nmsg := by
    simpa only [Server.Ok, finalWaits, samePrints] using counts.serverOk
  obtain ⟨tokens, available⟩ := Nat.exists_eq_succ_of_ne_zero unlocked
  have isOffset :
      ({ final.shared with mutex := tokens }).offsetAt
          final.server.index =
        some (place (printsIn trace).length) :=
    samePrints ▸ counts.offsetAt_index (samePrints ▸ isIndex)
  obtain ⟨last, printed⟩ :
      ∃ last,
        (system nloop).run? final [.server, .server, .server] =
          some (last, [.printed (place (printsIn trace).length)
            (final.shared.msgdata (place (printsIn trace).length))]) :=
    ⟨_, by
      simp only [System.run?, system, server, finalWaits, available,
        semWait, isOffset, Option.map_some, List.nil_append,
        List.append_nil]
      rfl⟩
  refine ⟨later ++ [.printed (place (printsIn trace).length)
    (final.shared.msgdata (place (printsIn trace).length))], last, ?_, ?_⟩
  · rw [← List.append_assoc]
    exact reached.append_run? printed
  · intro fresh
    rw [← List.append_assoc] at fresh
    obtain ⟨message, -, copied⟩ := fresh _ _ _ rfl _ _ rfl
    exact stillIncomplete message copied

end CsPrimer.PxShm
