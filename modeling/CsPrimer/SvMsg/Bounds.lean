import CsPrimer.SvMsg.ReplyCorrect
import CsPrimer.SvMsg.Servers

namespace CsPrimer.SvMsg

open Library

/-!
# Which accesses of the System V servers stay inside `mtext`

`MAXMSG` is the size of `buf`, but it is also what the servers ask `msgrcv`
and `fgets` to store in `mtext`, and what they subtract `n` from to get the
room behind a request.  Every step that stores ends what it stores by a NUL,
and it stays inside `mtext` exactly if the NUL does.  The kernel and the file
system answer as they like.
-/

section Conditions

/-- An offset of `mtext`. -/
def InMtext (offset : Int) : Prop :=
  0 ≤ offset ∧ offset < textSize

instance (offset : Int) : Decidable (InMtext offset) :=
  inferInstanceAs (Decidable (_ ∧ _))

@[simp]
theorem inMtext_natCast (offset : Nat) :
    InMtext (offset : Int) ↔ offset < textSize := by
  simp [InMtext]

/-- Where the NUL belongs that terminates a pathname. -/
def obtainNul : Answer → Int
  | .received text => text.length
  | .failed => -1
  | _ => 0

/-- Where the NUL belongs behind the error text or the next line. -/
def respondNul : ReplyPc → Answer → Int
  | .openFile _ _ n, .found (.missing strerror) =>
      n + (errorSuffix strerror).length
  | .readLine stream, _ => ((linesOf stream).headD []).length
  | _, _ => 0

/-- Where a step of `msgserver1q` has to store a NUL. -/
def serverNul (process : Server) (answer : Answer) : Int :=
  match process.pc with
  | .receive => obtainNul answer
  | .reply pc => respondNul pc answer
  | _ => 0

/-- Where a step of `msgservernq` or one of its children has to. -/
def familyNul (state : Family) : FamilyAction → Int
  | .parent answer =>
      match state.parent.pc with
      | .receive => obtainNul answer
      | _ => 0
  | .child index answer =>
      match state.children[index]? with
      | some process => respondNul process.reply.pc answer
      | none => 0

end Conditions

section Steps

variable
  {mtext : Mtext}
  {answer : Answer}

/-- What a request leaves for its reply. -/
def Obtained.Ready : Obtained → Prop
  | .request _ _ ptr n _ => ptr ≤ n ∧ n < textSize
  | _ => True

/-- What the steps of a reply leave for those that follow. -/
def ReplyPc.Ready : ReplyPc → Prop
  | .openFile _ ptr n => ptr ≤ n ∧ n < textSize
  | .sendError n | .sendLine n _ => n ≤ textSize
  | _ => True

/-- The pathname is terminated inside `mtext`, or there is a fault. -/
theorem obtain_bounds
    {result : Obtained}
    (taken : obtain mtext answer = some result) :
    (result = .fault ↔ ¬ InMtext (obtainNul answer)) ∧ result.Ready := by
  cases answer with
  | received text =>
      have isNul : InMtext (obtainNul (.received text)) ↔
          text.length < textSize :=
        inMtext_natCast text.length
      rw [isNul]
      by_cases tooLong : maxMsg < text.length
      · simp [obtain, tooLong] at taken
      by_cases stores : text.length ≤ textSize
      · obtain ⟨middle, stored, -⟩ :=
          (Buffer.Holds.nil mtext).store List.length_nil text (by omega)
        simp only [obtain, if_neg tooLong, stored] at taken
        by_cases isEmpty : text = []
        · rw [if_pos isEmpty, Option.some.injEq] at taken
          subst taken isEmpty
          exact ⟨by simp, trivial⟩
        · rw [if_neg isEmpty, Option.some.injEq] at taken
          subst taken
          by_cases inside : text.length < textSize
          · rcases splitRequest_cases middle inside with
              ⟨next, isSkipped⟩ |
                ⟨number, path, ptr, next, isRequest, ordered⟩
            · rw [isSkipped]
              exact ⟨by simp [inside], trivial⟩
            · rw [isRequest]
              exact ⟨by simp [inside], ordered, inside⟩
          · rw [splitRequest_overflows middle (Nat.le_of_not_lt inside)]
            exact ⟨by simp [inside], trivial⟩
      · have stored : mtext.store? 0 text = none :=
          dif_neg (by omega)
        simp only [obtain, if_neg tooLong, stored, Option.some.injEq]
          at taken
        subst taken
        exact ⟨by simp; omega, trivial⟩
  | failed =>
      obtain rfl := Option.some.inj taken
      exact ⟨by simp [obtainNul, InMtext], trivial⟩
  | found | sent | notSent | forked | notForked | done =>
      simp [obtain] at taken

/-- The error text is printed inside, or there is a fault. -/
theorem cannotOpen_bounds
    {ptr n : Nat}
    (path : List UInt8)
    (strerror : ErrorText)
    (mtext : Mtext)
    (ordered : ptr ≤ n)
    (inside : n < textSize) :
    ((cannotOpen ptr n strerror mtext).pc = .faulted ↔
        ¬ InMtext (respondNul (.openFile path ptr n)
          (.found (.missing strerror)))) ∧
      (cannotOpen ptr n strerror mtext).pc.Ready := by
  have isNul : InMtext (respondNul (.openFile path ptr n)
      (.found (.missing strerror))) ↔
        n + (errorSuffix strerror).length < textSize :=
    inMtext_natCast (n + (errorSuffix strerror).length)
  rw [isNul]
  by_cases fits : n + (errorSuffix strerror).length < textSize
  · obtain ⟨printed, rest, isBytes, moves⟩ :=
      cannotOpen_eq ptr strerror mtext fits
    have total := mtext.length_eq
    have isFront : ptr ≤ (mtext.bytes.take n).length := by
      rw [List.length_take]
      omega
    obtain ⟨text, isText⟩ :=
      Option.isSome_iff_exists.mp (string?_isSome_iff.mpr
        (by rw [isBytes, List.drop_append_of_le_length isFront]; simp :
          0 ∈ printed.bytes.drop ptr))
    obtain ⟨next, moved, isShort, -⟩ := moves text isText
    rw [moved]
    exact ⟨by simp [fits], isShort⟩
  · have isFault := cannotOpen_overflows ptr strerror mtext inside fits
    rw [isFault]
    exact ⟨by simp [fits], trivial⟩

/-- The next line is stored inside, or there is a fault. -/
theorem readLine_bounds
    (stream : List UInt8)
    (answer : Answer)
    (mtext : Mtext) :
    ((readLine stream mtext).pc = .faulted ↔
        ¬ InMtext (respondNul (.readLine stream) answer)) ∧
      (readLine stream mtext).pc.Ready := by
  have isNul : InMtext (respondNul (.readLine stream) answer) ↔
      ((linesOf stream).headD []).length < textSize :=
    inMtext_natCast ((linesOf stream).headD []).length
  rw [isNul]
  cases isLines : linesOf stream with
  | nil =>
      rw [linesOf_eq_nil_iff.mp isLines, readLine_nil]
      exact ⟨by simp, trivial⟩
  | cons line later =>
      rw [List.headD_cons]
      by_cases fits : line.length < textSize
      · obtain ⟨next, rest, reads, -, -⟩ := readLine_eq mtext isLines fits
        rw [reads]
        refine ⟨by simp [fits], Nat.le_of_lt (Nat.lt_of_le_of_lt ?_ fits)⟩
        exact (List.takeWhile_prefix _).length_le
      · have isFault := readLine_overflows mtext isLines fits
        rw [isFault]
        exact ⟨by simp [fits], trivial⟩

/-- Whatever is stored for a reply is stored inside, or there is a fault. -/
theorem respond_bounds
    {reply next : Reply}
    {texts : List (List UInt8)}
    (isReady : reply.pc.Ready)
    (taken : respond reply answer = some (next, texts)) :
    (next.pc = .faulted ↔ ¬ InMtext (respondNul reply.pc answer)) ∧
      next.pc.Ready := by
  obtain ⟨pc, mtext⟩ := reply
  cases pc with
  | openFile path ptr n =>
      cases answer with
      | found file =>
          cases file with
          | content bytes =>
              simp only [respond, Option.some.injEq, Prod.mk.injEq] at taken
              obtain ⟨rfl, -⟩ := taken
              exact ⟨by simp [respondNul, InMtext], trivial⟩
          | missing strerror =>
              simp only [respond, Option.some.injEq, Prod.mk.injEq] at taken
              obtain ⟨rfl, -⟩ := taken
              exact cannotOpen_bounds path strerror mtext isReady.1 isReady.2
      | received | failed | sent | notSent | forked | notForked | done =>
          simp [respond] at taken
  | readLine stream =>
      cases answer with
      | done =>
          simp only [respond, Option.some.injEq, Prod.mk.injEq] at taken
          obtain ⟨rfl, -⟩ := taken
          exact readLine_bounds stream .done mtext
      | received | failed | found | sent | notSent | forked | notForked =>
          simp [respond] at taken
  | sendError n | sendLine n stream =>
      simp only [respond] at taken
      obtain ⟨rfl, -⟩ := send_eq isReady taken
      exact ⟨by simp [respondNul, InMtext], trivial⟩
  | finished | faulted =>
      simp [respond] at taken

/-- The reply a server is at can go on. -/
def ServerPc.Ready : ServerPc → Prop
  | .reply pc => pc.Ready
  | _ => True

/-- The server stores inside `mtext`, or there is a fault. -/
theorem server_bounds
    {behind : Buffer 7}
    {process next : Server}
    {outputs : List Output}
    (isReady : process.pc.Ready)
    (taken : server behind process answer = some (next, outputs)) :
    (next.pc = .faulted ↔ ¬ InMtext (serverNul process answer)) ∧
      next.pc.Ready := by
  obtain ⟨pc, i, mtype, mtext⟩ := process
  cases pc with
  | receive =>
      simp only [server, Option.map_eq_some_iff] at taken
      obtain ⟨result, obtained, shape⟩ := taken
      obtain ⟨faults, ready⟩ := obtain_bounds obtained
      simp only [serverNul]
      rw [← faults]
      cases result with
      | fault =>
          obtain ⟨rfl, -⟩ := Prod.mk.inj shape
          exact ⟨by simp, trivial⟩
      | skipped mtext =>
          obtain ⟨rfl, -⟩ := Prod.mk.inj shape
          simp only [Server.again]
          split <;> exact ⟨by simp, trivial⟩
      | request number path ptr n mtext =>
          obtain ⟨rfl, -⟩ := Prod.mk.inj shape
          exact ⟨by simp, ready⟩
  | reply pc =>
      simp only [server] at taken
      split at taken
      case isTrue refused =>
        obtain ⟨rfl, -⟩ := Prod.mk.inj (Option.some.inj taken)
        refine ⟨?_, trivial⟩
        cases pc with
        | sendError | sendLine =>
            simp [serverNul, respondNul, InMtext]
        | openFile | readLine | finished | faulted =>
            simp [ReplyPc.sends] at refused
      case isFalse =>
        obtain ⟨⟨reply, texts⟩, responds, shape⟩ :=
          Option.map_eq_some_iff.mp taken
        obtain ⟨rfl, -⟩ := Prod.mk.inj shape
        have replyReady : pc.Ready := isReady
        obtain ⟨faults, ready⟩ := respond_bounds replyReady responds
        simp only [serverNul]
        rw [← faults]
        obtain ⟨pc, mtext⟩ := reply
        cases pc <;> exact ⟨by simp [Server.resume], ready⟩
  | sendEnd =>
      have stays : InMtext 0 := by decide
      simp only [server] at taken
      split at taken
      · obtain ⟨rfl, -⟩ := Prod.mk.inj (Option.some.inj taken)
        simp only [Server.again, serverNul]
        split <;> exact ⟨by simp [stays], trivial⟩
      · obtain ⟨rfl, -⟩ := Prod.mk.inj (Option.some.inj taken)
        simp only [Server.again, serverNul]
        split <;> exact ⟨by simp [stays], trivial⟩
      · simp at taken
  | returned | exited | faulted =>
      simp [server] at taken

/-- The child that is to be forked can go on. -/
def ParentPc.Ready : ParentPc → Prop
  | .fork _ ptr n => ptr ≤ n ∧ n < textSize
  | _ => True

/-- The parent stores inside `mtext`, or there is a fault. -/
theorem parent_bounds
    {process next : Parent}
    {forked : List Child}
    {outputs : List Output}
    (isReady : process.pc.Ready)
    (taken : parent process answer = some (next, forked, outputs)) :
    (next.pc = .faulted ↔
        process.pc = .receive ∧ ¬ InMtext (obtainNul answer)) ∧
      next.pc.Ready ∧
      ∀ later ∈ forked,
        later.reply.pc ≠ .faulted ∧ later.reply.pc.Ready := by
  obtain ⟨pc, i, writefd, mtext⟩ := process
  cases pc with
  | receive =>
      simp only [parent, Option.map_eq_some_iff] at taken
      obtain ⟨result, obtained, shape⟩ := taken
      obtain ⟨faults, ready⟩ := obtain_bounds obtained
      rw [← faults]
      cases result with
      | fault =>
          simp only [Prod.mk.injEq] at shape
          obtain ⟨rfl, rfl, -⟩ := shape
          exact ⟨by simp, trivial, by simp⟩
      | skipped mtext =>
          simp only [Prod.mk.injEq] at shape
          obtain ⟨rfl, rfl, -⟩ := shape
          simp only [Parent.again]
          split <;> exact ⟨by simp, trivial, by simp⟩
      | request number path ptr n mtext =>
          simp only [Prod.mk.injEq] at shape
          obtain ⟨rfl, rfl, -⟩ := shape
          exact ⟨by simp, ready, by simp⟩
  | fork path ptr n =>
      cases answer with
      | forked =>
          simp only [parent, Option.some.injEq, Prod.mk.injEq] at taken
          obtain ⟨rfl, rfl, -⟩ := taken
          have childReady : (ReplyPc.openFile path ptr n).Ready := isReady
          simp only [Parent.again]
          split <;> exact ⟨by simp, trivial, by simp [childReady]⟩
      | notForked =>
          simp only [parent, Option.some.injEq, Prod.mk.injEq] at taken
          obtain ⟨rfl, rfl, -⟩ := taken
          simp only [Parent.again]
          split <;> exact ⟨by simp, trivial, by simp⟩
      | received | failed | found | sent | notSent | done =>
          simp [parent] at taken
  | returned | faulted =>
      simp [parent] at taken

end Steps

section Runs

/-- `msgserver1q` with any answers to its calls. -/
def serverRuns
    (behind : Buffer 7)
    (mtext : Mtext) :
    System Server Answer Output where
  initial := Server.initial mtext
  step? := server behind

/-- `msgservernq` and its children with any answers to their calls. -/
def familyRuns (mtext : Mtext) : System Family FamilyAction Output where
  initial := { parent := Parent.initial mtext, children := [] }
  step? := family

/-- Some process has accessed its buffer outside of `mtext`. -/
def Family.Faulted (state : Family) : Prop :=
  state.parent.pc = .faulted ∨
    ∃ process ∈ state.children, process.reply.pc = .faulted

/-- All processes of a family can go on. -/
structure Family.Ready (state : Family) : Prop where
  parent :
    state.parent.pc.Ready
  children :
    ∀ process ∈ state.children, process.reply.pc.Ready

/-- A process of a family stores inside `mtext`, or there is a fault. -/
theorem family_bounds
    {state next : Family}
    {action : FamilyAction}
    {outputs : List Output}
    (running : ¬ state.Faulted)
    (isReady : state.Ready)
    (taken : family state action = some (next, outputs)) :
    (next.Faulted ↔ ¬ InMtext (familyNul state action)) ∧ next.Ready := by
  obtain ⟨notParent, notChild⟩ := not_or.mp running
  have others : ∀ process ∈ state.children, process.reply.pc ≠ .faulted :=
    fun process member isFault => notChild ⟨process, member, isFault⟩
  cases action with
  | parent answer =>
      obtain ⟨⟨process, forked, observed⟩, moved, shape⟩ :=
        Option.map_eq_some_iff.mp taken
      obtain ⟨rfl, -⟩ := Prod.mk.inj shape
      obtain ⟨faults, ready, made⟩ := parent_bounds isReady.parent moved
      have noChild :
          ¬ ∃ process ∈ state.children ++ forked,
            process.reply.pc = .faulted := by
        rintro ⟨process, member, isFault⟩
        rcases List.mem_append.mp member with inOld | inNew
        · exact others process inOld isFault
        · exact (made process inNew).1 isFault
      constructor
      · rw [Family.Faulted, or_iff_left noChild, faults]
        have stays : InMtext 0 := by decide
        cases isPc : state.parent.pc <;> simp [familyNul, isPc, stays]
      · refine ⟨ready, fun process member => ?_⟩
        rcases List.mem_append.mp member with inOld | inNew
        · exact isReady.children process inOld
        · exact (made process inNew).2
  | child index answer =>
      simp only [family] at taken
      split at taken
      · simp at taken
      case h_2 process isProcess =>
        obtain ⟨⟨later, observed⟩, moved, shape⟩ :=
          Option.map_eq_some_iff.mp taken
        obtain ⟨rfl, -⟩ := Prod.mk.inj shape
        obtain ⟨⟨reply, texts⟩, responds, shape⟩ :=
          Option.map_eq_some_iff.mp moved
        obtain ⟨rfl, -⟩ := Prod.mk.inj shape
        have member : process ∈ state.children :=
          List.mem_of_getElem? isProcess
        obtain ⟨faults, ready⟩ :=
          respond_bounds (isReady.children process member) responds
        constructor
        · simp only [familyNul, isProcess]
          rw [← faults, Family.Faulted, or_iff_right notParent]
          constructor
          · rintro ⟨other, inChildren, isFault⟩
            rcases List.mem_or_eq_of_mem_set inChildren with inOld | rfl
            · exact absurd isFault (others other inOld)
            · exact isFault
          · intro isFault
            obtain ⟨bound, -⟩ := List.getElem?_eq_some_iff.mp isProcess
            exact ⟨_, List.mem_set bound _, isFault⟩
        · refine ⟨isReady.parent, fun other inChildren => ?_⟩
          rcases List.mem_or_eq_of_mem_set inChildren with inOld | rfl
          · exact isReady.children other inOld
          · exact ready

/--
Every access to `mtext`, for all results of `msgrcv`, all requests and all
files: as long as every NUL the two servers have to store belongs inside
`mtext` there is no fault, and a step that has to store one elsewhere is a
fault.
-/
theorem svmsgServers_bounds
    (behind : Buffer 7)
    (mtext : Mtext) :
    (serverRuns behind mtext).BadExactlyOutside
        (fun process answer => InMtext (serverNul process answer))
        (fun process => process.pc = .faulted) ∧
      (familyRuns mtext).BadExactlyOutside
        (fun state action => InMtext (familyNul state action))
        Family.Faulted := by
  constructor
  · apply System.BadExactlyOutside.of_invariant
      fun process => process.pc.Ready
    · exact ⟨by simp [serverRuns, Server.initial], trivial⟩
    · intro process next answer outputs running isReady taken
      exact server_bounds isReady taken
  · apply System.BadExactlyOutside.of_invariant Family.Ready
    · refine ⟨?_, trivial, ?_⟩ <;>
        simp [familyRuns, Parent.initial, Family.Faulted]
    · intro state next action outputs running isReady taken
      exact family_bounds running isReady taken

/--
A child of `msgservernq` exits and interrupts the `msgrcv` of its parent: the
parent stores a NUL in front of `mtext`.
-/
theorem svmsgServers_not_inBounds :
    ¬ ∀ (behind : Buffer 7) (mtext : Mtext),
      (∀ trace process, (serverRuns behind mtext).Reaches trace process →
        process.pc ≠ .faulted) ∧
      ∀ trace state, (familyRuns mtext).Reaches trace state →
        ¬ state.Faulted := by
  intro always
  have never := (always (.filled 7 0) (.filled textSize 0)).2
  obtain ⟨trace, state, reaches, left⟩ :=
    System.Reaches.exists_of_run?
      (by decide +kernel :
        ((familyRuns (.filled textSize 0)).run?
          (familyRuns (.filled textSize 0)).initial
          [.parent (.received (ascii "7 f")), .parent .forked,
            .child 0 (.found (.content [])), .child 0 .done,
            .parent .failed]).any
          (fun outcome => decide (
            outcome.1.parent.pc = .faulted ∧
              outcome.1.children.map (·.reply.pc) = [.finished])) = true)
  exact never trace state reaches (.inl (of_decide_eq_true left).1)

end Runs

end CsPrimer.SvMsg
