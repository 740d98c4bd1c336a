import Mathlib.Data.List.ReduceOption
import CsPrimer.Library.History
import CsPrimer.Library.Sequence

namespace CsPrimer.Observer

open Library

/-!
# The observers of a file splitter

`FileSplitter` keeps the observers that are registered with it and notifies
them of each step of `Split`.  `RemoveProgress` erases at the position its
search has left behind, also if the search has found nothing.
-/

variable {IProgress Value : Type}

/-- A file splitter.  A registration can be the null pointer. -/
structure FileSplitter (IProgress : Type) where
  file_path_ : String
  file_num_ : Int32
  progress_vec_ : List (Option IProgress)
  deriving Repr, DecidableEq

/-- What a splitter prints and whom it notifies of which value. -/
inductive Output (IProgress Value : Type) where
  | print (text : String)
  | doProgress (progress : IProgress) (value : Value)
  deriving Repr, DecidableEq

namespace FileSplitter

/-- The constructor. -/
def construct
    (filePath : String)
    (fileNum : Int32) :
    FileSplitter IProgress × List (Output IProgress Value) :=
  ({ file_path_ := filePath
     file_num_ := fileNum
     progress_vec_ := [] },
    [.print ("processing: " ++ filePath ++ "\n"),
      .print ("to split " ++ toString fileNum ++ " small files\n")])

/-- `AddProgress`. -/
def addProgress
    (progress : Option IProgress)
    (splitter : FileSplitter IProgress) : FileSplitter IProgress :=
  { splitter with progress_vec_ := splitter.progress_vec_ ++ [progress] }

/-- The loop of `RemoveProgress`: `to_remove` is what `it` is at a match. -/
def searchLoop
    [DecidableEq IProgress]
    (progress : Option IProgress)
    (toRemove : Nat) :
    (it : Nat) → (rest : List (Option IProgress)) → Nat
  | _, [] =>
      toRemove
  | it, registered :: rest =>
      if registered = progress then
        it
      else
        searchLoop progress toRemove (it + 1) rest

/-- `RemoveProgress`. -/
def removeProgress
    [DecidableEq IProgress]
    (progress : Option IProgress)
    (splitter : FileSplitter IProgress) : Option (FileSplitter IProgress) := do
  let toRemove :=
    searchLoop progress splitter.progress_vec_.length 0 splitter.progress_vec_
  let left ← erase? splitter.progress_vec_ toRemove
  return { splitter with progress_vec_ := left }

/-- `OnProgress`: its loop skips null pointers. -/
def onProgress
    (value : Value)
    (splitter : FileSplitter IProgress) : List (Output IProgress Value) :=
  splitter.progress_vec_.flatMap fun
    | some progress => [.doProgress progress value]
    | none => []

/-- `ReadFile`. -/
def readFile : List (Output IProgress Value) :=
  [.print "Reading file...\n"]

/--
The loop of `Split` from the step `i` on; `quotient` is the division of `float`
values.  The counter stays in the range of an `int`.
-/
def splitLoop
    (quotient : Int → Int → Value)
    (splitter : FileSplitter IProgress)
    (i : Int) : List (Output IProgress Value) :=
  if i < splitter.file_num_.toInt then
    onProgress (quotient (i + 1) splitter.file_num_.toInt) splitter ++
      splitLoop quotient splitter (i + 1)
  else
    []
  termination_by (splitter.file_num_.toInt - i).toNat

/-- `Split`. -/
def split
    (quotient : Int → Int → Value)
    (splitter : FileSplitter IProgress) : List (Output IProgress Value) :=
  readFile ++ [.print "processing...\n"] ++
    splitLoop quotient splitter 0 ++ [.print "\n"]

end FileSplitter

/-- A call that changes the registrations. -/
inductive Call (IProgress : Type) where
  | addProgress (progress : Option IProgress)
  | removeProgress (progress : Option IProgress)
  deriving Repr, DecidableEq

/-- Make a call. -/
def FileSplitter.call
    [DecidableEq IProgress]
    (splitter : FileSplitter IProgress) :
    Call IProgress → Option (FileSplitter IProgress)
  | .addProgress progress => some (splitter.addProgress progress)
  | .removeProgress progress => splitter.removeProgress progress

section Registration

variable [DecidableEq IProgress]

/-- The registrations a call is to leave. -/
def expectedVec
    (registered : List (Option IProgress)) :
    Call IProgress → List (Option IProgress)
  | .addProgress progress => registered ++ [progress]
  | .removeProgress progress => registered.erase progress

/-- The splitter a call is to leave. -/
def expected
    (splitter : FileSplitter IProgress)
    (made : Call IProgress) : FileSplitter IProgress :=
  { splitter with
    progress_vec_ := expectedVec splitter.progress_vec_ made }

/-- What is to be removed is registered. -/
def Registered
    (splitter : FileSplitter IProgress) : Call IProgress → Prop
  | .addProgress _ => True
  | .removeProgress progress => progress ∈ splitter.progress_vec_

/-- The notifications of a whole split, by step and registration. -/
def notifications
    (quotient : Int → Int → Value)
    (fileNum : Int)
    (registered : List (Option IProgress)) : List (Output IProgress Value) :=
  (List.range fileNum.toNat).flatMap fun i : Nat =>
    registered.reduceOption.map fun progress =>
      .doProgress progress (quotient (i + 1) fileNum)

/-- The law of the registrations of a splitter and of its notifications. -/
structure ObserverLaw
    (quotient : Int → Int → Value)
    (splitter : FileSplitter IProgress)
    (history : List (Call IProgress)) : Prop where
  registering : Follows FileSplitter.call expected splitter history
  notifying :
    ∀ reached, history.foldlM FileSplitter.call splitter = some reached →
      reached.split quotient =
        [.print "Reading file...\n", .print "processing...\n"] ++
          notifications quotient splitter.file_num_.toInt
            (history.foldl expectedVec splitter.progress_vec_) ++
          [.print "\n"]

end Registration

namespace FileSplitter

variable
  {quotient : Int → Int → Value}
  {splitter : FileSplitter IProgress}

/-- One step notifies what is registered and not null. -/
theorem onProgress_eq (value : Value) :
    onProgress value splitter =
      splitter.progress_vec_.reduceOption.map
        (Output.doProgress · value) := by
  unfold onProgress
  induction splitter.progress_vec_ with
  | nil =>
      rfl
  | cons registered rest inductionHypothesis =>
      rw [List.flatMap_cons, inductionHypothesis]
      cases registered with
      | none =>
          rfl
      | some progress =>
          rfl

/-- The loop makes the steps that are left. -/
theorem splitLoop_eq
    (left done : Nat)
    (remaining : (splitter.file_num_.toInt - done).toNat = left) :
    splitLoop quotient splitter done =
      (List.range' done left).flatMap fun i =>
        splitter.progress_vec_.reduceOption.map fun progress =>
          .doProgress progress (quotient (i + 1) splitter.file_num_.toInt) := by
  induction left generalizing done with
  | zero =>
      have atEnd : ¬ (done : Int) < splitter.file_num_.toInt := by
        omega
      rw [splitLoop, if_neg atEnd]
      rfl
  | succ left inductionHypothesis =>
      have before : (done : Int) < splitter.file_num_.toInt := by
        omega
      have later := inductionHypothesis (done + 1) (by omega)
      rw [splitLoop, if_pos before, List.range'_succ, List.flatMap_cons,
        onProgress_eq, ← later]
      rfl

/-- A split notifies at every step whoever is registered. -/
theorem split_eq :
    split quotient splitter =
      [.print "Reading file...\n", .print "processing...\n"] ++
        notifications quotient splitter.file_num_.toInt
          splitter.progress_vec_ ++
        [.print "\n"] := by
  have steps :=
    @splitLoop_eq IProgress Value quotient splitter
      splitter.file_num_.toInt.toNat 0 (by omega)
  rw [split, notifications, List.range_eq_range', ← steps]
  rfl

variable
  [DecidableEq IProgress]
  {progress : Option IProgress}

/-- The search stops at the first registration, or leaves `to_remove` alone. -/
theorem searchLoop_eq
    (it : Nat)
    (rest : List (Option IProgress)) :
    searchLoop progress (it + rest.length) it rest =
      it + rest.idxOf progress := by
  induction rest generalizing it with
  | nil =>
      rfl
  | cons registered rest inductionHypothesis =>
      by_cases isMatch : registered = progress
      · rw [searchLoop, if_pos isMatch, isMatch, List.idxOf_cons_self]
        rfl
      · have later := inductionHypothesis (it + 1)
        rw [Nat.add_right_comm] at later
        rw [searchLoop, if_neg isMatch, List.idxOf_cons_ne _ isMatch]
        simpa [Nat.add_assoc, Nat.add_comm, Nat.add_left_comm] using later

theorem removeProgress_eq :
    removeProgress progress splitter =
      (erase? splitter.progress_vec_
        (splitter.progress_vec_.idxOf progress)).map fun left =>
          { splitter with progress_vec_ := left } := by
  have position :
      searchLoop progress splitter.progress_vec_.length 0
          splitter.progress_vec_ =
        splitter.progress_vec_.idxOf progress := by
    simpa using searchLoop_eq 0 splitter.progress_vec_
  rw [removeProgress, position]
  cases erase? splitter.progress_vec_ _ with
  | none =>
      rfl
  | some left =>
      rfl

/-- A call does what is expected exactly if what it removes is registered. -/
theorem call_eq_iff (made : Call IProgress) :
    splitter.call made = some (expected splitter made) ↔
      Registered splitter made := by
  cases made with
  | addProgress progress =>
      exact iff_of_true rfl trivial
  | removeProgress progress =>
      by_cases present : progress ∈ splitter.progress_vec_
      · refine iff_of_true ?_ present
        rw [call, removeProgress_eq, erase?_idxOf present]
        rfl
      · refine iff_of_false ?_ present
        rw [call, removeProgress_eq, erase?_idxOf_of_notMem present]
        simp

end FileSplitter

variable [DecidableEq IProgress]

theorem foldl_expected
    (splitter : FileSplitter IProgress)
    (history : List (Call IProgress)) :
    history.foldl expected splitter =
      { splitter with
        progress_vec_ :=
          history.foldl expectedVec splitter.progress_vec_ } := by
  induction history generalizing splitter with
  | nil =>
      rfl
  | cons made history inductionHypothesis =>
      exact inductionHypothesis (expected splitter made)

/--
The law of the registrations holds of exactly the histories in which every
observer that is removed is registered at that moment.
-/
theorem observerLaw_iff
    (quotient : Int → Int → Value)
    (splitter : FileSplitter IProgress)
    (history : List (Call IProgress)) :
    ObserverLaw quotient splitter history ↔
      Permits expected Registered splitter history := by
  rw [← follows_iff_permits
    (fun splitter : FileSplitter IProgress => splitter.call_eq_iff)]
  constructor
  · exact ObserverLaw.registering
  · intro follows
    refine ⟨follows, fun reached isReached => ?_⟩
    have sameState : history.foldl expected splitter = reached :=
      Option.some.inj (follows.foldlM_eq.symm.trans isReached)
    rw [← sameState, foldl_expected, FileSplitter.split_eq]

/-- An observer is removed that has never been registered. -/
theorem removeProgress_unregistered :
    ¬ ObserverLaw Prod.mk
      (FileSplitter.construct "a.zip" 2 :
        FileSplitter Nat × List (Output Nat (Int × Int))).1
      [.removeProgress (some 7)] := by
  intro law
  have hasOutcome := law.registering.foldlM_eq
  contradiction

end CsPrimer.Observer
