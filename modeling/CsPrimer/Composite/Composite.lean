import CsPrimer.Library.History
import CsPrimer.Library.Sequence
import CsPrimer.Library.Traversal

namespace CsPrimer.Composite

open Library

/-!
# Composites

A composite keeps pointers to components, which are leaves and composites.
`Process` goes through what is below a composite in pre-order.  The loop of
`Remove` erases inside the search, at `end()`, and not after it: a call does
what it is to do only if there is nothing to search.
-/

/-- A pointer to a component. -/
inductive Component where
  | leaf (id : Nat)
  | composite (id : Nat)
  deriving Repr, DecidableEq

/-- The leaves and the composites there are. -/
structure Objects where
  leafName_ : Nat → String
  name_ : Nat → String
  elements_ : Nat → List Component

namespace Objects

/-- The constructors: a name for each object, and no elements. -/
def construct (leafName name : Nat → String) : Objects where
  leafName_ := leafName
  name_ := name
  elements_ := fun _ => []

/-- Assign the elements of a composite. -/
def setElements
    (objects : Objects)
    (id : Nat)
    (elements : List Component) : Objects :=
  { objects with
    elements_ := Function.update objects.elements_ id elements }

/-- `Add`. -/
def add
    (objects : Objects)
    (id : Nat)
    (element : Component) : Objects :=
  objects.setElements id (objects.elements_ id ++ [element])

/--
The loop of `Remove` over the elements from `it` on.  A match assigns `target`
and leaves the loop; before that `target` is `end()`.
-/
def removeLoop
    (element : Component)
    (target : Nat) :
    (elements rest : List Component) → Option (List Component)
  | elements, [] =>
      some elements
  | elements, first :: rest =>
      if first = element then
        some elements
      else do
        let left ← erase? elements target
        removeLoop element target left rest

/-- `Remove`. -/
def remove
    (objects : Objects)
    (id : Nat)
    (element : Component) : Option Objects := do
  let elements := objects.elements_ id
  let left ← removeLoop element elements.length elements elements
  return objects.setElements id left

/-- The pointers a component keeps. -/
def childrenOf (objects : Objects) : Component → List Component
  | .leaf _ => []
  | .composite id => objects.elements_ id

/-- The line a component prints. -/
def line (objects : Objects) : Component → String
  | .leaf id => "Leaf(" ++ objects.leafName_ id ++ ")::Process\n"
  | .composite id => "Composite(" ++ objects.name_ id ++ ")::Process\n"

/-- `Process` with calls up to a depth; it has no outcome below that. -/
def process
    (objects : Objects) :
    (depth : Nat) → Component → Option (List String)
  | 0, _ =>
      none
  | _ + 1, .leaf id =>
      some [objects.line (.leaf id)]
  | depth + 1, .composite id => do
      let printed ← (objects.elements_ id).mapM (objects.process depth)
      return objects.line (.composite id) :: printed.flatten

end Objects

/-- A call on a composite. -/
inductive Call where
  | add (id : Nat) (element : Component)
  | remove (id : Nat) (element : Component)
  deriving Repr, DecidableEq

/-- Make a call. -/
def Objects.call (objects : Objects) : Call → Option Objects
  | .add id element => some (objects.add id element)
  | .remove id element => objects.remove id element

/-- What a call is to do: the first occurrence is deleted, if there is one. -/
def expected (objects : Objects) : Call → Objects
  | .add id element => objects.add id element
  | .remove id element =>
      objects.setElements id ((objects.elements_ id).erase element)

/-- What is removed from has no elements. -/
def RemovesFromEmpty (objects : Objects) : Call → Prop
  | .add _ _ => True
  | .remove id _ => objects.elements_ id = []

/-- A call of `Process` ends, and what it prints are these lines. -/
def Processes
    (objects : Objects)
    (root : Component)
    (lines : List String) : Prop :=
  ∃ depth, ∀ more, depth ≤ more → objects.process more root = some lines

/--
The law of the elements of new composites, and of `Process` for every tree that
has been built: it visits in pre-order exactly what the tree is to have.
-/
structure CompositeLaw
    (leafName name : Nat → String)
    (history : List Call) : Prop where
  keeping :
    Follows Objects.call expected (.construct leafName name) history
  visiting :
    ∀ reached,
      history.foldlM Objects.call (.construct leafName name) = some reached →
      ∀ root, AcyclicBelow reached.childrenOf root →
        ∃ visited,
          PreOrder
              (history.foldl expected (.construct leafName name)).childrenOf
              [root] visited ∧
            (∀ component, component ∈ visited ↔
              Within
                (history.foldl expected
                  (.construct leafName name)).childrenOf
                component root) ∧
            Processes reached root (visited.map reached.line)

namespace Objects

section Calls

variable
  {objects : Objects}
  {id : Nat}
  {element : Component}

/-- A removal from no elements leaves none. -/
theorem remove_eq_of_empty (isEmpty : objects.elements_ id = []) :
    objects.remove id element = some (objects.setElements id []) := by
  rw [remove, isEmpty]
  rfl

/-- The first element decides the search: it stays, or `end()` is erased. -/
theorem remove_eq_of_cons
    {first : Component}
    {rest : List Component}
    (isCons : objects.elements_ id = first :: rest) :
    objects.remove id element =
      if first = element then
        some (objects.setElements id (first :: rest))
      else
        none := by
  by_cases isMatch : first = element
  · rw [remove, isCons, removeLoop, if_pos isMatch, if_pos isMatch]
    rfl
  · rw [remove, isCons, removeLoop, if_neg isMatch, if_neg isMatch, erase?_end]
    rfl

theorem setElements_inj
    {left right : List Component} :
    objects.setElements id left = objects.setElements id right ↔
      left = right := by
  constructor
  · intro same
    have sameElements := congrArg (fun after => after.elements_ id) same
    simpa [setElements] using sameElements
  · rintro rfl
    rfl

/-- A call does what is expected exactly if nothing has to be searched. -/
theorem call_eq_iff (made : Call) :
    objects.call made = some (expected objects made) ↔
      RemovesFromEmpty objects made := by
  cases made with
  | add id element =>
      exact iff_of_true rfl trivial
  | remove id element =>
      rw [call, expected, RemovesFromEmpty]
      cases isElements : objects.elements_ id with
      | nil =>
          refine iff_of_true ?_ rfl
          rw [remove_eq_of_empty isElements]
          rfl
      | cons first rest =>
          refine iff_of_false ?_ (List.cons_ne_nil first rest)
          rw [remove_eq_of_cons isElements]
          split
          case isTrue isMatch =>
            rw [Option.some.injEq, setElements_inj, isMatch,
              List.erase_cons_head]
            exact List.cons_ne_self element rest
          case isFalse =>
            exact nofun

end Calls

section Processing

variable
  {objects : Objects}
  {forest visited : List Component}
  {root : Component}

/-- The line of a component precedes what its elements print. -/
theorem process_succ
    {depth : Nat}
    {printed : List (List String)}
    (below :
      (objects.childrenOf root).mapM (objects.process depth) =
        some printed) :
    objects.process (depth + 1) root =
      some (objects.line root :: printed.flatten) := by
  cases root with
  | leaf id =>
      have isNil : [] = printed := by
        simpa [childrenOf] using below
      rw [process, ← isNil]
      rfl
  | composite id =>
      rw [childrenOf] at below
      rw [process, below]
      rfl

/-- Components that are traversed print their lines. -/
theorem mapM_process_of_preOrder
    (traversed : PreOrder objects.childrenOf forest visited) :
    ∃ depth, ∀ more, depth ≤ more →
      ∃ printed,
        forest.mapM (objects.process more) = some printed ∧
          printed.flatten = visited.map objects.line := by
  induction traversed with
  | nil =>
      exact ⟨0, fun more _ => ⟨[], rfl, rfl⟩⟩
  | @cons top below rest later _ _ below_ih later_ih =>
      obtain ⟨depthBelow, processBelow⟩ := below_ih
      obtain ⟨depthLater, processLater⟩ := later_ih
      refine ⟨max (depthBelow + 1) depthLater, fun more enough => ?_⟩
      obtain ⟨less, rfl⟩ : ∃ less, more = less + 1 :=
        Nat.exists_eq_add_one_of_ne_zero (by omega)
      obtain ⟨printed, isPrinted, lines⟩ := processBelow less (by omega)
      obtain ⟨others, areOthers, otherLines⟩ :=
        processLater (less + 1) (by omega)
      refine ⟨(objects.line top :: printed.flatten) :: others, ?_, ?_⟩
      · rw [List.mapM_cons, process_succ isPrinted, areOthers]
        rfl
      · rw [List.flatten_cons, lines, otherLines, ← List.map_cons,
          ← List.map_append]

/-- `Process` prints a line for each visit of the traversal. -/
theorem processes_of_preOrder
    (traversed : PreOrder objects.childrenOf [root] visited) :
    Processes objects root (visited.map objects.line) := by
  obtain ⟨depth, processAll⟩ := mapM_process_of_preOrder traversed
  refine ⟨depth, fun more enough => ?_⟩
  obtain ⟨printed, isPrinted, lines⟩ := processAll more enough
  rw [List.mapM_cons, List.mapM_nil] at isPrinted
  cases processed : objects.process more root with
  | none =>
      rw [processed] at isPrinted
      contradiction
  | some single =>
      rw [processed] at isPrinted
      obtain rfl := Option.some.inj isPrinted
      rw [← lines, List.flatten_singleton]

end Processing

section Building

variable {objects : Objects}

theorem finitelyBranched_construct (leafName name : Nat → String) :
    FinitelyBranched (construct leafName name).childrenOf := by
  refine Set.finite_empty.subset fun component branches => branches ?_
  cases component with
  | leaf id =>
      rfl
  | composite id =>
      rfl

theorem FinitelyBranched.setElements
    (finite : FinitelyBranched objects.childrenOf)
    (id : Nat)
    (elements : List Component) :
    FinitelyBranched (objects.setElements id elements).childrenOf := by
  refine (finite.insert (.composite id)).subset fun component branches => ?_
  by_cases isChanged : component = .composite id
  · exact Or.inl isChanged
  · refine Or.inr fun isEmpty => branches ?_
    cases component with
    | leaf other =>
        rfl
    | composite other =>
        have isOther : other ≠ id := by
          rintro rfl
          exact isChanged rfl
        exact (Function.update_of_ne isOther _ _).trans isEmpty

/-- Only composites that have been called have elements. -/
theorem finitelyBranched_foldl
    (finite : FinitelyBranched objects.childrenOf)
    (history : List Call) :
    FinitelyBranched (history.foldl expected objects).childrenOf := by
  induction history generalizing objects with
  | nil =>
      exact finite
  | cons made history inductionHypothesis =>
      apply inductionHypothesis
      cases made with
      | add id element =>
          exact FinitelyBranched.setElements finite id _
      | remove id element =>
          exact FinitelyBranched.setElements finite id _

end Building

end Objects

/--
The law of the elements, and with it that of the traversals, holds of exactly
the histories in which nothing is removed from a composite that has elements.
-/
theorem compositeLaw_iff
    (leafName name : Nat → String)
    (history : List Call) :
    CompositeLaw leafName name history ↔
      Permits expected RemovesFromEmpty (.construct leafName name) history := by
  rw [← follows_iff_permits
    (fun objects : Objects => objects.call_eq_iff)]
  constructor
  · exact CompositeLaw.keeping
  · intro follows
    refine ⟨follows, fun reached isReached root acyclic => ?_⟩
    have sameObjects :=
      Option.some.inj (follows.foldlM_eq.symm.trans isReached)
    have finite :=
      Objects.finitelyBranched_foldl
        (Objects.finitelyBranched_construct leafName name) history
    rw [sameObjects] at finite ⊢
    obtain ⟨visited, traversed⟩ := acyclic.exists_preOrder finite
    exact ⟨visited, traversed, fun _ => traversed.mem_iff,
      Objects.processes_of_preOrder traversed⟩

/-- A leaf is added and removed, and stays. -/
theorem remove_added :
    ¬ CompositeLaw (fun _ => "leaf1") (fun _ => "root")
      [.add 0 (.leaf 0), .remove 0 (.leaf 0)] := by
  intro law
  have sameObjects := Option.some.inj law.keeping.foldlM_eq
  have sameElements := congrArg (fun after => after.elements_ 0) sameObjects
  contradiction

end CsPrimer.Composite
