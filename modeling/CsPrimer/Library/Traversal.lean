import Mathlib.Data.Set.Card
import Mathlib.Logic.Relation
import Mathlib.Order.CompletePartialOrder

namespace CsPrimer.Library

/-!
# Traversals in pre-order

Nodes have lists of children.  A forest that is traversed in pre-order lists
each node before what is below it and siblings in their order; a node that has
several parents is listed once for each way down to it.  Below a node from
which no cycle can be reached the traversal ends.
-/

variable
  {Node : Type}
  {children : Node → List Node}

/-- Nodes of a forest and everything below them in pre-order. -/
inductive PreOrder (children : Node → List Node) :
    List Node → List Node → Prop where
  | nil :
      PreOrder children [] []
  | cons
      {node : Node}
      {below rest later : List Node} :
      PreOrder children (children node) below →
      PreOrder children rest later →
      PreOrder children (node :: rest) (node :: below ++ later)

/-- One node is a child of the other. -/
def ChildOf
    (children : Node → List Node)
    (child parent : Node) : Prop :=
  child ∈ children parent

/-- One node is the other or below it. -/
def Within
    (children : Node → List Node)
    (node root : Node) : Prop :=
  Relation.ReflTransGen (ChildOf children) node root

/-- No node that can be reached from the root is below itself. -/
def AcyclicBelow
    (children : Node → List Node)
    (root : Node) : Prop :=
  ∀ node, Within children node root →
    ¬ Relation.TransGen (ChildOf children) node node

/-- Only finitely many nodes have children. -/
def FinitelyBranched (children : Node → List Node) : Prop :=
  {node | children node ≠ []}.Finite

section Members

variable
  {forest visited : List Node}
  {node child root : Node}

theorem PreOrder.mem_of_forest
    (traversed : PreOrder children forest visited)
    (member : node ∈ forest) :
    node ∈ visited := by
  induction traversed with
  | nil =>
      contradiction
  | cons _ _ _ inductionHypothesis =>
      rcases List.mem_cons.mp member with rfl | later
      · exact List.mem_append_left _ List.mem_cons_self
      · exact List.mem_append_right _ (inductionHypothesis later)

/-- With a node its children are visited. -/
theorem PreOrder.mem_of_child
    (traversed : PreOrder children forest visited)
    (member : node ∈ visited)
    (isChild : child ∈ children node) :
    child ∈ visited := by
  induction traversed with
  | nil =>
      contradiction
  | cons traversedBelow _ visitsBelow visitsLater =>
      rcases List.mem_append.mp member with below | later
      · refine List.mem_append_left _ (List.mem_cons_of_mem _ ?_)
        rcases List.mem_cons.mp below with rfl | below
        · exact traversedBelow.mem_of_forest isChild
        · exact visitsBelow below
      · exact List.mem_append_right _ (visitsLater later)

/-- Whatever is visited is within the forest. -/
theorem PreOrder.within_of_mem
    (traversed : PreOrder children forest visited)
    (member : node ∈ visited) :
    ∃ root ∈ forest, Within children node root := by
  induction traversed with
  | nil =>
      contradiction
  | @cons top _ _ _ _ _ withinBelow withinLater =>
      rcases List.mem_append.mp member with below | later
      · refine ⟨top, List.mem_cons_self, ?_⟩
        rcases List.mem_cons.mp below with rfl | below
        · exact .refl
        · obtain ⟨child, isChild, within⟩ := withinBelow below
          exact within.tail isChild
      · obtain ⟨root, isRoot, within⟩ := withinLater later
        exact ⟨root, List.mem_cons_of_mem _ isRoot, within⟩

/-- A traversal visits exactly what is within its root. -/
theorem PreOrder.mem_iff
    (traversed : PreOrder children [root] visited) :
    node ∈ visited ↔ Within children node root := by
  constructor
  · intro member
    obtain ⟨top, isTop, within⟩ := traversed.within_of_mem member
    rwa [List.mem_singleton.mp isTop] at within
  · intro within
    induction within using Relation.ReflTransGen.head_induction_on with
    | refl =>
        exact traversed.mem_of_forest List.mem_cons_self
    | head isChild _ inductionHypothesis =>
        exact traversed.mem_of_child inductionHypothesis isChild

end Members

section Existence

variable {root : Node}

/-- A forest of trees that have traversals has one. -/
theorem PreOrder.exists_of_forall
    {forest : List Node}
    (each : ∀ node ∈ forest, ∃ visited, PreOrder children [node] visited) :
    ∃ visited, PreOrder children forest visited := by
  induction forest with
  | nil =>
      exact ⟨[], .nil⟩
  | cons node rest inductionHypothesis =>
      obtain ⟨_, isFirst⟩ := each node List.mem_cons_self
      obtain ⟨_, isRest⟩ :=
        inductionHypothesis fun other member =>
          each other (List.mem_cons_of_mem _ member)
      cases isFirst with
      | cons below _ =>
          exact ⟨_, .cons below isRest⟩

/-- Where no way down goes on for ever there is a traversal. -/
theorem PreOrder.exists_of_acc
    (accessible : Acc (ChildOf children) root) :
    ∃ visited, PreOrder children [root] visited := by
  induction accessible with
  | intro node _ inductionHypothesis =>
      obtain ⟨_, below⟩ := PreOrder.exists_of_forall inductionHypothesis
      exact ⟨_, .cons below .nil⟩

/-- The nodes below a root that have children. -/
def branchesBelow
    (children : Node → List Node)
    (root : Node) : Set Node :=
  {node | children node ≠ [] ∧
    Relation.TransGen (ChildOf children) node root}

/-- A child that has children has fewer branches below it than its parent. -/
theorem branchesBelow_ssubset
    {child : Node}
    (isChild : ChildOf children child root)
    (hasChildren : children child ≠ [])
    (notBelowItself : ¬ Relation.TransGen (ChildOf children) child child) :
    branchesBelow children child ⊂ branchesBelow children root := by
  refine (Set.ssubset_iff_of_subset ?_).mpr
    ⟨child, ⟨hasChildren, .single isChild⟩, fun below => ?_⟩
  · rintro node ⟨branches, below⟩
    exact ⟨branches, below.tail isChild⟩
  · exact notBelowItself below.2

/-- Below a root without cycles no way down goes on for ever. -/
theorem AcyclicBelow.acc
    (acyclic : AcyclicBelow children root)
    (finite : FinitelyBranched children) :
    Acc (ChildOf children) root := by
  induction hasSize : (branchesBelow children root).ncard
    using Nat.strong_induction_on generalizing root with
  | _ size inductionHypothesis =>
      refine ⟨_, fun child isChild => ?_⟩
      by_cases hasChildren : children child = []
      · refine ⟨_, fun grandchild isGrandchild => ?_⟩
        rw [ChildOf, hasChildren] at isGrandchild
        contradiction
      · have below :=
          branchesBelow_ssubset isChild hasChildren
            (acyclic child (.single isChild))
        have fewer :=
          Set.ncard_lt_ncard below (finite.subset fun _ branch => branch.1)
        refine inductionHypothesis _ (hasSize ▸ fewer) ?_ rfl
        exact fun node within => acyclic node (within.tail isChild)

/-- Everything within a root without cycles can be traversed. -/
theorem AcyclicBelow.exists_preOrder
    (acyclic : AcyclicBelow children root)
    (finite : FinitelyBranched children) :
    ∃ visited, PreOrder children [root] visited :=
  PreOrder.exists_of_acc (acyclic.acc finite)

end Existence

end CsPrimer.Library
