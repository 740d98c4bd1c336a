import CsPrimer.RbTree.Inserting

namespace CsPrimer.RbTree

open Library

/-!
# `_Rb_tree_insert_and_rebalance` on sequences

For its users a tree is the sequence of its nodes.  The header points to both
ends of the sequence, or to itself while there are none.
-/

/-- The ends that the header points to. -/
def firstOf (header : Address) (nodes : List Address) : Address :=
  nodes.head?.getD header

def lastOf (header : Address) (nodes : List Address) : Address :=
  nodes.getLast?.getD header

/-- The memory holds a red-black tree of these nodes, from left to right. -/
def Represents
    (memory : Memory)
    (header : Address)
    (nodes : List Address) : Prop :=
  ∃ tree height,
    Held memory header (firstOf header nodes) (lastOf header nodes) [] tree ∧
      tree.inorder = nodes ∧ tree.Valid height ∧ tree.color = .black

/-- A header with two nodes, and a node that is not linked. -/
def twoNodes : Memory
  | 1 => some ⟨.red, 2, 2, 3⟩
  | 2 => some ⟨.black, 1, null, 3⟩
  | 3 => some ⟨.red, 2, null, null⟩
  | 4 => some ⟨.red, null, null, null⟩
  | _ => none

theorem twoNodes_represents : Represents twoNodes 1 [2, 3] :=
  ⟨.node .black .nil 2 (.node .red .nil 3 .nil), 1,
    ⟨rfl, ⟨rfl, trivial, rfl, trivial, trivial⟩, by decide⟩, rfl,
    ⟨0, rfl, rfl, rfl, rfl, rfl, rfl⟩, rfl⟩

/-- There is room for a node between these, as a child of `p`. -/
inductive Room (memory : Memory) (header : Address) :
    Bool → Address → List Address → List Address → Prop where
  | empty :
      Room memory header true header [] []
  | left
      {p : Address}
      {node : NodeBase}
      {before after : List Address}
      (isNode : memory p = some node)
      (isFree : node.left = null) :
      Room memory header true p before (p :: after)
  | right
      {p : Address}
      {node : NodeBase}
      {before after : List Address}
      (isNode : memory p = some node)
      (isFree : node.right = null) :
      Room memory header false p (before ++ [p]) after

section Link

variable
  {memory memory' : Memory}
  {header first last first' last' x hole : Address}
  {path : Path Address}

/-- The header gets other ends. -/
theorem HoldsPath.ends
    (holds : HoldsPath memory header first last path hole)
    (isHeader :
      ∀ top, memory header = some ⟨.red, top, first, last⟩ →
        memory' header = some ⟨.red, top, first', last'⟩)
    (apart : header ∉ path.labels)
    (others : ∀ other, other ≠ header → memory' other = memory other) :
    HoldsPath memory' header first' last' path hole := by
  induction path generalizing hole with
  | nil =>
      exact isHeader hole holds
  | cons frame above inductionHypothesis =>
      simp only [Path.labels, List.mem_cons, List.mem_append, not_or] at apart
      obtain ⟨isNode, holdsSibling, holdsAbove⟩ := holds
      refine ⟨?_, holdsSibling.frame apart.2.1 others,
        inductionHypothesis holdsAbove apart.2.2⟩
      rw [others frame.label (Ne.symm apart.1), isNode]

/-- The new node, which is not linked yet. -/
theorem exists_node
    {old : NodeBase}
    (held : Held memory header first last path .nil)
    (loaded : load memory x = some old)
    (fresh : (null :: header :: x :: path.labels).Nodup) :
    ∃ memory1,
      store memory x (fun _ => ⟨.red, parentOf header path, null, null⟩) =
          some memory1 ∧
        memory1 x = some ⟨.red, parentOf header path, null, null⟩ ∧
        HoldsPath memory1 header first last path null ∧
        ∀ other, other ≠ x → memory1 other = memory other := by
  obtain ⟨memory1, stores, isX, others⟩ :=
    store_spec loaded fun _ => ⟨.red, parentOf header path, null, null⟩
  refine ⟨memory1, stores, isX, held.above.frame ?_ ?_ others, others⟩
  · rintro rfl
    simp at fresh
  · simp only [List.nodup_cons] at fresh
    exact fresh.2.2.1

/-- Below another node both sides are linked in the same way. -/
theorem link_eq
    {p : Address}
    (side : Side)
    (notHeader : p ≠ header) :
    link (decide (side = .left)) x p header memory = (do
      let memory ← store memory p (NodeBase.setChild side x)
      if p = (← load memory header).child side then
        store memory header (NodeBase.setChild side x)
      else
        some memory) := by
  cases side <;> simp [link, notHeader] <;> rfl

/-- The new node below another one. -/
theorem link_cons
    {memory1 : Memory}
    {frame : Frame Address}
    (holds :
      HoldsPath memory1 header first last (frame :: path) null)
    (isX : memory1 x = some ⟨.red, frame.label, null, null⟩)
    (fresh :
      (null :: header :: x :: Path.labels (frame :: path)).Nodup) :
    ∃ memory',
      link (decide (frame.side = .left)) x frame.label header memory1 =
          some memory' ∧
        Held memory' header
          (if frame.side = .left ∧ frame.label = first then x else first)
          (if frame.side = .right ∧ frame.label = last then x else last)
          (frame :: path) (.node .red .nil x .nil) ∧
        ∀ other, other ≠ header → other ≠ frame.label →
          memory' other = memory1 other := by
  obtain ⟨top, -, isTop⟩ := holds.exists_top
  obtain ⟨isNode, holdsSibling, holdsAbove⟩ := holds
  have onPath : frame.label ∈ Path.labels (frame :: path) := by
    simp [Path.labels]
  have notHeader : frame.label ≠ header := by grind
  have notNull : frame.label ≠ null := by grind
  have headerNotNull : header ≠ null := by grind
  have parted :
      frame.label ∉ frame.sibling.inorder ∧ frame.label ∉ path.labels := by
    simp only [Path.labels, List.nodup_cons, List.mem_append, not_or] at fresh
    exact fresh.2.2.2.1
  have distinct :
      (null :: header :: ((ColoredTree.node .red .nil x .nil).inorder ++
        Path.labels (frame :: path))).Nodup := by
    simpa [ColoredTree.inorder] using fresh
  obtain ⟨memory2, store2, isNode2, others2⟩ :=
    store_spec ((load_eq notNull).trans isNode)
      (NodeBase.setChild frame.side x)
  rw [record_setChild] at isNode2
  have holds2 : HoldsPath memory2 header first last (frame :: path) x :=
    ⟨isNode2, holdsSibling.frame parted.1 others2,
      holdsAbove.frame notHeader parted.2 others2⟩
  have isX2 : memory2 x = some ⟨.red, frame.label, null, null⟩ := by
    rw [others2 x (by grind), isX]
  have isTop2 : load memory2 header = some ⟨.red, top, first, last⟩ := by
    rw [load_eq headerNotNull, others2 header notHeader.symm, isTop]
  rw [link_eq frame.side notHeader]
  by_cases isEnd :
      frame.label = (NodeBase.mk .red top first last).child frame.side
  · obtain ⟨memory3, store3, isHeader3, others3⟩ :=
      store_spec isTop2 (NodeBase.setChild frame.side x)
    refine ⟨memory3, ?_, ⟨?_, ⟨?_, trivial, trivial⟩, distinct⟩, ?_⟩
    · simp [store2, isTop2, ← isEnd, store3]
    · apply holds2.ends _ (by grind) others3
      intro top' isTop'
      have loaded := (load_eq headerNotNull).trans isTop'
      rw [isTop2, Option.some.injEq, NodeBase.mk.injEq] at loaded
      rw [isHeader3, ← loaded.2.1]
      cases isSide : frame.side <;> rw [isSide] at isEnd <;>
        simp [NodeBase.setChild, isEnd, NodeBase.child]
    · rw [others3 x (by grind), isX2]
      rfl
    · intro other isOther notLabel
      rw [others3 other isOther, others2 other notLabel]
  · refine ⟨memory2, ?_, ⟨?_, ⟨isX2, trivial, trivial⟩, distinct⟩, ?_⟩
    · simp [store2, isTop2, isEnd]
    · change HoldsPath memory2 header _ _ (frame :: path) x
      cases isSide : frame.side <;> rw [isSide, NodeBase.child] at isEnd <;>
        simpa [isEnd] using holds2
    · exact fun other _ notLabel => others2 other notLabel

/-- The new node in an empty tree. -/
theorem link_nil
    {memory1 : Memory}
    (holds : HoldsPath memory1 header first last [] null)
    (isX : memory1 x = some ⟨.red, header, null, null⟩)
    (fresh : (null :: header :: [x]).Nodup) :
    ∃ memory', link true x header header memory1 = some memory' ∧
      Held memory' header x x [] (.node .red .nil x .nil) ∧
      ∀ other, other ≠ header → memory' other = memory1 other := by
  have headerNotNull : header ≠ null := by grind
  have isHeader : load memory1 header = some ⟨.red, null, first, last⟩ :=
    (load_eq headerNotNull).trans holds
  obtain ⟨memory2, store2, isHeader2, others2⟩ :=
    store_spec isHeader (NodeBase.setChild .left x)
  obtain ⟨memory3, store3, isHeader3, others3⟩ :=
    store_spec ((load_eq headerNotNull).trans isHeader2) (NodeBase.setParent x)
  obtain ⟨memory4, store4, isHeader4, others4⟩ :=
    store_spec ((load_eq headerNotNull).trans isHeader3)
      (NodeBase.setChild .right x)
  have others : ∀ other, other ≠ header → memory4 other = memory1 other := by
    intro other isOther
    rw [others4 other isOther, others3 other isOther, others2 other isOther]
  refine ⟨memory4, ?_, ⟨isHeader4, ⟨?_, trivial, trivial⟩, ?_⟩, others⟩
  · simp [link, store2, store3, store4]
  · rw [others x (by grind), isX]
    rfl
  · simpa [ColoredTree.inorder, Path.labels] using fresh

end Link

section Ends

variable
  {header x p : Address}
  {before after : List Address}

theorem firstOf_insertLeft (distinct : (before ++ p :: after).Nodup) :
    (if p = firstOf header (before ++ p :: after) then
      x
    else
      firstOf header (before ++ p :: after)) =
      firstOf header (before ++ x :: p :: after) := by
  cases before with
  | nil =>
      simp [firstOf]
  | cons b rest =>
      have notFirst : p ≠ b := by
        rintro rfl
        simp at distinct
      simp [firstOf, notFirst]

theorem lastOf_insertLeft :
    lastOf header (before ++ x :: p :: after) =
      lastOf header (before ++ p :: after) := by
  simp [lastOf]

theorem lastOf_insertRight (distinct : (before ++ p :: after).Nodup) :
    (if p = lastOf header (before ++ p :: after) then
      x
    else
      lastOf header (before ++ p :: after)) =
      lastOf header (before ++ p :: x :: after) := by
  rcases List.eq_nil_or_concat after with rfl | ⟨rest, b, rfl⟩
  · simp [lastOf]
  · have notLast : p ≠ b := by
      rintro rfl
      simp [List.nodup_append] at distinct
    simp [lastOf, notLast, List.getLast?_cons]

theorem firstOf_insertRight :
    firstOf header (before ++ p :: x :: after) =
      firstOf header (before ++ p :: after) := by
  cases before <;> simp [firstOf]

/-- The ends, when the new node is linked below another one. -/
theorem ends_linked
    {frame : Frame Address}
    {above : Path Address}
    {nodes : List Address}
    (isNodes :
      nodes = Path.before (frame :: above) ++ Path.after (frame :: above))
    (distinct : nodes.Nodup) :
    (if frame.side = .left ∧ frame.label = firstOf header nodes then
        x
      else
        firstOf header nodes) =
        firstOf header (Path.before (frame :: above) ++
          x :: Path.after (frame :: above)) ∧
      (if frame.side = .right ∧ frame.label = lastOf header nodes then
        x
      else
        lastOf header nodes) =
        lastOf header (Path.before (frame :: above) ++
          x :: Path.after (frame :: above)) := by
  obtain ⟨side, color, p, sibling⟩ := frame
  cases side with
  | left =>
      simp only [Path.before, Path.after] at isNodes ⊢
      subst isNodes
      rw [← firstOf_insertLeft distinct, lastOf_insertLeft]
      simp
  | right =>
      have split (rest : List Address) :
          Path.before above ++ (sibling.inorder ++ [p]) ++ rest =
            Path.before above ++ sibling.inorder ++ p :: rest := by
        simp
      simp only [Path.before, Path.after, split] at isNodes ⊢
      subst isNodes
      rw [← lastOf_insertRight distinct, firstOf_insertRight]
      simp

end Ends

section Insert

variable
  {memory : Memory}
  {header first last x : Address}
  {path : Path Address}
  {height : Nat}

/-- A red root may be made black. -/
theorem valid_blacken
    {side : Side}
    {color : Color}
    {near far : ColoredTree Address}
    {label : Address}
    (valid : (ColoredTree.join side color near label far).Valid height) :
    ∃ height', (ColoredTree.join side .black near label far).Valid height' := by
  cases color with
  | red =>
      rw [ColoredTree.valid_red] at valid
      refine ⟨height + 1, ?_⟩
      rw [ColoredTree.valid_black]
      exact ⟨height, rfl, valid.2.2.1, valid.2.2.2⟩
  | black =>
      exact ⟨height, valid⟩

/-- The loop and the last line, on a tree where the new node is linked. -/
theorem exists_rebalanced
    {fuel : Nat}
    {nodes : List Address}
    (held :
      Held memory header (firstOf header nodes) (lastOf header nodes) path
        (.node .red .nil x .nil))
    (isNodes : (path.plug (.node .red .nil x .nil)).inorder = nodes)
    (expects : path.Expects 0)
    (enough : path.length / 2 < fuel) :
    ∃ memory' memory'',
      insertLoop fuel x header memory = some memory' ∧
        (load memory' header).bind
            (fun node => store memory' node.parent (NodeBase.setColor .black)) =
          some memory'' ∧
        Represents memory'' header nodes ∧
        ∀ other, other ≠ header → other ∉ nodes →
          memory'' other = memory other := by
  have rising :
      Rising memory header (firstOf header nodes) (lastOf header nodes)
        (path.plug (.node .red .nil x .nil)) memory path
        (.node .red .nil x .nil) 0 :=
    ⟨.start held, rfl, ⟨rfl, rfl, rfl, rfl⟩, expects⟩
  obtain ⟨memory', path', tree', height', loops, rising', ends⟩ :=
    rising.loop (by omega) fun _ => enough
  have whole :=
    Path.valid_plug rising'.expects rising'.valid fun _ => ends
  have notEmpty : path'.plug tree' ≠ .nil := by
    intro isNil
    have order := rising'.rearranged.order
    rw [isNil, isNodes] at order
    have isX : x ∈ nodes := by
      rw [← isNodes, Path.mem_plug_iff]
      exact Or.inl (ColoredTree.mem_join .left .red .nil .nil x)
    rw [← order] at isX
    cases isX
  obtain ⟨color, near, label, far, isWhole⟩ :=
    ColoredTree.exists_join .left notEmpty
  have top :
      Rearranged memory header (firstOf header nodes) (lastOf header nodes)
        (path.plug (.node .red .nil x .nil)) memory' []
        (.join .left color near label far) := by
    rw [← isWhole]
    exact ⟨held_plug.mp rising'.rearranged.held, rising'.rearranged.order,
      rising'.rearranged.others⟩
  have isHeader := top.held.load_header
  obtain ⟨memory'', stores, rearranged⟩ := top.recolor .black
  obtain ⟨blackHeight, valid⟩ := valid_blacken (isWhole ▸ whole.1)
  refine ⟨memory', memory'', loops, ?_,
    ⟨_, blackHeight, rearranged.held, ?_, valid, rfl⟩, ?_⟩
  · rw [isHeader]
    simpa [Path.plug] using stores
  · exact rearranged.order.trans isNodes
  · rw [← isNodes]
    exact rearranged.others

/-- The end of a path takes a left child only if it says so. -/
def insertsLeft : Path Address → Bool
  | [] => true
  | frame :: _ => frame.side = .left

/-- The new node is linked at the end of the path. -/
theorem exists_linked
    {old : NodeBase}
    (held :
      Held memory header (firstOf header (path.before ++ path.after))
        (lastOf header (path.before ++ path.after)) path .nil)
    (loaded : load memory x = some old)
    (fresh : (null :: header :: x :: path.labels).Nodup) :
    ∃ memory1 memory2,
      store memory x (fun _ => ⟨.red, parentOf header path, null, null⟩) =
          some memory1 ∧
        link (insertsLeft path) x (parentOf header path) header memory1 =
          some memory2 ∧
        Held memory2 header (firstOf header (path.before ++ x :: path.after))
          (lastOf header (path.before ++ x :: path.after)) path
          (.node .red .nil x .nil) ∧
        ∀ other, other ≠ header → other ∉ x :: path.labels →
          memory2 other = memory other := by
  obtain ⟨memory1, store1, isX, holds1, others1⟩ :=
    exists_node held loaded fresh
  have order : (path.before ++ path.after).Nodup := by
    have plugged := Path.inorder_plug path .nil
    have perm := Path.inorder_plug_perm path .nil
    simp only [ColoredTree.inorder, List.append_nil, List.nil_append]
      at plugged perm
    rw [← plugged, perm.nodup_iff]
    simp only [List.nodup_cons] at fresh
    exact fresh.2.2.2
  cases path with
  | nil =>
      obtain ⟨memory2, links, held2, others2⟩ := link_nil holds1 isX fresh
      refine ⟨memory1, memory2, store1, links, held2, ?_⟩
      intro other notHeader notX
      rw [others2 other notHeader, others1 other (by grind)]
  | cons frame above =>
      obtain ⟨memory2, links, held2, others2⟩ := link_cons holds1 isX fresh
      refine ⟨memory1, memory2, store1, links, ?_, ?_⟩
      · obtain ⟨firsts, lasts⟩ :=
          @ends_linked header x frame above _ rfl order
        rw [firsts, lasts] at held2
        exact held2
      · intro other notHeader notInside
        have notLabel : other ≠ frame.label := by
          rintro rfl
          simp [Path.labels] at notInside
        rw [others2 other notHeader notLabel, others1 other (by grind)]

/-- `_Rb_tree_insert_and_rebalance` at the end of a path. -/
theorem exists_inserted
    {old : NodeBase}
    {fuel : Nat}
    (held :
      Held memory header (firstOf header (path.before ++ path.after))
        (lastOf header (path.before ++ path.after)) path .nil)
    (valid : (path.plug .nil).Valid height)
    (isBlack : (path.plug .nil).color = .black)
    (loaded : load memory x = some old)
    (fresh : (null :: header :: x :: path.labels).Nodup)
    (enough :
      Nat.log 2 ((path.before ++ path.after).length + 1) < fuel) :
    ∃ memory',
      insertAndRebalance fuel (insertsLeft path) x (parentOf header path)
          header memory = some memory' ∧
        Represents memory' header (path.before ++ x :: path.after) ∧
        ∀ other, other ≠ header → other ∉ path.before ++ x :: path.after →
          memory' other = memory other := by
  obtain ⟨memory1, memory2, store1, links, held2, others2⟩ :=
    exists_linked held loaded fresh
  obtain ⟨below, nilValid, expects, redUnderBlack⟩ :=
    Path.expects_of_plug valid isBlack
  rw [ColoredTree.valid_nil] at nilValid
  subst nilValid
  have bound := Path.length_le_log valid isBlack
  have plugged := Path.inorder_plug path .nil
  simp only [ColoredTree.inorder, List.append_nil] at plugged
  rw [plugged] at bound
  have isNodes :
      (path.plug (.node .red .nil x .nil)).inorder =
        path.before ++ x :: path.after := by
    rw [Path.inorder_plug]
    simp [ColoredTree.inorder]
  have short : path.length / 2 < fuel := by
    omega
  obtain ⟨memory3, memory4, loops, colors, represents, others4⟩ :=
    exists_rebalanced held2 isNodes expects short
  refine ⟨memory4, ?_, represents, ?_⟩
  · simpa [insertAndRebalance, store1, links, loops] using colors
  · intro other notHeader notInside
    rw [others4 other notHeader notInside]
    apply others2 other notHeader
    rw [← isNodes, Path.mem_plug_iff] at notInside
    simpa [ColoredTree.inorder] using notInside

end Insert

section Represents

variable
  {memory : Memory}
  {header p x : Address}
  {insertLeft : Bool}
  {before after : List Address}

theorem Represents.nodup (represents : Represents memory header before) :
    (null :: header :: before).Nodup := by
  obtain ⟨tree, height, held, rfl, -⟩ := represents
  simpa [Path.labels] using held.distinct

/-- A node of the sequence is at the end of a path. -/
theorem Represents.exists_plug
    (represents : Represents memory header (before ++ p :: after)) :
    ∃ path color left right height,
      Held memory header (firstOf header (before ++ p :: after))
          (lastOf header (before ++ p :: after)) path
          (.node color left p right) ∧
        before = path.before ++ left.inorder ∧
        after = right.inorder ++ path.after ∧
        (path.plug (.node color left p right)).Valid height ∧
        (path.plug (.node color left p right)).color = .black := by
  have distinct := represents.nodup
  obtain ⟨tree, height, held, isNodes, valid, isBlack⟩ := represents
  have isLabel : p ∈ tree.inorder := by
    simp [isNodes]
  obtain ⟨path, color, left, right, rfl⟩ := Path.exists_plug isLabel
  have parts := isNodes
  rw [Path.inorder_plug, ColoredTree.inorder, ← List.append_assoc,
    List.append_assoc, List.cons_append] at parts
  have apart : p ∉ before ∧ p ∉ after := by
    grind
  obtain ⟨isBefore, -, isAfter⟩ :=
    (List.append_cons_inj_of_notMem apart.1 apart.2).mp parts.symm
  exact ⟨path, color, left, right, height, held_plug.mpr held, isBefore,
    isAfter, valid, isBlack⟩

theorem eq_nil_of_root
    {tree : ColoredTree Address}
    (isNull : root tree = null)
    (notNull : null ∉ tree.inorder) :
    tree = .nil := by
  cases tree with
  | nil =>
      rfl
  | node color left label right =>
      rw [root] at isNull
      simp [ColoredTree.inorder, isNull] at notNull

/-- Where there is room, a path ends. -/
theorem Represents.exists_path
    (represents : Represents memory header (before ++ after))
    (room : Room memory header insertLeft p before after) :
    ∃ path height,
      Held memory header (firstOf header (before ++ after))
          (lastOf header (before ++ after)) path .nil ∧
        path.before = before ∧ path.after = after ∧
        insertsLeft path = insertLeft ∧ parentOf header path = p ∧
        (path.plug .nil).Valid height ∧ (path.plug .nil).color = .black := by
  cases room with
  | empty =>
      obtain ⟨tree, height, held, isNodes, valid, isBlack⟩ := represents
      cases tree with
      | nil =>
          exact ⟨[], height, held, rfl, rfl, rfl, rfl, valid, isBlack⟩
      | node color left label right =>
          simp [ColoredTree.inorder] at isNodes
  | @left p node before after isNode isFree =>
      obtain ⟨path, color, left, right, height, held, rfl, rfl, valid,
        isBlack⟩ := represents.exists_plug
      have noLeft : left = .nil := by
        apply eq_nil_of_root
        · have isLoaded := held.below.1
          rw [isNode, Option.some.injEq] at isLoaded
          rw [← isFree, isLoaded]
        · have distinct := held.distinct
          simp only [ColoredTree.inorder] at distinct
          grind
      subst noLeft
      refine ⟨⟨.left, color, p, right⟩ :: path, height, held_cons.mpr held,
        ?_, rfl, rfl, rfl, valid, isBlack⟩
      simp [Path.before, ColoredTree.inorder]
  | @right p node before after isNode isFree =>
      rw [List.append_assoc, List.singleton_append] at represents ⊢
      obtain ⟨path, color, left, right, height, held, rfl, rfl, valid,
        isBlack⟩ := represents.exists_plug
      have noRight : right = .nil := by
        apply eq_nil_of_root
        · have isLoaded := held.below.1
          rw [isNode, Option.some.injEq] at isLoaded
          rw [← isFree, isLoaded]
        · have distinct := held.distinct
          simp only [ColoredTree.inorder] at distinct
          grind
      subst noRight
      refine ⟨⟨.right, color, p, left⟩ :: path, height, held_cons.mpr held,
        ?_, ?_, rfl, rfl, valid, isBlack⟩
      · simp [Path.before]
      · simp [Path.after, ColoredTree.inorder]

/--
`_Rb_tree_insert_and_rebalance` puts the new node where there is room for it,
keeps the tree a red-black tree and the header right, and writes nothing outside
of the tree.  The rounds of its loop are logarithmic in the number of nodes.
-/
theorem Represents.inserted
    {old : NodeBase}
    {fuel : Nat}
    (represents : Represents memory header (before ++ after))
    (room : Room memory header insertLeft p before after)
    (allocated : memory x = some old)
    (isNew : x ∉ null :: header :: (before ++ after))
    (enough : Nat.log 2 ((before ++ after).length + 1) < fuel) :
    ∃ memory',
      insertAndRebalance fuel insertLeft x p header memory = some memory' ∧
        Represents memory' header (before ++ x :: after) ∧
        ∀ other, other ≠ header → other ∉ before ++ x :: after →
          memory' other = memory other := by
  obtain ⟨path, height, held, rfl, rfl, rfl, rfl, valid, isBlack⟩ :=
    represents.exists_path room
  have notNull : x ≠ null := by
    rintro rfl
    simp at isNew
  have onPath : ∀ label ∈ path.labels, label ∈ path.before ++ path.after := by
    have plugged := Path.inorder_plug path .nil
    simp only [ColoredTree.inorder, List.append_nil] at plugged
    intro label member
    rw [← plugged, Path.mem_plug_iff]
    exact Or.inr member
  have distinct := held.distinct
  simp only [ColoredTree.inorder, List.nil_append] at distinct
  exact exists_inserted held valid isBlack ((load_eq notNull).trans allocated)
    (by grind) enough

end Represents

end CsPrimer.RbTree
