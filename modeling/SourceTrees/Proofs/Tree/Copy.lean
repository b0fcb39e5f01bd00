import SourceTrees.Tree.Cursor

/-!
# The copy through a cursor is the plain copy

A tree is copied by walking a cursor over it with a stack of half-built frames.  Whatever lies above a
node and beside it, going down from the node comes back to it with copies of all its children in its
frame, in their order; so the walk gives what copying node by node gives.

## Protocol

* `Node.copyUnder` is the **plain copy**: a node under a field, with the plain copies of its children, each
  under the field that the cursor reads there.
* The cursor **comes back** to a node when the walk is about to close the node's frame.

## Results

* `descend_eq_ascend` — what the walk below a node does, by recursion on the tree.
* `FaithfulCopy` — what is said of a copy of a tree; **`freeze_faithful`** — it holds of every tree.
-/

set_option autoImplicit false

namespace SourceTrees

/-! ## The plain copy -/

mutual
/-- Copies a node under a field, and all below it. -/
def Node.copyUnder (field : Option String) : Node → Node
  | .mk l cs => .mk { l with field } (copyEach cs)

/-- Copies nodes one by one, each under its field. -/
def Node.copyEach : List Node → List Node
  | [] => []
  | c :: cs => copyUnder c.label.field c :: copyEach cs
end

theorem Node.copyUnder_eq (field : Option String) (n : Node) :
    n.copyUnder field = .mk { n.label with field } (copyEach n.children) := by
  cases n
  rfl

mutual
/-- Under its own field a node is copied as it is. -/
theorem Node.copyUnder_field : ∀ n : Node, n.copyUnder n.label.field = n
  | .mk l cs => by rw [copyUnder_eq, label_mk, children_mk, copyEach_eq cs]

theorem Node.copyEach_eq : ∀ cs : List Node, copyEach cs = cs
  | [] => rfl
  | c :: cs => by rw [copyEach, copyUnder_field c, copyEach_eq cs]
end

/-! ## The walk -/

variable {l : Label} {below : List Frame} {later done : List Node} {above : List (Node × List Node)}

theorem descend_leaf (n : Node) (hn : n.children = []) (top : Frame) :
    descend ⟨n, later, above⟩ top below = ascend ⟨n, later, above⟩ top below := by
  rw [descend]
  split
  · rename_i h
    simp [Cursor.firstChild?, hn] at h
  · rfl

theorem descend_child (n : Node) {child : Node} {rest : List Node} (hn : n.children = child :: rest)
    (top : Frame) :
    descend ⟨n, later, above⟩ top below =
      descend ⟨child, rest, (n, later) :: above⟩ ⟨child.label, []⟩ (top :: below) := by
  rw [descend]
  split
  · rename_i h
    simp only [Cursor.firstChild?, hn, Option.some.injEq] at h
    subst h
    rfl
  · rename_i h
    simp [Cursor.firstChild?, hn] at h

theorem ascend_sibling (n sibling : Node) (rest : List Node) (top outer : Frame) :
    ascend ⟨n, sibling :: rest, above⟩ top (outer :: below) =
      descend ⟨sibling, rest, above⟩ ⟨sibling.label, []⟩ (outer.adopt top.closed :: below) := by
  rw [ascend]
  split
  · rename_i h
    cases h
    rfl
  · rename_i h
    cases h

theorem ascend_parent (n parent : Node) (top outer : Frame) :
    ascend ⟨n, [], (parent, later) :: above⟩ top (outer :: below) =
      ascend ⟨parent, later, above⟩ (outer.adopt top.closed) below := by
  rw [ascend]
  split
  · rename_i h
    cases h
  · rfl

mutual
/-- From a node the walk comes back to it, the copies of its children being in its frame. -/
theorem descend_eq_ascend (n : Node) (l : Label) (later : List Node) (above : List (Node × List Node))
    (below : List Frame) :
    descend ⟨n, later, above⟩ ⟨l, []⟩ below =
      ascend ⟨n, later, above⟩ ⟨l, (Node.copyEach n.children).reverse⟩ below := by
  cases hn : n.children with
  | nil => rw [descend_leaf n hn]; rfl
  | cons child rest =>
    rw [descend_child n hn, descend_siblings child rest, List.append_nil]
termination_by 2 * n.size
decreasing_by
  rw [Node.size_eq, hn]
  omega

/-- From a child the walk comes back to the parent, the copies of the child and its later siblings being
    in the parent's frame, after those that were there. -/
theorem descend_siblings (child : Node) (rest : List Node) {parent : Node} {l : Label}
    {done later : List Node} {above : List (Node × List Node)} {below : List Frame} :
    descend ⟨child, rest, (parent, later) :: above⟩ ⟨child.label, []⟩ (⟨l, done⟩ :: below) =
      ascend ⟨parent, later, above⟩ ⟨l, (Node.copyEach (child :: rest)).reverse ++ done⟩ below := by
  have hclosed : Frame.closed ⟨child.label, (Node.copyEach child.children).reverse⟩ =
      child.copyUnder child.label.field := by
    rw [Frame.closed, List.reverse_reverse, Node.copyUnder_eq]
  rw [descend_eq_ascend child]
  cases rest with
  | nil =>
    rw [ascend_parent, hclosed]
    rfl
  | cons sibling rest =>
    rw [ascend_sibling, hclosed, Frame.adopt, descend_siblings sibling rest]
    simp [Node.copyEach]
termination_by 2 * Node.sizeAll (child :: rest) + 1
decreasing_by
  all_goals
    simp only [Node.sizeAll, Node.size_eq]
    omega
end

theorem freeze_eq_copyUnder (root : Node) : freeze root = root.copyUnder none := by
  rw [freeze, Cursor.start, descend_eq_ascend, ascend, Frame.closed, List.reverse_reverse,
    Node.copyUnder_eq]

/-! ## What the copy is -/

/-- The copy is the plain one: every node has its label and its place, except that the root is under no
    field. -/
structure FaithfulCopy (root copy : Node) : Prop where
  plain : copy = root.copyUnder none
  /-- The root is as it was, under no field. -/
  label : copy.label = { root.label with field := none }
  /-- What is reached by a path of child positions is what was reached by it, with its field. -/
  below : ∀ path, path ≠ [] → copy.descendant path = root.descendant path
  /-- The nodes below the root are those that there were, each once and in their order. -/
  walk : copy.walk = copy :: root.walk.tail

/-- **The copy through the cursor is faithful**, and there is one for every tree. -/
theorem freeze_faithful (root : Node) : FaithfulCopy root (freeze root) := by
  have hplain := freeze_eq_copyUnder root
  have hcopy : freeze root = copyRoot root := by
    rw [hplain, Node.copyUnder_eq, Node.copyEach_eq]
    rfl
  refine ⟨hplain, by rw [hcopy]; rfl, fun path hpath => ?_, ?_⟩
  · cases path with
    | nil => exact absurd rfl hpath
    | cons position path =>
      rw [hcopy, Node.descendant, Node.descendant]
      rfl
  · rw [hcopy, Node.walk_eq_preorder, Node.walk_eq_preorder]
    cases root
    rfl

end SourceTrees
