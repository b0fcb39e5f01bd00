import SourceTrees.Tree.Extent

/-!
# Copying an engine's tree

An engine hands out its tree through a cursor that stands on one node and can go to the first child,
the next sibling and the parent.  The copy is made by walking that cursor over the whole tree with
one frame for every node from the root down to the cursor; a frame holds the label of its node and
the children copied so far.

## Protocol

* Going down, a frame is opened for every first child.
* Where there is no child, the top frame is closed: its node joins the children of the frame below.
  Then the cursor goes to the next sibling, and down again, or back to the parent, whose frame is
  closed in turn.
* The last frame closed is the root's.

A node's field name is read from the cursor when its frame is opened; the root has none.

## Results

* `freeze` is the copy through the cursor; it ends because every step enters a new node or closes a
  frame.
* `copyRoot` is the plain copy: the tree itself, the root's field name removed.
* `Tree.ofEngine` makes a tree of a copy, with the root widened to the whole source.
-/

set_option autoImplicit false

namespace SourceTrees

/-- A cursor on a tree: the node it stands on, the later siblings, and for every node above it the
    node with its own later siblings, nearest first. -/
structure Cursor where
  here : Node
  later : List Node
  above : List (Node × List Node)

namespace Cursor

/-- The cursor on the root of a tree. -/
def start (root : Node) : Cursor := ⟨root, [], []⟩

/-- The field name of the node that the cursor stands on. -/
def field (c : Cursor) : Option String := c.here.label.field

/-- The cursor on the first child, if there is one. -/
def firstChild? (c : Cursor) : Option Cursor :=
  match c.here.children with
  | [] => none
  | child :: rest => some ⟨child, rest, (c.here, c.later) :: c.above⟩

/-- The cursor on the next sibling, if there is one. -/
def nextSibling? (c : Cursor) : Option Cursor :=
  match c.later with
  | [] => none
  | sibling :: rest => some ⟨sibling, rest, c.above⟩

/-- The cursor on the parent; on the root it stays. -/
def parent (c : Cursor) : Cursor :=
  match c.above with
  | [] => c
  | (node, later) :: above => ⟨node, later, above⟩

/-- The number of nodes that lie after the subtree here. -/
def nodesAfter (c : Cursor) : Nat :=
  Node.sizeAll c.later + c.above.foldr (fun level n => Node.sizeAll level.2 + n) 0

/-- The number of nodes that have not been entered when the cursor goes down here. -/
def nodesAhead (c : Cursor) : Nat := Node.sizeAll c.here.children + c.nodesAfter

theorem nodesAhead_firstChild {c d : Cursor} (h : c.firstChild? = some d) :
    d.nodesAhead < c.nodesAhead := by
  unfold firstChild? at h
  split at h
  · cases h
  · rename_i child rest hc
    cases h
    simp only [nodesAhead, nodesAfter, hc, Node.sizeAll, Node.size_eq, List.foldr_cons]
    omega

theorem nodesAhead_leaf {c : Cursor} (h : c.firstChild? = none) : c.nodesAhead = c.nodesAfter := by
  unfold firstChild? at h
  split at h
  · rename_i hc
    simp [nodesAhead, hc, Node.sizeAll]
  · cases h

theorem nodesAhead_nextSibling {c d : Cursor} (h : c.nextSibling? = some d) :
    d.nodesAhead < c.nodesAfter := by
  unfold nextSibling? at h
  split at h
  · cases h
  · rename_i sibling rest hc
    cases h
    simp only [nodesAhead, nodesAfter, hc, Node.sizeAll, Node.size_eq]
    omega

theorem nodesAfter_parent {c : Cursor} (h : c.nextSibling? = none) :
    c.parent.nodesAfter = c.nodesAfter := by
  unfold nextSibling? at h
  split at h
  · rename_i hc
    unfold parent
    split
    · rfl
    · rename_i ha
      simp [nodesAfter, hc, ha, Node.sizeAll]
  · cases h

end Cursor

/-- A node being copied: its label and the copies of its children so far, last first. -/
structure Frame where
  label : Label
  copied : List Node

namespace Frame

/-- The frame of the node under a cursor. -/
def opened (c : Cursor) : Frame := ⟨{ c.here.label with field := c.field }, []⟩

/-- The finished copy. -/
def closed (f : Frame) : Node := .mk f.label f.copied.reverse

/-- One more child. -/
def adopt (f : Frame) (child : Node) : Frame := { f with copied := child :: f.copied }

end Frame

mutual
/-- Goes down from the node whose frame is on top, with the frames of the nodes above it. -/
def descend (c : Cursor) (top : Frame) (below : List Frame) : Node :=
  match h : c.firstChild? with
  | some child =>
    have := Cursor.nodesAhead_firstChild h
    descend child (Frame.opened child) (top :: below)
  | none =>
    have := Cursor.nodesAhead_leaf h
    ascend c top below
termination_by (c.nodesAhead, below.length, 1)
decreasing_by
  · exact Prod.Lex.left _ _ this
  · rw [this]
    exact Prod.Lex.right _ (Prod.Lex.right _ Nat.one_pos)

/-- Closes the top frame and goes on with the next sibling or with the parent. -/
def ascend (c : Cursor) (top : Frame) (below : List Frame) : Node :=
  match below with
  | [] => top.closed
  | outer :: rest =>
    match h : c.nextSibling? with
    | some sibling =>
      have := Cursor.nodesAhead_nextSibling h
      descend sibling (Frame.opened sibling) (outer.adopt top.closed :: rest)
    | none =>
      have := Cursor.nodesAfter_parent h
      ascend c.parent (outer.adopt top.closed) rest
termination_by (c.nodesAfter, below.length, 0)
decreasing_by
  · exact Prod.Lex.left _ _ this
  · rw [this]
    exact Prod.Lex.right _ (Prod.Lex.left _ _ (Nat.lt_succ_self _))
end

/-- Copies an engine's tree through a cursor. -/
def freeze (root : Node) : Node :=
  descend (.start root) ⟨{ root.label with field := none }, []⟩ []

/-- The plain copy of an engine's tree: the tree itself, its root under no field. -/
def copyRoot (root : Node) : Node := root.withLabel { root.label with field := none }

/-- The root widened to the whole source. -/
def widen (source : List UInt8) (root : Node) : Node :=
  root.withLabel
    { root.label with
      startByte := 0, endByte := source.length, startPoint := ⟨0, 0⟩, endPoint := endPoint source }

/-- The tree made from an engine's tree. -/
def Tree.ofEngine (language : String) (source : List UInt8) (root : Node) : Tree :=
  ⟨language, source, widen source (freeze root)⟩

end SourceTrees
