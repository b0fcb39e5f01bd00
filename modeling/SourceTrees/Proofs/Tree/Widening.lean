import SourceTrees.Proofs.Tree.Copy

/-!
# The widened root

An engine leaves blanks before the first token and after the last one outside its root.  The tree of a
parse has its root widened to the whole source, and nothing else in it is changed.

## Protocol

* The **position** of an offset is found by going over the bytes before it.
* A tree is **well placed** in a source if every node's points are the positions of its offsets, every
  range lies within the source, and the children of a node lie within it, one after the other.

## Results

* `endPoint_eq_pointAt` — the end that is found by counting newlines is the position of the last offset.
* `Node.Placed.widen` — widening the root leaves a well placed tree well placed.
* `Widened` — what is said of a tree made from an engine's tree; **`ofEngine_widened`** — it holds of
  every tree and every source.
-/

set_option autoImplicit false

namespace SourceTrees

variable {source : List UInt8} {root : Node}

/-! ## Positions -/

/-- The position of an offset in a source. -/
def pointAt (source : List UInt8) (offset : Int) : Point := scanPoint (source.take offset.toNat)

@[simp] theorem pointAt_zero (source : List UInt8) : pointAt source 0 = ⟨0, 0⟩ := rfl

/-- Where the source ends is the position of its last offset. -/
theorem endPoint_eq_pointAt (source : List UInt8) : endPoint source = pointAt source source.length := by
  rw [endPoint_eq_scanPoint, pointAt, Int.toNat_natCast, List.take_length]

/-! ## Well placed trees -/

namespace Node

/-- The points of the node are the positions of its offsets. -/
structure Pointed (source : List UInt8) (n : Node) : Prop where
  first : n.label.startPoint = pointAt source n.label.startByte
  last : n.label.endPoint = pointAt source n.label.endByte

/-- The range of the node lies within the source. -/
structure Within (source : List UInt8) (n : Node) : Prop where
  start : 0 ≤ n.label.startByte
  order : n.label.startByte ≤ n.label.endByte
  stop : n.label.endByte ≤ source.length

/-- The children lie within the node, none begins before the ones before it have ended. -/
structure Nested (n : Node) : Prop where
  inside : ∀ c ∈ n.children,
    n.label.startByte ≤ c.label.startByte ∧ c.label.endByte ≤ n.label.endByte
  apart : n.children.Pairwise fun c d => c.label.endByte ≤ d.label.startByte

/-- The node and all below it are well placed in the source. -/
def Placed (source : List UInt8) (n : Node) : Prop :=
  ∀ m ∈ n.walk, m.Pointed source ∧ m.Within source ∧ m.Nested

instance (source : List UInt8) (n : Node) : Decidable (n.Pointed source) :=
  decidable_of_iff
    (n.label.startPoint = pointAt source n.label.startByte ∧
      n.label.endPoint = pointAt source n.label.endByte)
    ⟨fun ⟨h, h'⟩ => ⟨h, h'⟩, fun ⟨h, h'⟩ => ⟨h, h'⟩⟩

instance (source : List UInt8) (n : Node) : Decidable (n.Within source) :=
  decidable_of_iff
    (0 ≤ n.label.startByte ∧ n.label.startByte ≤ n.label.endByte ∧ n.label.endByte ≤ source.length)
    ⟨fun ⟨h, h', h''⟩ => ⟨h, h', h''⟩, fun ⟨h, h', h''⟩ => ⟨h, h', h''⟩⟩

instance (n : Node) : Decidable n.Nested :=
  decidable_of_iff
    ((∀ c ∈ n.children,
        n.label.startByte ≤ c.label.startByte ∧ c.label.endByte ≤ n.label.endByte) ∧
      n.children.Pairwise fun c d => c.label.endByte ≤ d.label.startByte)
    ⟨fun ⟨h, h'⟩ => ⟨h, h'⟩, fun ⟨h, h'⟩ => ⟨h, h'⟩⟩

instance (source : List UInt8) (n : Node) : Decidable (n.Placed source) :=
  decidable_of_iff (∀ m ∈ n.preorder, m.Pointed source ∧ m.Within source ∧ m.Nested)
    (by rw [Placed, walk_eq_preorder])

/-- A node is visited before all below it. -/
theorem walk_eq_cons (n : Node) : n.walk = n :: preorderAll n.children := by
  rw [walk_eq_preorder]
  cases n
  rfl

theorem mem_preorder_self (n : Node) : n ∈ n.preorder := by
  rw [← walk_eq_preorder, walk_eq_cons]
  exact List.mem_cons_self

/-- Every child is visited. -/
theorem mem_preorderAll {c : Node} {cs : List Node} (h : c ∈ cs) : c ∈ preorderAll cs := by
  induction cs with
  | nil => cases h
  | cons d ds ih =>
    rw [preorderAll, List.mem_append]
    rcases List.mem_cons.1 h with rfl | h
    · exact .inl (mem_preorder_self c)
    · exact .inr (ih h)

/-- In a well placed tree the children of the root lie within the source. -/
theorem Placed.child (h : root.Placed source) {c : Node} (hc : c ∈ root.children) : c.Within source := by
  refine (h c ?_).2.1
  rw [walk_eq_cons]
  exact List.mem_cons_of_mem _ (mem_preorderAll hc)

end Node

/-! ## The widened root -/

/-- The plain copy is the tree itself, its root under no field. -/
theorem copyUnder_none (root : Node) : root.copyUnder none = copyRoot root := by
  rw [Node.copyUnder_eq, Node.copyEach_eq]
  rfl

/-- The widened root is where it says it is. -/
theorem pointed_widen (source : List UInt8) (n : Node) : (widen source n).Pointed source :=
  ⟨(pointAt_zero source).symm, endPoint_eq_pointAt source⟩

theorem within_widen (source : List UInt8) (n : Node) : (widen source n).Within source :=
  ⟨Int.le_refl 0, Int.natCast_nonneg _, Int.le_refl _⟩

/-- The children of the root lie within the widened root as they lie within the source. -/
theorem Node.Placed.nested_widen (h : root.Placed source) : (widen source root).Nested := by
  have hroot : root.Nested := (h root (by rw [Node.walk_eq_cons]; exact List.mem_cons_self)).2.2
  refine ⟨fun c hc => ?_, hroot.apart⟩
  have hw := h.child hc
  exact ⟨hw.start, hw.stop⟩

/-- Widening the root leaves a well placed tree well placed. -/
theorem Node.Placed.widen (h : root.Placed source) : (SourceTrees.widen source root).Placed source := by
  intro m hm
  rw [Node.walk_eq_cons] at hm
  rcases List.mem_cons.1 hm with rfl | hm
  · exact ⟨pointed_widen source root, within_widen source root, h.nested_widen⟩
  · refine h m ?_
    rw [Node.walk_eq_cons]
    exact List.mem_cons_of_mem _ hm

/-- The copy of a well placed tree is well placed: fields are no matter of places. -/
theorem Node.Placed.copyRoot (h : root.Placed source) :
    (SourceTrees.copyRoot root).Placed source := by
  intro m hm
  rw [Node.walk_eq_cons] at hm
  rcases List.mem_cons.1 hm with rfl | hm
  · obtain ⟨hp, hw, hn⟩ := h root (by rw [Node.walk_eq_cons]; exact List.mem_cons_self)
    exact ⟨⟨hp.first, hp.last⟩, ⟨hw.start, hw.order, hw.stop⟩, ⟨hn.inside, hn.apart⟩⟩
  · refine h m ?_
    rw [Node.walk_eq_cons]
    exact List.mem_cons_of_mem _ hm

/-- The tree is the copy of the engine's tree with the root widened. -/
structure Widened (name : String) (bytes : List UInt8) (root : Node) (t : Tree) : Prop where
  language : t.language = name
  source : t.source = bytes
  /-- The root's children are those of the plain copy. -/
  children : t.root.children = (root.copyUnder none).children
  /-- What is reached by a path of child positions is what is reached by it in the plain copy. -/
  below : ∀ path, path ≠ [] → t.root.descendant path = (root.copyUnder none).descendant path
  /-- Below the root the nodes are those of the plain copy, each once and in their order. -/
  walk : t.root.walk = t.root :: (root.copyUnder none).walk.tail
  /-- The root covers the source from its beginning to its end.  It has its kind and its flags, and
      is under no field. -/
  label : t.root.label =
    { root.label with
      startByte := 0, endByte := bytes.length
      startPoint := ⟨0, 0⟩, endPoint := scanPoint bytes
      field := none }
  /-- If the engine's tree is well placed, so is the tree, its root included. -/
  placed : root.Placed bytes → t.root.Placed bytes

/-- **The root is widened to the whole source, and nothing else is changed.**  So it is for every source
    and every tree of an engine. -/
theorem ofEngine_widened (language : String) (source : List UInt8) (root : Node) :
    Widened language source root (Tree.ofEngine language source root) := by
  have hroot : (Tree.ofEngine language source root).root = widen source (copyRoot root) := by
    rw [Tree.ofEngine, freeze_eq_copyUnder, copyUnder_none]
  refine ⟨rfl, rfl, ?_, fun path hpath => ?_, ?_, ?_, fun h => ?_⟩
  · rw [hroot, copyUnder_none]
    rfl
  · rw [hroot, copyUnder_none]
    cases path with
    | nil => exact absurd rfl hpath
    | cons position path =>
      rw [Node.descendant, Node.descendant]
      rfl
  · rw [hroot, copyUnder_none, Node.walk_eq_cons (copyRoot root), List.tail_cons]
    exact Node.walk_eq_cons _
  · rw [hroot, ← endPoint_eq_scanPoint]
    rfl
  · rw [hroot]
    exact h.copyRoot.widen

/-- The source of two short lines with a blank line before and after them. -/
def twoLines : List UInt8 := "\na\nbc\n\n".toUTF8.toList

/-- The tree that an engine gives for it: its root begins at the first letter and ends at the last. -/
def twoNames : Node :=
  .mk ⟨"module", 1, 5, ⟨1, 0⟩, ⟨2, 2⟩, true, false, false, false, some "top"⟩
    [.mk ⟨"name", 1, 2, ⟨1, 0⟩, ⟨1, 1⟩, true, false, false, false, some "first"⟩ [],
     .mk ⟨"name", 3, 5, ⟨2, 0⟩, ⟨2, 2⟩, true, false, false, false, none⟩
      [.mk ⟨"letter", 3, 4, ⟨2, 0⟩, ⟨2, 1⟩, true, false, false, false, none⟩ [],
       .mk ⟨"letter", 4, 5, ⟨2, 1⟩, ⟨2, 2⟩, false, false, true, false, none⟩ []]]

/-- The engine's tree is well placed, so the tree with the widened root is, which ends two rows below. -/
theorem ofEngine_widened_twoNames :
    twoNames.Placed twoLines ∧
      (Tree.ofEngine "python" twoLines twoNames).root.Placed twoLines ∧
      (Tree.ofEngine "python" twoLines twoNames).root.label.endPoint = ⟨4, 0⟩ := by
  have hplaced : twoNames.Placed twoLines := by decide +kernel
  have hw := ofEngine_widened "python" twoLines twoNames
  refine ⟨hplaced, hw.placed hplaced, ?_⟩
  rw [hw.label]
  decide +kernel

end SourceTrees
