import SourceTrees.Fault
import SourceTrees.Text.Charset
import SourceTrees.Text.Quoted

/-!
# Syntax trees

A tree is the immutable result of one parse: its language, the bytes of the source, and a root node.
Every node carries a label — kind, range, flags, and the field under which it hangs in its parent —
and its children in order.

## Results

* `Node.preorder` lists a node and all below it, each node before its children;
  `Node.walk` computes the same list with a stack, and `walk_eq_preorder` says so.
* `Node.descendant` follows a path of child positions; `place?` is the rule for positions.
* `Tree.text` reads the part of the source that a node covers; `slice` is the rule for ranges that
  reach outside the source.
* `Node.describe`, `Tree.describe` are the one-line descriptions.
-/

set_option autoImplicit false

namespace SourceTrees

/-- A position in the source: row and column, both from zero, the column in bytes. -/
structure Point where
  row : Int
  column : Int
  deriving DecidableEq, Repr, Inhabited

/-- All that a node knows of itself. -/
structure Label where
  kind : String
  startByte : Int
  endByte : Int
  startPoint : Point
  endPoint : Point
  isNamed : Bool := true
  isError : Bool := false
  isMissing : Bool := false
  hasError : Bool := false
  field : Option String := none
  deriving DecidableEq, Repr, Inhabited

/-- A node of a syntax tree. -/
inductive Node where
  | mk (label : Label) (children : List Node)
  deriving Inhabited

namespace Node

/-- What the node knows of itself. -/
def label : Node → Label
  | mk l _ => l

/-- The children in order. -/
def children : Node → List Node
  | mk _ cs => cs

@[simp] theorem label_mk (l : Label) (cs : List Node) : (mk l cs).label = l := rfl

@[simp] theorem children_mk (l : Label) (cs : List Node) : (mk l cs).children = cs := rfl

theorem eta (n : Node) : mk n.label n.children = n := by cases n; rfl

/-! ## Equality -/

mutual
/-- Do two nodes agree in their labels and, child by child, below? -/
def same : Node → Node → Bool
  | mk l cs, mk l' cs' => decide (l = l') && sameAll cs cs'

/-- Do two lists of nodes agree one by one? -/
def sameAll : List Node → List Node → Bool
  | [], [] => true
  | n :: ns, n' :: ns' => same n n' && sameAll ns ns'
  | _, _ => false
end

mutual
theorem same_iff : ∀ a b : Node, same a b = true ↔ a = b
  | mk l cs, mk l' cs' => by
    simp only [same, Bool.and_eq_true, decide_eq_true_eq, sameAll_iff cs cs', mk.injEq]

theorem sameAll_iff : ∀ as bs : List Node, sameAll as bs = true ↔ as = bs
  | [], [] => by simp [sameAll]
  | [], _ :: _ => by simp [sameAll]
  | _ :: _, [] => by simp [sameAll]
  | a :: as, b :: bs => by
    simp only [sameAll, Bool.and_eq_true, same_iff a b, sameAll_iff as bs, List.cons.injEq]
end

instance : DecidableEq Node := fun a b => decidable_of_iff (same a b = true) (same_iff a b)

/-! ## Traversal -/

mutual
/-- The number of nodes from here down. -/
def size : Node → Nat
  | mk _ cs => 1 + sizeAll cs

/-- The number of nodes in a list of trees. -/
def sizeAll : List Node → Nat
  | [] => 0
  | n :: ns => size n + sizeAll ns
end

theorem size_eq (n : Node) : n.size = 1 + sizeAll n.children := by cases n; rfl

@[simp] theorem sizeAll_append (as bs : List Node) : sizeAll (as ++ bs) = sizeAll as + sizeAll bs := by
  induction as with
  | nil => simp [sizeAll]
  | cons a as ih => simp [sizeAll, ih, Nat.add_assoc]

mutual
/-- The node and all below it, each node before its children. -/
def preorder : Node → List Node
  | mk l cs => mk l cs :: preorderAll cs

/-- The trees of a list one after the other. -/
def preorderAll : List Node → List Node
  | [] => []
  | n :: ns => preorder n ++ preorderAll ns
end

@[simp] theorem preorderAll_append (as bs : List Node) :
    preorderAll (as ++ bs) = preorderAll as ++ preorderAll bs := by
  induction as with
  | nil => rfl
  | cons a as ih => simp [preorderAll, ih]

/-- Visits the nodes of a stack: the top one is reported and replaced by its children. -/
def walkFrom : List Node → List Node
  | [] => []
  | n :: stack => n :: walkFrom (n.children ++ stack)
termination_by stack => sizeAll stack
decreasing_by
  rw [sizeAll_append, sizeAll, size_eq]
  omega

/-- The node and all below it, visited with a stack. -/
def walk (n : Node) : List Node := walkFrom [n]

theorem walkFrom_eq_preorderAll (stack : List Node) : walkFrom stack = preorderAll stack := by
  fun_induction walkFrom stack with
  | case1 => rfl
  | case2 n stack ih =>
    rw [ih, preorderAll_append, preorderAll]
    cases n
    simp [preorder]

/-- The walk is the pre-order. -/
theorem walk_eq_preorder (n : Node) : n.walk = n.preorder := by
  rw [walk, walkFrom_eq_preorderAll, preorderAll, preorderAll, List.append_nil]

/-! ## Looking at a node -/

/-- The number of children. -/
def childCount (n : Node) : Nat := n.children.length

/-- The children that have a name in the grammar. -/
def namedChildren (n : Node) : List Node := n.children.filter (·.label.isNamed)

/-- First and last byte of the range. -/
def byteRange (n : Node) : Int × Int := (n.label.startByte, n.label.endByte)

/-- The first child under the given field, or the first one under no field. -/
def childByField? (n : Node) (field : Option String) : Option Node :=
  n.children.find? (·.label.field == field)

/-- Is the node itself an error or a missing token? -/
def isFaulty (n : Node) : Bool := n.label.isError || n.label.isMissing

/-- The place in a list of the given length that a position means, if it means one.  Negative
    positions count from the end. -/
def place? (length : Nat) (position : Int) : Option Nat :=
  if 0 ≤ position then
    if position < length then some position.toNat else none
  else if 0 ≤ position + length then some (position + length).toNat
  else none

theorem place?_lt {length k : Nat} {position : Int} (h : place? length position = some k) :
    k < length := by
  unfold place? at h
  split at h
  · split at h
    · simp only [Option.some.injEq] at h
      omega
    · simp at h
  · split at h
    · simp only [Option.some.injEq] at h
      omega
    · simp at h

/-- The node reached from here by a path of child positions. -/
def descendant (n : Node) : List Int → Except Fault Node
  | [] => .ok n
  | position :: path =>
    match (place? n.children.length position).bind (n.children[·]?) with
    | some child => child.descendant path
    | none => .error (.noChild position)

/-- The node with another label. -/
def withLabel (n : Node) (l : Label) : Node := mk l n.children

end Node

/-! ## Trees -/

/-- The immutable result of one parse. -/
structure Tree where
  language : String
  source : List UInt8
  root : Node
  deriving DecidableEq, Inhabited

/-- A position in a list of the given length: negative ones count from the end, and what lies
    outside moves to the nearer end. -/
def clampIndex (length : Nat) (i : Int) : Nat :=
  if i < 0 then (i + length).toNat else min i.toNat length

/-- The bytes between two positions; none if they are in the wrong order. -/
def slice (bytes : List UInt8) (start stop : Int) : List UInt8 :=
  let first := clampIndex bytes.length start
  let last := clampIndex bytes.length stop
  (bytes.drop first).take (last - first)

namespace Tree

/-- Did the source contain errors? -/
def hasError (t : Tree) : Bool := t.root.label.hasError

/-- All nodes in pre-order. -/
def walk (t : Tree) : List Node := t.root.walk

/-- The nodes of a kind in pre-order. -/
def findAll (t : Tree) (kind : String) : List Node := t.walk.filter (·.label.kind == kind)

/-- The error and missing nodes in pre-order. -/
def errorNodes (t : Tree) : List Node := t.walk.filter (·.isFaulty)

/-- The bytes that a node covers. -/
def bytesOf (t : Tree) (n : Node) : List UInt8 := slice t.source n.label.startByte n.label.endByte

/-- The source text that a node covers. -/
def text (t : Tree) (n : Node) : String := Text.Utf8.decode (t.bytesOf n)

/-- The source text that a node covers, in a character set given by name.  An unknown set is no
    fault where there is nothing to read. -/
def textIn (t : Tree) (n : Node) (charset : String) : Except Fault String :=
  if charset.contains (Char.ofNat 0) then .error .nullInName
  else
    match t.bytesOf n, Text.Charset.named? charset with
    | [], _ => .ok ""
    | bytes, some c => .ok (c.decode bytes)
    | _, none => .error (.unknownCharset charset)

end Tree

/-! ## Descriptions -/

/-- A truth value in a description. -/
def describeBool (b : Bool) : String := if b then "True" else "False"

/-- A position in a description. -/
def Point.describe (p : Point) : String := "(" ++ toString p.row ++ ", " ++ toString p.column ++ ")"

/-- A node in one line, without what is below it. -/
def Node.describe (n : Node) : String :=
  let l := n.label
  "SyntaxNode(kind=" ++ Text.quoted l.kind ++ ", start_byte=" ++ toString l.startByte ++
    ", end_byte=" ++ toString l.endByte ++ ", start_point=" ++ l.startPoint.describe ++
    ", end_point=" ++ l.endPoint.describe ++ ", is_named=" ++ describeBool l.isNamed ++
    ", is_error=" ++ describeBool l.isError ++ ", is_missing=" ++ describeBool l.isMissing ++
    ", has_error=" ++ describeBool l.hasError ++ ", field_name=" ++
    (match l.field with | some f => Text.quoted f | none => "None") ++ ")"

/-- A tree in one line, without source and nodes. -/
def Tree.describe (t : Tree) : String := "SyntaxTree(language=" ++ Text.quoted t.language ++ ")"

end SourceTrees
