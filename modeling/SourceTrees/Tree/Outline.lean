import SourceTrees.Json
import SourceTrees.Tree.Node

/-!
# Outlines

An outline tells a client about a tree without its source: for every node down to a chosen depth its
kind, range, number of children, field name and error flags.

* `Node.outline` makes the outline, to a number of levels or to the leaves; where it stops, the
  list of children is left out and the number of children still given.
* `Outline.prune` cuts a finished outline, `Outline.flatten` lists its entries in pre-order.
* `Outline.toJson` and `Tree.toJson` write outlines out.
-/

set_option autoImplicit false

namespace SourceTrees

/-- What an outline says of one node. -/
structure OutlineEntry where
  kind : String
  startByte : Int
  endByte : Int
  startPoint : Point
  endPoint : Point
  childCount : Nat
  field : Option String
  isError : Bool
  isMissing : Bool
  deriving DecidableEq, Repr, Inhabited

/-- An outline: an entry, and the outlines of the children unless it stops here. -/
inductive Outline where
  | mk (entry : OutlineEntry) (children : Option (List Outline))
  deriving Inhabited

/-- What an outline says of a node.  An empty field name is left out. -/
def Node.entry (n : Node) : OutlineEntry where
  kind := n.label.kind
  startByte := n.label.startByte
  endByte := n.label.endByte
  startPoint := n.label.startPoint
  endPoint := n.label.endPoint
  childCount := n.childCount
  field := n.label.field.filter fun f => !f.isEmpty
  isError := n.label.isError
  isMissing := n.label.isMissing

namespace Node

mutual
/-- The outline to the leaves. -/
def fullOutline : Node → Outline
  | mk l cs => .mk (mk l cs).entry (some (fullOutlines cs))

/-- The outlines of several nodes to their leaves. -/
def fullOutlines : List Node → List Outline
  | [] => []
  | n :: ns => fullOutline n :: fullOutlines ns
end

mutual
/-- The outline that goes the given number of levels below the node. -/
def outlineTo : Nat → Node → Outline
  | 0, n => .mk n.entry none
  | levels + 1, mk l cs => .mk (mk l cs).entry (some (outlinesTo levels cs))

/-- The outlines of several nodes, each to the given number of levels. -/
def outlinesTo (levels : Nat) : List Node → List Outline
  | [] => []
  | n :: ns => outlineTo levels n :: outlinesTo levels ns
end

/-- The outline to a depth; without one, to the leaves.  A depth below zero counts as zero. -/
def outline (n : Node) : Option Int → Outline
  | none => n.fullOutline
  | some depth => n.outlineTo depth.toNat

end Node

namespace Outline

/-- What the outline says of its node. -/
def entry : Outline → OutlineEntry
  | mk e _ => e

/-- The outlines of the children, unless it stops here. -/
def children? : Outline → Option (List Outline)
  | mk _ cs => cs

mutual
/-- Cuts an outline below the given number of levels. -/
def prune : Nat → Outline → Outline
  | 0, mk e _ => mk e none
  | _ + 1, mk e none => mk e none
  | levels + 1, mk e (some cs) => mk e (some (pruneAll levels cs))

/-- Cuts several outlines. -/
def pruneAll (levels : Nat) : List Outline → List Outline
  | [] => []
  | o :: os => prune levels o :: pruneAll levels os
end

mutual
/-- The entries of an outline in pre-order. -/
def flatten : Outline → List OutlineEntry
  | mk e none => [e]
  | mk e (some cs) => e :: flattenAll cs

/-- The entries of several outlines one after the other. -/
def flattenAll : List Outline → List OutlineEntry
  | [] => []
  | o :: os => flatten o ++ flattenAll os
end

end Outline

/-! ## Writing -/

/-- A position as a pair. -/
def Point.toJson (p : Point) : Json := .arr [.int p.row, .int p.column]

/-- The members that tell of one node. -/
def OutlineEntry.members (e : OutlineEntry) : List (String × Json) :=
  [("kind", .str e.kind), ("start_byte", .int e.startByte), ("end_byte", .int e.endByte),
      ("start_point", e.startPoint.toJson), ("end_point", e.endPoint.toJson),
      ("child_count", .int e.childCount)] ++
    (match e.field with | some f => [("field", .str f)] | none => []) ++
    (if e.isError then [("is_error", .bool true)] else []) ++
    (if e.isMissing then [("is_missing", .bool true)] else [])

mutual
/-- The outline as an object. -/
def Outline.toJson : Outline → Json
  | .mk e none => .obj e.members
  | .mk e (some cs) => .obj (e.members ++ [("children", .arr (outlinesToJson cs))])

/-- Several outlines as a list. -/
def outlinesToJson : List Outline → List Json
  | [] => []
  | o :: os => Outline.toJson o :: outlinesToJson os
end

/-- The members that tell of a tree. -/
def Tree.members (t : Tree) (depth : Option Int) : List (String × Json) :=
  [("language", .str t.language), ("has_error", .bool t.hasError),
    ("root", (t.root.outline depth).toJson)]

/-- The tree as an object. -/
def Tree.toJson (t : Tree) (depth : Option Int) : Json := .obj (t.members depth)

end SourceTrees
