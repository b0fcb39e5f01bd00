import Mathlib.Data.List.Forall2
import SourceTrees.Tree.Outline

/-!
# Outlines to a depth

An outline to a depth is the whole outline with the dictionaries at that depth cut off: they lose their
list of children and keep all else, the number of children included.

## Protocol

* A **dictionary** of an outline is an object; the dictionaries below it are the items of its member
  `children`.
* Cutting at a depth is said of any structured value: it knows nothing of nodes.

## Results

* `Outline.toJson_prune` — cutting an outline is cutting what is written of it.
* `Node.prune_fullOutline`, `Outline.prune_prune` — the two laws of depths.
* `Pruned` — what is said of the outlines of a node; **`outlines_pruned`** — it holds of every node.
-/

set_option autoImplicit false

namespace SourceTrees

/-! ## Dictionaries -/

namespace Json

/-- The member that holds what is below a dictionary. -/
def childrenName : String := "children"

/-- The items of a list; none of anything else. -/
def items : Json → List Json
  | arr items => items
  | _ => []

/-- The same list with other items. -/
def mapItems (f : Json → Json) : Json → Json
  | arr items => arr (items.map f)
  | value => value

/-- The dictionaries that are right below one. -/
def childItems (d : Json) : List Json := ((d.member? childrenName).map items).getD []

/-- The dictionaries at a depth, from left to right. -/
def atDepth : Nat → Json → List Json
  | 0, d => [d]
  | depth + 1, d => d.childItems.flatMap (atDepth depth)

/-- Takes the list of what is below away from every dictionary at a depth. -/
def cutAt : Nat → Json → Json
  | 0, obj members => obj (members.filter fun m => m.1 ≠ childrenName)
  | depth + 1, obj members =>
    obj (members.map fun m => if m.1 = childrenName then (m.1, m.2.mapItems (cutAt depth)) else m)
  | _, value => value

variable {name : String} {ms ms' : List (String × Json)}

theorem member?_append (h : ∀ m ∈ ms, m.1 ≠ name) : (obj (ms ++ ms')).member? name = (obj ms').member? name := by
  have hnone : ms.find? (·.1 == name) = none := List.find?_eq_none.2 fun m hm => by simpa using h m hm
  rw [member?, List.find?_append, hnone, Option.none_or, member?]

theorem member?_nil (name : String) : (obj []).member? name = none := rfl

@[simp] theorem items_arr (items : List Json) : (arr items).items = items := rfl

@[simp] theorem mapItems_arr (f : Json → Json) (items : List Json) :
    (arr items).mapItems f = arr (items.map f) := rfl

end Json

/-! ## What is written of an outline -/

namespace OutlineEntry

/-- What is said of a node is no list of what is below it. -/
theorem name_ne_children (e : OutlineEntry) : ∀ m ∈ e.members, m.1 ≠ Json.childrenName := by
  intro m hm he
  have hmem : Json.childrenName ∈ e.members.map Prod.fst := he ▸ List.mem_map_of_mem hm
  revert hmem
  cases hf : e.field <;> cases he : e.isError <;> cases hm : e.isMissing <;>
    simp [members, Json.childrenName, hf, he, hm]

theorem childCount_member (e : OutlineEntry) (ms : List (String × Json)) :
    (Json.obj (e.members ++ ms)).member? "child_count" = some (.int e.childCount) := rfl

end OutlineEntry

namespace Outline

theorem outlinesToJson_eq (os : List Outline) : outlinesToJson os = os.map toJson := by
  induction os with
  | nil => rfl
  | cons o os ih => rw [outlinesToJson, ih, List.map_cons]

theorem pruneAll_eq (levels : Nat) (os : List Outline) : pruneAll levels os = os.map (prune levels) := by
  induction os with
  | nil => rfl
  | cons o os ih => rw [pruneAll, ih, List.map_cons]

theorem toJson_none (e : OutlineEntry) : (mk e none).toJson = .obj e.members := by rw [toJson]

theorem toJson_some (e : OutlineEntry) (os : List Outline) :
    (mk e (some os)).toJson = .obj (e.members ++ [(Json.childrenName, .arr (os.map toJson))]) := by
  rw [toJson, outlinesToJson_eq]
  rfl

theorem childCount_toJson (o : Outline) : o.toJson.member? "child_count" = some (.int o.entry.childCount) := by
  obtain ⟨e, _ | os⟩ := o
  · rw [toJson_none, ← List.append_nil e.members]
    exact e.childCount_member []
  · rw [toJson_some]
    exact e.childCount_member _

theorem children_toJson (o : Outline) :
    o.toJson.member? Json.childrenName = o.children?.map fun os => .arr (os.map toJson) := by
  obtain ⟨e, _ | os⟩ := o
  · rw [toJson_none, ← List.append_nil e.members, Json.member?_append e.name_ne_children]
    rfl
  · rw [toJson_some, Json.member?_append e.name_ne_children]
    rfl

theorem childItems_toJson (o : Outline) : o.toJson.childItems = (o.children?.getD []).map toJson := by
  rw [Json.childItems, children_toJson]
  cases o.children? <;> rfl

/-- Cutting an outline is cutting what is written of it. -/
theorem toJson_prune : ∀ (levels : Nat) (o : Outline), (o.prune levels).toJson = o.toJson.cutAt levels
  | 0, mk e cs => by
    have hkeep : e.members.filter (fun m => m.1 ≠ Json.childrenName) = e.members :=
      List.filter_eq_self.2 fun m hm => decide_eq_true (e.name_ne_children m hm)
    rw [prune, toJson_none]
    cases cs with
    | none => rw [toJson_none, Json.cutAt, hkeep]
    | some os =>
      rw [toJson_some, Json.cutAt, List.filter_append, hkeep]
      simp
  | levels + 1, mk e cs => by
    have hkeep : (e.members.map fun m =>
        if m.1 = Json.childrenName then (m.1, m.2.mapItems (Json.cutAt levels)) else m) = e.members :=
      (List.map_congr_left fun m hm => if_neg (e.name_ne_children m hm)).trans (List.map_id _)
    cases cs with
    | none => rw [prune, toJson_none, Json.cutAt, hkeep]
    | some os =>
      have hbelow : (os.map (prune levels)).map toJson = (os.map toJson).map (Json.cutAt levels) := by
        rw [List.map_map, List.map_map]
        exact List.map_congr_left fun o _ => toJson_prune levels o
      rw [prune, pruneAll_eq, toJson_some, toJson_some, hbelow, Json.cutAt, List.map_append, hkeep]
      simp

/-- Of two cuts the upper one counts. -/
theorem prune_prune : ∀ (j k : Nat) (o : Outline), (o.prune k).prune j = o.prune (min j k)
  | 0, k, mk e cs => by cases k <;> cases cs <;> simp [prune]
  | j + 1, 0, mk e cs => by cases cs <;> simp [prune]
  | j + 1, k + 1, mk e none => by rw [prune, prune, Nat.add_min_add_right, prune]
  | j + 1, k + 1, mk e (some os) => by
    have hbelow : os.map (prune j ∘ prune k) = os.map (prune (min j k)) :=
      List.map_congr_left fun o _ => prune_prune j k o
    rw [prune, prune, Nat.add_min_add_right, prune, pruneAll_eq, pruneAll_eq, pruneAll_eq, List.map_map, hbelow]

end Outline

/-! ## Outlines of nodes -/

namespace Node

mutual
/-- The number of levels below a node. -/
def height : Node → Nat
  | mk _ cs => heightAll cs

/-- The number of levels of trees that are children of one node. -/
def heightAll : List Node → Nat
  | [] => 0
  | c :: cs => max (height c + 1) (heightAll cs)
end

/-- The nodes at a depth, from left to right. -/
def atDepth : Nat → Node → List Node
  | 0, n => [n]
  | depth + 1, n => n.children.flatMap (atDepth depth)

theorem fullOutlines_eq (cs : List Node) : fullOutlines cs = cs.map fullOutline := by
  induction cs with
  | nil => rfl
  | cons c cs ih => rw [fullOutlines, ih, List.map_cons]

theorem outlinesTo_eq (levels : Nat) (cs : List Node) : outlinesTo levels cs = cs.map (outlineTo levels) := by
  induction cs with
  | nil => rfl
  | cons c cs ih => rw [outlinesTo, ih, List.map_cons]

theorem fullOutline_eq (n : Node) : n.fullOutline = .mk n.entry (some (n.children.map fullOutline)) := by
  cases n
  rw [fullOutline, fullOutlines_eq, children_mk]

theorem outlineTo_zero (n : Node) : n.outlineTo 0 = .mk n.entry none := by
  cases n
  rw [outlineTo]

theorem outlineTo_succ (levels : Nat) (n : Node) :
    n.outlineTo (levels + 1) = .mk n.entry (some (n.children.map (outlineTo levels))) := by
  cases n
  rw [outlineTo, outlinesTo_eq, children_mk]

/-- The outline to a depth is the whole outline, cut there. -/
theorem prune_fullOutline : ∀ (levels : Nat) (n : Node), n.fullOutline.prune levels = n.outlineTo levels
  | 0, n => by rw [fullOutline_eq, Outline.prune, outlineTo_zero]
  | levels + 1, n => by
    rw [fullOutline_eq, Outline.prune, Outline.pruneAll_eq, outlineTo_succ, List.map_map]
    exact congrArg _ (congrArg _ (List.map_congr_left fun c _ => prune_fullOutline levels c))

theorem prune_outlineTo (j k : Nat) (n : Node) : (n.outlineTo k).prune j = n.outlineTo (min j k) := by
  rw [← prune_fullOutline, Outline.prune_prune, prune_fullOutline]

mutual
/-- A cut below the leaves takes nothing away. -/
theorem outlineTo_of_height : ∀ (n : Node) {levels : Nat}, n.height < levels → n.outlineTo levels = n.fullOutline
  | mk l cs, levels + 1, h => by
    rw [outlineTo, fullOutline, outlinesTo_of_height cs (Nat.le_of_lt_succ h)]

theorem outlinesTo_of_height : ∀ (cs : List Node) {levels : Nat}, heightAll cs ≤ levels →
    outlinesTo levels cs = fullOutlines cs
  | [], _, _ => rfl
  | c :: cs, levels, h => by
    rw [heightAll, Nat.max_le] at h
    rw [outlinesTo, fullOutlines, outlineTo_of_height c h.1, outlinesTo_of_height cs h.2]
end

/-- Down to its depth an outline has a dictionary for every node: those above it have their lists of children,
    those at it do not. -/
theorem atDepth_outlineTo : ∀ (depth left : Nat) (n : Node),
    (n.outlineTo (depth + left)).toJson.atDepth depth = (n.atDepth depth).map fun m => (m.outlineTo left).toJson
  | 0, left, n => by rw [Nat.zero_add]; rfl
  | depth + 1, left, n => by
    rw [Nat.add_right_comm, Json.atDepth, outlineTo_succ, Outline.childItems_toJson, atDepth, List.map_flatMap]
    simp only [Outline.children?, Option.getD_some, List.flatMap_map]
    exact List.flatMap_congr fun c _ => atDepth_outlineTo depth left c

end Node

/-! ## The law -/

/-- What is said of the outlines of a node; a depth below zero counts as zero. -/
structure Pruned (n : Node) : Prop where
  /-- The outline to a depth is the whole one, cut there. -/
  cut : ∀ k : Int, (n.outline (some k)).toJson = (n.outline none).toJson.cutAt (max k 0).toNat
  /-- An outline that goes beyond the leaves is the whole one. -/
  whole : ∀ k : Int, (n.height : Int) + 1 ≤ k → (n.outline (some k)).toJson = (n.outline none).toJson
  /-- An outline that is cut once more is the one to the lesser depth. -/
  again : ∀ j k : Int, (n.outline (some k)).toJson.cutAt (max j 0).toNat =
    (n.outline (some (min (max j 0) (max k 0)))).toJson
  /-- Above the depth every dictionary has a list of children, as many as it says. -/
  above : ∀ (k : Int) (depth : Nat), (depth : Int) < max k 0 →
    ∀ d ∈ (n.outline (some k)).toJson.atDepth depth,
      ∃ ds, d.member? "children" = some (.arr ds) ∧ d.member? "child_count" = some (.int ds.length)
  /-- At the depth there is a dictionary for every node.  It has no list of children, and says how many
      children the node has. -/
  edge : ∀ k : Int, List.Forall₂
    (fun (m : Node) (d : Json) =>
      d.member? "children" = none ∧ d.member? "child_count" = some (.int m.children.length))
    (n.atDepth (max k 0).toNat) ((n.outline (some k)).toJson.atDepth (max k 0).toNat)

/-- **An outline to a depth is a pruning of the whole one**, for every node and every depth. -/
theorem outlines_pruned (n : Node) : Pruned n := by
  have hmax : ∀ k : Int, (max k 0).toNat = k.toNat := fun k => by omega
  refine ⟨fun k => ?_, fun k hk => ?_, fun j k => ?_, fun k depth hdepth d hd => ?_, fun k => ?_⟩
  · rw [Node.outline, Node.outline, hmax, ← Outline.toJson_prune, Node.prune_fullOutline]
  · rw [Node.outline, Node.outline, Node.outlineTo_of_height n (by omega)]
  · have hmin : (min (max j 0) (max k 0)).toNat = min j.toNat k.toNat := by omega
    rw [Node.outline, Node.outline, hmax, ← Outline.toJson_prune, Node.prune_outlineTo, hmin]
  · obtain ⟨left, hleft⟩ : ∃ left, k.toNat = depth + (left + 1) := ⟨k.toNat - depth - 1, by omega⟩
    rw [Node.outline, hleft, Node.atDepth_outlineTo] at hd
    obtain ⟨m, -, rfl⟩ := List.mem_map.1 hd
    rw [Node.outlineTo_succ]
    refine ⟨_, Outline.children_toJson _, ?_⟩
    rw [Outline.childCount_toJson]
    simp only [Outline.entry, Node.entry, Node.childCount, List.length_map]
  · have hat := Node.atDepth_outlineTo k.toNat 0 n
    rw [Nat.add_zero] at hat
    rw [Node.outline, hmax, hat, List.forall₂_map_right_iff, List.forall₂_same]
    intro m _
    rw [Node.outlineTo_zero]
    exact ⟨Outline.children_toJson _, Outline.childCount_toJson _⟩

end SourceTrees
