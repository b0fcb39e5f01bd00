import SourceTrees.Proofs.Tree.Pruning
import SourceTrees.Proofs.Tree.Traversal
import SourceTrees.Service.Tools

/-!
# What an outline tells of a tree

The outline of a tree, made by recursion, and the walk over it, made with a stack, meet the same nodes in
the same order.  So the outline tells all of a tree but what it leaves out.

## Protocol

* The **dictionaries** of an outline are listed like the nodes of a tree: one before those below it, and
  these from left to right.
* Two labels are **alike** if they differ at most in whether the node is named, in whether it has an error,
  and in an empty field name in the place of none.

## Results

* `Node.dictionaries_fullOutline` — the dictionaries of an outline are those of the nodes.
* `Node.Tells.alike` — one dictionary tells of labels that are alike.
* `Node.alike_iff` — two outlines are the same if the nodes are alike all the way down.
* `Outlined` — what is said of the outline of a tree; **`outlines_tell`** — it holds of every tree.
-/

set_option autoImplicit false

namespace SourceTrees

/-! ## The dictionaries of an outline -/

namespace Json

mutual
/-- A dictionary and all below it, each before those below it. -/
def dictionaries : Json → List Json
  | obj members => obj members :: dictionariesIn members
  | _ => []

/-- The dictionaries in the member that holds what is below. -/
def dictionariesIn : List (String × Json) → List Json
  | [] => []
  | (name, arr items) :: rest =>
    (if name = childrenName then dictionariesOf items else []) ++ dictionariesIn rest
  | _ :: rest => dictionariesIn rest

/-- The dictionaries of values one after the other. -/
def dictionariesOf : List Json → List Json
  | [] => []
  | item :: rest => dictionaries item ++ dictionariesOf rest
end

variable {name : String} {ms ms' : List (String × Json)}

theorem dictionariesIn_append (ms ms' : List (String × Json)) :
    dictionariesIn (ms ++ ms') = dictionariesIn ms ++ dictionariesIn ms' := by
  induction ms with
  | nil => rfl
  | cons m ms ih =>
    obtain ⟨name, value⟩ := m
    cases value <;> simp [dictionariesIn, ih]

theorem dictionariesIn_eq_nil (h : ∀ m ∈ ms, m.1 ≠ childrenName) : dictionariesIn ms = [] := by
  induction ms with
  | nil => rfl
  | cons m ms ih =>
    obtain ⟨name, value⟩ := m
    have hname : name ≠ childrenName := h (name, value) List.mem_cons_self
    have hms := ih fun m hm => h m (List.mem_cons_of_mem _ hm)
    cases value <;> simp [dictionariesIn, hname, hms]

/-! ## Members that take the place of others -/

theorem find?_putMember (name name' : String) (value : Json) : ∀ ms : List (String × Json),
    (putMember name value ms).find? (·.1 == name') =
      if name = name' then some (name, value) else ms.find? (·.1 == name')
  | [] => by
    by_cases h : name = name' <;> simp [putMember, h]
  | (name₀, value₀) :: ms => by
    rw [putMember]
    split
    · rename_i h
      simp only at h
      by_cases h' : name = name' <;> simp [h, h']
    · rename_i h
      simp only at h
      rw [List.find?_cons, List.find?_cons, find?_putMember name name' value ms]
      by_cases h' : name₀ = name'
      · have hne : name ≠ name' := fun he => h (h'.trans he.symm)
        simp [h', hne]
      · have hname : (name₀ == name') = false := beq_false_of_ne h'
        simp [hname]

theorem find?_putMembers (name : String) : ∀ (ms acc : List (String × Json)),
    (ms.foldl (fun acc m => putMember m.1 m.2 acc) acc).find? (·.1 == name) =
      (ms.reverse.find? (·.1 == name)).or (acc.find? (·.1 == name))
  | [], acc => by simp
  | m :: ms, acc => by
    rw [List.foldl_cons, find?_putMembers name ms, find?_putMember, List.reverse_cons, List.find?_append]
    cases ms.reverse.find? (·.1 == name) with
    | some _ => rfl
    | none =>
      by_cases h : m.1 = name
      · subst h
        simp
      · simp [h]

/-- In an object the last member of a name counts. -/
theorem member?_object (name : String) (ms : List (String × Json)) :
    (object ms).member? name = (ms.reverse.find? (·.1 == name)).map (·.2) := by
  rw [object, member?, find?_putMembers, List.find?_nil, Option.or_none]

end Json

/-! ## What a dictionary tells of a node -/

/-- The labels differ at most in what an outline leaves out. -/
structure Label.Alike (l l' : Label) : Prop where
  kind : l.kind = l'.kind
  startByte : l.startByte = l'.startByte
  endByte : l.endByte = l'.endByte
  startPoint : l.startPoint = l'.startPoint
  endPoint : l.endPoint = l'.endPoint
  isError : l.isError = l'.isError
  isMissing : l.isMissing = l'.isMissing
  /-- An empty field name counts as none. -/
  field : (l.field.filter fun f => f ≠ "") = l'.field.filter fun f => f ≠ ""

namespace Node

/-- The dictionary tells of the node. -/
structure Tells (n : Node) (d : Json) : Prop where
  kind : d.member? "kind" = some (.str n.label.kind)
  startByte : d.member? "start_byte" = some (.int n.label.startByte)
  endByte : d.member? "end_byte" = some (.int n.label.endByte)
  startPoint : d.member? "start_point" =
    some (.arr [.int n.label.startPoint.row, .int n.label.startPoint.column])
  endPoint : d.member? "end_point" = some (.arr [.int n.label.endPoint.row, .int n.label.endPoint.column])
  childCount : d.member? "child_count" = some (.int n.children.length)
  /-- The field name is told when there is one and it is not empty. -/
  field : d.member? "field" = (n.label.field.filter fun f => f ≠ "").map .str
  /-- The marks of an error and of a missing token are there exactly when they are set. -/
  isError : d.member? "is_error" = if n.label.isError then some (.bool true) else none
  isMissing : d.member? "is_missing" = if n.label.isMissing then some (.bool true) else none

theorem filter_isEmpty (field : Option String) :
    (field.filter fun f => !f.isEmpty) = field.filter fun f => f ≠ "" := by
  cases field with
  | none => rfl
  | some f => by_cases h : f = "" <;> simp [Option.filter, h]

/-- The dictionary that is written of a node tells of it. -/
theorem tells_fullOutline (n : Node) : n.Tells n.fullOutline.toJson := by
  have hfield : n.entry.field = n.label.field.filter fun f => f ≠ "" := filter_isEmpty n.label.field
  rw [fullOutline_eq, Outline.toJson_some]
  refine ⟨rfl, rfl, rfl, rfl, rfl, rfl, ?_, ?_, ?_⟩
  · rw [← hfield]
    cases hf : n.entry.field <;> cases he : n.entry.isError <;> cases hm : n.entry.isMissing <;>
      simp [OutlineEntry.members, Json.member?, Json.childrenName, hf, he, hm]
  · show _ = if n.entry.isError then _ else _
    cases hf : n.entry.field <;> cases he : n.entry.isError <;> cases hm : n.entry.isMissing <;>
      simp [OutlineEntry.members, Json.member?, Json.childrenName, hf, he, hm]
  · show _ = if n.entry.isMissing then _ else _
    cases hf : n.entry.field <;> cases he : n.entry.isError <;> cases hm : n.entry.isMissing <;>
      simp [OutlineEntry.members, Json.member?, Json.childrenName, hf, he, hm]

/-- Nodes that one dictionary tells of are alike. -/
theorem Tells.alike {n n' : Node} {d : Json} (h : n.Tells d) (h' : n'.Tells d) : n.label.Alike n'.label := by
  have hpoint : ∀ {p q : Point}, some (Json.arr [.int p.row, .int p.column]) =
      some (.arr [.int q.row, .int q.column]) → p = q := by
    rintro ⟨_, _⟩ ⟨_, _⟩ he
    cases he
    rfl
  have hflag : ∀ {b b' : Bool}, (if b then some (Json.bool true) else none) =
      (if b' then some (.bool true) else none) → b = b' := by
    rintro (_ | _) (_ | _) he <;> first | rfl | cases he
  refine ⟨?_, ?_, ?_, hpoint (h.startPoint.symm.trans h'.startPoint),
    hpoint (h.endPoint.symm.trans h'.endPoint), hflag (h.isError.symm.trans h'.isError),
    hflag (h.isMissing.symm.trans h'.isMissing), ?_⟩
  · exact Json.str.inj (Option.some.inj (h.kind.symm.trans h'.kind))
  · exact Json.int.inj (Option.some.inj (h.startByte.symm.trans h'.startByte))
  · exact Json.int.inj (Option.some.inj (h.endByte.symm.trans h'.endByte))
  · exact Option.map_injective (fun _ _ he => Json.str.inj he) (h.field.symm.trans h'.field)

/-! ## The outline of a tree -/

mutual
/-- The dictionaries of a whole outline are those of the nodes, in the recursive order. -/
theorem dictionaries_fullOutline : ∀ n : Node,
    n.fullOutline.toJson.dictionaries = n.preorder.map fun m => m.fullOutline.toJson
  | mk l cs => by
    have hself := fullOutline_eq (mk l cs)
    rw [children_mk] at hself
    rw [preorder, List.map_cons, hself, Outline.toJson_some, Json.dictionaries, Json.dictionariesIn_append,
      Json.dictionariesIn_eq_nil (OutlineEntry.name_ne_children _), List.map_map, ← dictionariesOf_fullOutline cs]
    simp [Json.dictionariesIn]

theorem dictionariesOf_fullOutline : ∀ cs : List Node,
    Json.dictionariesOf (cs.map (Outline.toJson ∘ fullOutline)) =
      (preorderAll cs).map fun m => m.fullOutline.toJson
  | [] => rfl
  | c :: cs => by
    rw [List.map_cons, Json.dictionariesOf, Function.comp, dictionaries_fullOutline c,
      dictionariesOf_fullOutline cs, preorderAll, List.map_append]
end

mutual
/-- The nodes have the same shape, and alike labels all the way down. -/
def Alike : Node → Node → Prop
  | mk l cs, mk l' cs' => l.Alike l' ∧ AlikeAll cs cs'

/-- The nodes are alike one by one. -/
def AlikeAll : List Node → List Node → Prop
  | [], [] => True
  | c :: cs, c' :: cs' => c.Alike c' ∧ AlikeAll cs cs'
  | _, _ => False
end

theorem alikeAll_length : ∀ {cs cs' : List Node}, AlikeAll cs cs' → cs.length = cs'.length
  | [], [], _ => rfl
  | _ :: _, _ :: _, h => congrArg (· + 1) (alikeAll_length h.2)
  | [], _ :: _, h => by simp [AlikeAll] at h
  | _ :: _, [], h => by simp [AlikeAll] at h

/-- Alike labels over as many children make the same entry. -/
theorem entry_eq {n n' : Node} (h : n.label.Alike n'.label) (hc : n.children.length = n'.children.length) :
    n.entry = n'.entry := by
  simp only [entry, childCount, h.kind, h.startByte, h.endByte, h.startPoint, h.endPoint, hc, filter_isEmpty,
    h.field, h.isError, h.isMissing]

mutual
/-- Two whole outlines are the same if the nodes are alike all the way down. -/
theorem alike_iff : ∀ n n' : Node, n.fullOutline.toJson = n'.fullOutline.toJson ↔ n.Alike n'
  | mk l cs, mk l' cs' => by
    constructor
    · intro h
      have htells : (mk l' cs').Tells (mk l cs).fullOutline.toJson := h ▸ tells_fullOutline (mk l' cs')
      have hbelow := congrArg (Json.member? Json.childrenName) h
      rw [Outline.children_toJson, Outline.children_toJson, fullOutline_eq, fullOutline_eq] at hbelow
      refine ⟨(tells_fullOutline (mk l cs)).alike htells, (alikeAll_iff cs cs').1 ?_⟩
      rw [← List.map_map, ← List.map_map]
      exact Json.arr.inj (Option.some.inj hbelow)
    · rintro ⟨hlabel, hbelow⟩
      have hentry : (mk l cs).entry = (mk l' cs').entry := entry_eq hlabel (alikeAll_length hbelow)
      rw [fullOutline_eq, fullOutline_eq, Outline.toJson_some, Outline.toJson_some, hentry, children_mk,
        children_mk, List.map_map, List.map_map, (alikeAll_iff cs cs').2 hbelow]

theorem alikeAll_iff : ∀ cs cs' : List Node,
    cs.map (Outline.toJson ∘ fullOutline) = cs'.map (Outline.toJson ∘ fullOutline) ↔ AlikeAll cs cs'
  | [], [] => by simp [AlikeAll]
  | [], _ :: _ => by simp [AlikeAll]
  | _ :: _, [] => by simp [AlikeAll]
  | c :: cs, c' :: cs' => by
    rw [List.map_cons, List.map_cons, List.cons.injEq, alikeAll_iff cs cs', Function.comp_apply,
      Function.comp_apply, alike_iff c c', AlikeAll]
end

end Node

/-- A dictionary that is marked as an error or as a missing token. -/
def Json.isMarked (d : Json) : Bool := (d.member? "is_error").isSome || (d.member? "is_missing").isSome

/-- A dictionary is marked if the node that it tells of is faulty. -/
theorem Node.Tells.isMarked {n : Node} {d : Json} (h : n.Tells d) : d.isMarked = n.isFaulty := by
  rw [Json.isMarked, h.isError, h.isMissing, Node.isFaulty]
  cases n.label.isError <;> cases n.label.isMissing <;> rfl

/-! ## The law -/

/-- What is said of the outline of a tree. -/
structure Outlined (t : Tree) : Prop where
  /-- The dictionaries of the outline and the nodes of the walk come in the same order, and each tells of its
      node. -/
  told : List.Forall₂ Node.Tells t.walk (t.root.outline none).toJson.dictionaries
  /-- Another tree has the same description exactly if it has the same language, its root the same mark of
      errors, and its nodes the same shape and alike labels. -/
  determined : ∀ t' : Tree, t.toJson none = t'.toJson none ↔
    t.language = t'.language ∧ t.hasError = t'.hasError ∧ t.root.Alike t'.root
  /-- An answer to any depth has the outline to that depth, and counts the marked dictionaries of the whole
      outline. -/
  counted : ∀ (depth : Option Int) (extra : List (String × Json)),
    Tools.treeDocument t depth extra = (Tools.treeAnswer t depth extra).pretty ∧
      (Tools.treeAnswer t depth extra).member? "root" = some (t.root.outline depth).toJson ∧
      (Tools.treeAnswer t depth extra).member? "error_count" =
        some (.int ((t.root.outline none).toJson.dictionaries.filter Json.isMarked).length)

theorem Tree.dictionaries_outline (t : Tree) :
    (t.root.outline none).toJson.dictionaries = t.walk.map fun n => n.fullOutline.toJson := by
  rw [Node.outline, Node.dictionaries_fullOutline, Tree.walk, Node.walk_eq_preorder]

/-- **The outline of a tree and the walk over it agree**, for every tree. -/
theorem outlines_tell (t : Tree) : Outlined t := by
  refine ⟨?_, fun t' => ?_, fun depth extra => ⟨rfl, ?_, ?_⟩⟩
  · rw [t.dictionaries_outline, List.forall₂_map_right_iff, List.forall₂_same]
    exact fun n _ => n.tells_fullOutline
  · rw [← Node.alike_iff, Tree.toJson, Tree.toJson, Tree.members, Tree.members, Node.outline, Node.outline]
    simp
  · rw [Tools.treeAnswer, Json.member?_object]
    simp [Tree.members]
  · have hmarked : Json.isMarked ∘ (fun n : Node => n.fullOutline.toJson) = Node.isFaulty :=
      funext fun n => n.tells_fullOutline.isMarked
    rw [t.dictionaries_outline, List.filter_map, hmarked, List.length_map, Tools.treeAnswer, Json.member?_object]
    simp [Tree.members, Tree.errorNodes]

end SourceTrees
