import Mathlib.Data.List.Forall2
import Mathlib.Data.List.Nodup
import SourceTrees.Proofs.Tree.Widening

/-!
# Going over a tree

The nodes of a tree are listed with a stack: the top node is listed, and its children take its place.
What comes of it is the recursive order, a node before its children and these from left to right, and
every place of the tree is listed once.

## Protocol

* A **place** is a path of child positions from the root, none of them negative.
* A node is **faulty** if it is an error or a missing token.
* A tree of an engine is **flagged** if each of its nodes has an error exactly when it is faulty or a
  child of it has one.

## Results

* `Node.descends` — the node of every place, in the order of the places.
* `Node.Flagged.hasError_iff` — in a flagged tree the flag of a node tells of the nodes below it.
* `Traversed` and `TellsFaults` — what is said of the walk and of the flags; **`walks_in_order`** — it holds
  of every tree, and of every tree that is made from a flagged one.
-/

set_option autoImplicit false

namespace SourceTrees

namespace Node

/-! ## Places -/

mutual
/-- The places of a tree, each before those below it. -/
def places : Node → List (List Int)
  | mk _ cs => [] :: placesFrom 0 cs

/-- The places of trees that are children of one node, the first of them at the given position. -/
def placesFrom (position : Nat) : List Node → List (List Int)
  | [] => []
  | c :: cs => c.places.map ((position : Int) :: ·) ++ placesFrom (position + 1) cs
end

variable {n c : Node} {cs : List Node} {position : Nat}

theorem place?_natCast (length position : Nat) :
    place? length position = if position < length then some position else none := by
  simp [place?]

/-- The first step of a path goes to a child, the rest of it goes on from there. -/
theorem descendant_cons (h : n.children[position]? = some c) (path : List Int) :
    n.descendant (position :: path) = c.descendant path := by
  obtain ⟨hlt, -⟩ := List.getElem?_eq_some_iff.1 h
  rw [descendant, place?_natCast, if_pos hlt, Option.bind_some, h]

theorem exists_of_descendant_cons {m : Node} {path : List Int} (h : n.descendant (position :: path) = .ok m) :
    ∃ c, n.children[position]? = some c ∧ c.descendant path = .ok m := by
  rw [descendant, place?_natCast] at h
  split at h
  · rename_i child hchild
    split at hchild
    · exact ⟨child, hchild, h⟩
    · cases hchild
  · cases h

mutual
/-- At the places of a tree there are its nodes, in the same order. -/
theorem descends : ∀ n : Node, List.Forall₂ (fun path m => n.descendant path = .ok m) n.places n.preorder
  | mk l cs => .cons (by rw [descendant]) (descends_from cs 0 (mk l cs) rfl)

theorem descends_from : ∀ (cs : List Node) (position : Nat) (n : Node), n.children.drop position = cs →
    List.Forall₂ (fun path m => n.descendant path = .ok m) (placesFrom position cs) (preorderAll cs)
  | [], _, _, _ => .nil
  | c :: cs, position, n, h => by
    have hc : n.children[position]? = some c := by rw [← List.head?_drop, h, List.head?_cons]
    have hcs : n.children.drop (position + 1) = cs := by rw [← List.tail_drop, h, List.tail_cons]
    refine List.rel_append ?_ (descends_from cs (position + 1) n hcs)
    rw [List.forall₂_map_left_iff]
    exact (descends c).imp fun path m hm => (descendant_cons hc path).trans hm
end

/-- A place in a later child begins with a later position. -/
theorem exists_of_mem_placesFrom : ∀ {cs : List Node} {position : Nat} {path : List Int},
    path ∈ placesFrom position cs → ∃ k : Nat, position ≤ k ∧ ∃ rest, path = (k : Int) :: rest
  | c :: cs, position, path, h => by
    rcases List.mem_append.1 h with h | h
    · obtain ⟨rest, -, rfl⟩ := List.mem_map.1 h
      exact ⟨position, Nat.le_refl _, rest, rfl⟩
    · obtain ⟨k, hk, rest, rfl⟩ := exists_of_mem_placesFrom h
      exact ⟨k, Nat.le_of_succ_le hk, rest, rfl⟩

mutual
/-- No place is listed twice. -/
theorem nodup_places : ∀ n : Node, n.places.Nodup
  | mk l cs => by
    refine List.nodup_cons.2 ⟨fun h => ?_, nodup_placesFrom cs 0⟩
    obtain ⟨_, _, _, he⟩ := exists_of_mem_placesFrom h
    cases he

theorem nodup_placesFrom : ∀ (cs : List Node) (position : Nat), (placesFrom position cs).Nodup
  | [], _ => List.nodup_nil
  | c :: cs, position => by
    refine List.nodup_append.2 ⟨(nodup_places c).map fun _ _ h => (List.cons.inj h).2,
      nodup_placesFrom cs (position + 1), fun path h path' h' he => ?_⟩
    obtain ⟨rest, -, rfl⟩ := List.mem_map.1 h
    obtain ⟨k, hk, rest', rfl⟩ := exists_of_mem_placesFrom h'
    have : position = k := Int.ofNat.inj (List.cons.inj he).1
    omega
end

theorem mem_placesFrom {path : List Int} : ∀ (cs : List Node) (position k : Nat), cs[k]? = some c →
    path ∈ c.places → ((position + k : Nat) : Int) :: path ∈ placesFrom position cs
  | c' :: cs, position, 0, h, hp => by
    cases h
    exact List.mem_append_left _ (List.mem_map_of_mem hp)
  | c' :: cs, position, k + 1, h, hp => by
    have hlater := mem_placesFrom cs (position + 1) k h hp
    rw [Nat.add_right_comm] at hlater
    exact List.mem_append_right _ hlater

/-- Every path that leads to a node is a place. -/
theorem mem_places {m : Node} : ∀ {path : List Int} {n : Node}, (∀ i ∈ path, 0 ≤ i) →
    n.descendant path = .ok m → path ∈ n.places
  | [], mk _ _, _, _ => List.mem_cons_self
  | i :: path, mk l cs, hpath, h => by
    obtain ⟨position, rfl⟩ := Int.eq_ofNat_of_zero_le (hpath i List.mem_cons_self)
    obtain ⟨c, hc, hm⟩ := exists_of_descendant_cons h
    have hp := mem_places (fun j hj => hpath j (List.mem_cons_of_mem _ hj)) hm
    have hplace := mem_placesFrom cs 0 position hc hp
    rw [Nat.zero_add] at hplace
    exact List.mem_cons_of_mem _ hplace

/-! ## Flags -/

/-- A node has an error if it is faulty or a child of it has an error, and not otherwise. -/
def FlagOf (n : Node) : Prop :=
  n.label.hasError = (n.isFaulty || n.children.any (·.label.hasError))

instance (n : Node) : Decidable n.FlagOf :=
  inferInstanceAs (Decidable (n.label.hasError = (n.isFaulty || n.children.any (·.label.hasError))))

/-- Every node of the tree has the flag that its own state and its children call for. -/
def Flagged (n : Node) : Prop := ∀ m ∈ n.preorder, m.FlagOf

instance (n : Node) : Decidable n.Flagged := inferInstanceAs (Decidable (∀ m ∈ n.preorder, m.FlagOf))

theorem preorder_eq (n : Node) : n.preorder = n :: preorderAll n.children := by
  rw [← walk_eq_preorder, walk_eq_cons]

mutual
/-- What is below a node that is in the tree is in the tree. -/
theorem preorder_subset : ∀ (n : Node) {m : Node}, m ∈ n.preorder → m.preorder ⊆ n.preorder
  | mk l cs, m, h => by
    rcases List.mem_cons.1 h with rfl | h
    · exact List.Subset.refl _
    · exact List.subset_cons_of_subset _ (preorderAll_subset cs h)

theorem preorderAll_subset : ∀ (cs : List Node) {m : Node}, m ∈ preorderAll cs →
    m.preorder ⊆ preorderAll cs
  | c :: cs, m, h => by
    rcases List.mem_append.1 h with h | h
    · exact List.subset_append_of_subset_left _ (preorder_subset c h)
    · exact List.subset_append_of_subset_right _ (preorderAll_subset cs h)
end

theorem Flagged.below (h : n.Flagged) {m : Node} (hm : m ∈ n.preorder) : m.Flagged :=
  fun _ hx => h _ (preorder_subset n hm hx)

mutual
/-- In a flagged tree a node has an error if there is a faulty node from it down. -/
theorem Flagged.hasError_iff : ∀ {n : Node}, n.Flagged →
    (n.label.hasError = true ↔ ∃ m ∈ n.preorder, m.isFaulty = true)
  | mk l cs, h => by
    have hself : (mk l cs).FlagOf := h _ (mem_preorder_self _)
    have hbelow := any_hasError_iff fun m hm => h m (List.mem_cons_of_mem _ hm)
    rw [hself, Bool.or_eq_true, children_mk, hbelow, preorder]
    simp only [List.mem_cons, exists_eq_or_imp]

theorem any_hasError_iff : ∀ {cs : List Node}, (∀ m ∈ preorderAll cs, m.FlagOf) →
    (cs.any (·.label.hasError) = true ↔ ∃ m ∈ preorderAll cs, m.isFaulty = true)
  | [], _ => by simp [preorderAll]
  | c :: cs, h => by
    have hc : c.Flagged := fun m hm => h m (List.mem_append_left _ hm)
    have hcs := any_hasError_iff fun m hm => h m (List.mem_append_right _ hm)
    rw [List.any_cons, Bool.or_eq_true, hc.hasError_iff, hcs, preorderAll]
    simp only [List.mem_append, or_and_right, exists_or]
end

/-- Another label with the same flags leaves a tree flagged. -/
theorem Flagged.withLabel (h : n.Flagged) {l : Label} (hflag : l.hasError = n.label.hasError)
    (herror : l.isError = n.label.isError) (hmissing : l.isMissing = n.label.isMissing) :
    (n.withLabel l).Flagged := by
  intro m hm
  rw [preorder_eq] at hm
  rcases List.mem_cons.1 hm with rfl | hm
  · have hn : n.FlagOf := h n (mem_preorder_self n)
    show l.hasError = ((l.isError || l.isMissing) || n.children.any (·.label.hasError))
    rw [hflag, herror, hmissing]
    exact hn
  · refine h m ?_
    rw [preorder_eq]
    exact List.mem_cons_of_mem _ hm

end Node

/-! ## The laws -/

/-- The walk over a tree and what is found by it. -/
structure Traversed (t : Tree) : Prop where
  /-- The nodes come in the recursive order. -/
  walk : t.walk = t.root.preorder
  /-- They are the nodes of the places of the tree, in their order. -/
  placed : List.Forall₂ (fun path n => t.root.descendant path = .ok n) t.root.places t.walk
  /-- No place is visited twice. -/
  once : t.root.places.Nodup
  /-- No place is left out. -/
  complete : ∀ {path n}, (∀ i ∈ path, 0 ≤ i) → t.root.descendant path = .ok n → path ∈ t.root.places
  /-- A search gives the nodes of the kind, in their order. -/
  found : ∀ kind, t.findAll kind = t.root.preorder.filter fun n => n.label.kind = kind
  /-- The error nodes are the errors and the missing tokens, in their order. -/
  faulty : t.errorNodes = t.root.preorder.filter fun n => n.label.isError || n.label.isMissing

/-- The flags of a tree tell where there are faulty nodes. -/
structure TellsFaults (t : Tree) : Prop where
  tree : t.hasError = true ↔ t.errorNodes ≠ []
  node : ∀ n ∈ t.walk, n.label.hasError = true ↔ ∃ m ∈ n.walk, m.label.isError ∨ m.label.isMissing

theorem Tree.mem_errorNodes {t : Tree} {n : Node} : n ∈ t.errorNodes ↔ n ∈ t.walk ∧ n.isFaulty = true :=
  List.mem_filter

/-- The tree made from a flagged tree of an engine is flagged. -/
theorem Node.Flagged.ofEngine {root : Node} (h : root.Flagged) (language : String) (source : List UInt8) :
    (Tree.ofEngine language source root).root.Flagged := by
  have hroot : (Tree.ofEngine language source root).root = widen source (copyRoot root) := by
    rw [Tree.ofEngine, freeze_eq_copyUnder, copyUnder_none]
  have hcopy : (copyRoot root).Flagged := h.withLabel rfl rfl rfl
  rw [hroot]
  exact hcopy.withLabel rfl rfl rfl

theorem Node.Flagged.tellsFaults {t : Tree} (h : t.root.Flagged) : TellsFaults t := by
  have hnode : ∀ n ∈ t.walk, n.label.hasError = true ↔ ∃ m ∈ n.walk, m.isFaulty = true := by
    intro n hn
    rw [Tree.walk, Node.walk_eq_preorder] at hn
    rw [(h.below hn).hasError_iff, Node.walk_eq_preorder]
  refine ⟨?_, fun n hn => (hnode n hn).trans (by simp only [Node.isFaulty, Bool.or_eq_true])⟩
  have hself : t.root ∈ t.walk := by
    rw [Tree.walk, Node.walk_eq_preorder]
    exact Node.mem_preorder_self _
  rw [Tree.hasError, hnode t.root hself, List.ne_nil_iff_exists_cons]
  constructor
  · rintro ⟨m, hm, hfaulty⟩
    have hmem : m ∈ t.errorNodes := Tree.mem_errorNodes.2 ⟨hm, hfaulty⟩
    exact List.exists_cons_of_ne_nil (List.ne_nil_of_mem hmem)
  · rintro ⟨m, rest, he⟩
    obtain ⟨hm, hfaulty⟩ := Tree.mem_errorNodes.1 (he ▸ List.mem_cons_self)
    exact ⟨m, hm, hfaulty⟩

/-- **The walk goes over every tree in the recursive order, and the flags that an engine sets from the
    leaves up tell what it meets.** -/
theorem walks_in_order : (∀ t : Tree, Traversed t) ∧
    ∀ (language : String) (source : List UInt8) (root : Node), root.Flagged →
      TellsFaults (.ofEngine language source root) := by
  refine ⟨fun t => ?_, fun language source root h => (h.ofEngine language source).tellsFaults⟩
  have hwalk : t.walk = t.root.preorder := t.root.walk_eq_preorder
  refine ⟨hwalk, hwalk ▸ t.root.descends, t.root.nodup_places, Node.mem_places, fun kind => ?_, ?_⟩
  · rw [Tree.findAll, hwalk]
    exact List.filter_congr fun n _ => (beq_eq_decide ..)
  · rw [Tree.errorNodes, hwalk]
    rfl

/-- A call whose closing bracket is missing, beside a sound name. -/
def openCall : Node :=
  .mk ⟨"module", 0, 6, ⟨0, 0⟩, ⟨0, 6⟩, true, false, false, true, none⟩
    [.mk ⟨"name", 0, 1, ⟨0, 0⟩, ⟨0, 1⟩, true, false, false, false, none⟩ [],
     .mk ⟨"call", 2, 6, ⟨0, 2⟩, ⟨0, 6⟩, true, false, false, true, none⟩
      [.mk ⟨"name", 2, 4, ⟨0, 2⟩, ⟨0, 4⟩, true, false, false, false, some "function"⟩ [],
       .mk ⟨")", 6, 6, ⟨0, 6⟩, ⟨0, 6⟩, false, false, true, true, none⟩ []]]

/-- The missing bracket is the one error node; the tree and the call above it tell of it. -/
theorem walks_in_order_openCall :
    openCall.Flagged ∧ TellsFaults (.ofEngine "python" (Text.Utf8.encode "a f(b ") openCall) ∧
      (Tree.ofEngine "python" (Text.Utf8.encode "a f(b ") openCall).hasError = true := by
  have hflagged : openCall.Flagged := by decide +kernel
  have htells := walks_in_order.2 "python" (Text.Utf8.encode "a f(b ") openCall hflagged
  refine ⟨hflagged, htells, htells.tree.2 ?_⟩
  have herrors := (walks_in_order.1 (.ofEngine "python" (Text.Utf8.encode "a f(b ") openCall)).faulty
  rw [herrors, Tree.ofEngine, freeze_eq_copyUnder]
  decide +kernel

end SourceTrees
