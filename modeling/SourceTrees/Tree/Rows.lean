import SourceTrees.Tree.Node

/-!
# Trees as rows

A tree written line by line: every node in pre-order with its depth.  Depths and labels together
determine the tree.

* `Node.rows` writes a tree, `Node.ofRows?` reads one, and `ofRows?_rows` says that reading gives
  back what was written.
-/

set_option autoImplicit false

namespace SourceTrees

/-- A line of the listing: the depth and the label of a node. -/
abbrev Row := Nat × Label

namespace Node

mutual
/-- The rows of a tree whose root has the given depth. -/
def rowsAt (depth : Nat) : Node → List Row
  | mk l cs => (depth, l) :: rowsAllAt (depth + 1) cs

/-- The rows of several trees at one depth. -/
def rowsAllAt (depth : Nat) : List Node → List Row
  | [] => []
  | n :: ns => rowsAt depth n ++ rowsAllAt depth ns
end

/-- The rows of a tree, its root at depth zero. -/
def rows (n : Node) : List Row := n.rowsAt 0

/-- Puts a row in front of the trees read after it: those that lie deeper become its children. -/
def gather (row : Row) (later : List (Nat × Node)) : List (Nat × Node) :=
  let deeper := later.takeWhile fun t => decide (row.1 < t.1)
  (row.1, mk row.2 (deeper.map Prod.snd)) :: later.dropWhile fun t => decide (row.1 < t.1)

/-- The trees that rows spell, each with its depth. -/
def forest (rows : List Row) : List (Nat × Node) := rows.foldr gather []

/-- The first tree that rows spell. -/
def ofRows? (rows : List Row) : Option Node := (forest rows).head?.map Prod.snd

/-! ## Reading gives back what was written -/

/-- No tree of the list lies deeper than the given depth. -/
def Shallow (depth : Nat) (ts : List (Nat × Node)) : Prop := ∀ t ∈ ts.head?, t.1 ≤ depth

theorem gather_forest {depth : Nat} {l : Label} {cs : List Node} {later : List (Nat × Node)}
    (h : Shallow depth later) :
    gather (depth, l) (cs.map (depth + 1, ·) ++ later) = (depth, mk l cs) :: later := by
  have stop : later.takeWhile (fun t => decide (depth < t.1)) = [] ∧
      later.dropWhile (fun t => decide (depth < t.1)) = later := by
    cases later with
    | nil => exact ⟨rfl, rfl⟩
    | cons t ts =>
      have : ¬ depth < t.1 := Nat.not_lt.2 (h t rfl)
      simp [this]
  have pass : ∀ t ∈ cs.map (fun c => (depth + 1, c)), decide (depth < t.1) = true := by
    intro t ht
    obtain ⟨c, _, rfl⟩ := List.mem_map.1 ht
    simp
  simp only [gather, List.takeWhile_append_of_pos pass, List.dropWhile_append_of_pos pass, stop.1,
    stop.2, List.append_nil, List.map_map]
  rw [show cs.map (Prod.snd ∘ fun x => (depth + 1, x)) = cs from List.map_id cs]

mutual
theorem forest_rowsAt : ∀ (depth : Nat) (n : Node) (after : List (Nat × Node)),
    Shallow depth after → (rowsAt depth n).foldr gather after = (depth, n) :: after
  | depth, mk l cs, after, h => by
    have h' : Shallow (depth + 1) after := fun t ht => Nat.le_succ_of_le (h t ht)
    rw [rowsAt, List.foldr_cons, forest_rowsAllAt (depth + 1) cs after h', gather_forest h]

theorem forest_rowsAllAt : ∀ (depth : Nat) (ns : List Node) (after : List (Nat × Node)),
    Shallow depth after →
      (rowsAllAt depth ns).foldr gather after = ns.map (depth, ·) ++ after
  | _, [], after, _ => rfl
  | depth, n :: ns, after, h => by
    rw [rowsAllAt, List.foldr_append, forest_rowsAllAt depth ns after h,
      forest_rowsAt depth n _ ?_]
    · rfl
    · cases ns with
      | nil => exact h
      | cons m ms => simp [Shallow]
end

/-- Reading gives back the tree that was written. -/
theorem ofRows?_rows (n : Node) : ofRows? n.rows = some n := by
  have : forest n.rows = [(0, n)] := forest_rowsAt 0 n [] (by simp [Shallow])
  simp [ofRows?, this]

end Node

end SourceTrees
