/-!
# Sets of characters given by ranges

A property of characters that a standard fixes by listing is kept as a table of closed ranges of
code points, in ascending order.  The table modules hold data only; what a table is for is said
where it is used.

* `Ranges.contains` decides membership by comparing with the ends of each range.
-/

set_option autoImplicit false

namespace SourceTrees.Text

/-- A set of code points: closed ranges, first and last point, in ascending order. -/
abbrev Ranges := Array (Nat × Nat)

/-- Is the code point in one of the ranges? -/
def Ranges.contains (table : Ranges) (point : Nat) : Bool :=
  table.any fun range => decide (range.1 ≤ point) && decide (point ≤ range.2)

theorem Ranges.contains_iff {table : Ranges} {point : Nat} :
    table.contains point = true ↔ ∃ range ∈ table, range.1 ≤ point ∧ point ≤ range.2 := by
  rw [Ranges.contains, Array.any_eq_true']
  simp only [Bool.and_eq_true, decide_eq_true_eq]

end SourceTrees.Text
