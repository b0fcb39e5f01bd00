import SourceTrees.Tree.Node

/-!
# Where a source ends

The position just after the last byte of a source: its row is the number of newlines, its column the
number of bytes after the last of them.

* `endPoint` counts newlines and looks back to the last one; `scanPoint` goes over the bytes once
  and keeps row and column.
* `endPoint_eq_scanPoint` — both give the same position.
-/

set_option autoImplicit false

namespace SourceTrees

/-- The byte that ends a row. -/
def newlineByte : UInt8 := 10

/-- The position after the last byte. -/
def endPoint (source : List UInt8) : Point :=
  ⟨source.count newlineByte, (source.reverse.takeWhile (· != newlineByte)).length⟩

/-- The position after one more byte. -/
def Point.after (p : Point) (b : UInt8) : Point :=
  if b = newlineByte then ⟨p.row + 1, 0⟩ else ⟨p.row, p.column + 1⟩

/-- The position after all bytes, found by going over them. -/
def scanPoint (source : List UInt8) : Point := source.foldl Point.after ⟨0, 0⟩

theorem endPoint_append (source : List UInt8) (b : UInt8) :
    endPoint (source ++ [b]) = (endPoint source).after b := by
  by_cases h : b = newlineByte
  · simp [endPoint, Point.after, h, List.count_append]
  · simp [endPoint, Point.after, h, List.count_append]

/-- Counting and scanning agree. -/
theorem endPoint_eq_scanPoint (source : List UInt8) : endPoint source = scanPoint source := by
  suffices h : ∀ (rest done : List UInt8),
      endPoint (done ++ rest) = rest.foldl Point.after (endPoint done) from h source []
  intro rest
  induction rest with
  | nil => intro done; simp
  | cons b rest ih =>
    intro done
    rw [List.foldl_cons, ← endPoint_append, ← ih]
    simp

end SourceTrees
