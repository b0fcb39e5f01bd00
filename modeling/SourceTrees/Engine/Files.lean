import SourceTrees.Engine.World
import SourceTrees.Text.Pieces

/-!
# Files of a world

A path leads from the working directory to a file, one step for each piece between slashes.  Empty
pieces and single dots are no steps; two dots lead back.  Every step but the last starts from a
directory that is there, and a path whose last piece is no step means a directory.

* `World.file?` finds what a path leads to; nothing lies outside the working directory.
* `World.fileSize?` and `World.readFile` look at it and read it.
-/

set_option autoImplicit false

namespace SourceTrees

/-- The way to a place below the working directory, the name of the place last. -/
abbrev Route := List (List Char)

namespace Route

/-- The step back. -/
def back : List Char := ['.', '.']

/-- Is the piece a step at all? -/
def isStep (piece : List Char) : Bool := piece ≠ [] && piece ≠ ['.']

/-- The pieces of a path. -/
def pieces (path : String) : List (List Char) := splitAtChar '/' path.toList

/-- The steps of a path. -/
def ofPath (path : String) : Route := (pieces path).filter isStep

/-- Does the path lead to a place by its name?  One that ends in a slash, a dot or two dots leads
    to a directory, and one that begins with a slash leaves the working directory. -/
def isNamed (path : String) : Bool :=
  match pieces path with
  | [] => false
  | first :: rest =>
    let last := rest.getLast?.getD first
    isStep last && last ≠ back && (first ≠ [] || rest.isEmpty)

/-- Follows steps from a place; each must start from a directory. -/
def follow (isDirectory : Route → Bool) (here : Route) : Route → Option Route
  | [] => some here
  | step :: rest =>
    if !isDirectory here then none
    else if step = back then
      if here.isEmpty then none else follow isDirectory here.dropLast rest
    else follow isDirectory (here ++ [step]) rest

/-- Steps ahead through directories lead where they say. -/
theorem follow_ahead {isDirectory : Route → Bool} {here steps : Route}
    (ahead : back ∉ steps)
    (standing : ∀ n < steps.length, isDirectory (here ++ steps.take n) = true) :
    follow isDirectory here steps = some (here ++ steps) := by
  induction steps generalizing here with
  | nil => simp [follow]
  | cons step rest ih =>
    have h0 : isDirectory here = true := by simpa using standing 0 (by simp)
    have hs : step ≠ back := fun h => ahead (h ▸ List.mem_cons_self)
    simp only [follow, h0, hs]
    rw [if_neg (by simp), if_neg (by simp)]
    rw [ih (fun h => ahead (List.mem_cons_of_mem _ h))]
    · simp
    · intro n hn
      have := standing (n + 1) (by simpa using hn)
      simpa using this

end Route

namespace World

/-- Is there a directory at the place?  One is wherever a file lies below. -/
def isDirectory (w : World) (place : Route) : Bool :=
  place.isEmpty || w.files.entries.any fun e =>
    let there := Route.ofPath e.1
    (place.isPrefixOf there && there.length ≠ place.length) ||
      (there = place && match e.2 with | .directory => true | _ => false)

/-- What a path leads to. -/
def file? (w : World) (path : String) : Option File :=
  if Route.isNamed path then
    (Route.follow w.isDirectory [] (Route.ofPath path)).bind fun place =>
      (w.files.entries.find? fun e => Route.ofPath e.1 = place).map (·.2)
  else none

/-- The size of a file in bytes, if the path leads to one. -/
def fileSize? (w : World) (path : String) : Option Nat :=
  match w.file? path with
  | some (.bytes content) => some content.length
  | some (.zeros length) => some length
  | some (.unreadable _) => some 1
  | _ => none

/-- The bytes of a file. -/
def readFile (w : World) (path : String) : Except Fault (List UInt8) :=
  match w.file? path with
  | some (.bytes content) => .ok content
  | some (.zeros length) => .ok (List.replicate length 0)
  | some (.unreadable f) => .error f
  | _ => .error (.plain .fileMissing ("No such file or directory: " ++ Text.quoted path))

end World

end SourceTrees
