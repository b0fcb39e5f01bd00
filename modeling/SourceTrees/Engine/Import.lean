import SourceTrees.Engine.World
import SourceTrees.Language.Locator

/-!
# Importing modules

A module with a dotted name lies in the module named by what stands before the last dot, which is
imported first.  Once imported it is a member of that module, under what stands after the last dot.

## Results

* `Attempt.importModule` — importing a module and the ones it lies in.
* `Attempt.isAvailable` — whether the module of a locator would be found, without importing it.
  The modules that it lies in have to be imported for that.
-/

set_option autoImplicit false

namespace SourceTrees

namespace Module

/-- The names of the modules that a module lies in, outermost first, and its own. -/
def chain (name : String) : List String :=
  let step (acc : List (List Char) × List Char) (c : Char) : List (List Char) × List Char :=
    (if c = '.' then acc.2 :: acc.1 else acc.1, c :: acc.2)
  let (outer, whole) := name.toList.foldl step ([], [])
  (whole :: outer).reverse.map fun cs => String.ofList cs.reverse

/-- The name of the module that a module lies in. -/
def parent? (name : String) : Option String := (chain name).dropLast.getLast?

/-- What stands after the last dot of a module's name. -/
def ownName (name : String) : String :=
  String.ofList (name.toList.reverse.takeWhile (· ≠ '.')).reverse

end Module

namespace World

/-- The fault of a module that is not there. -/
def missing (w : World) (name : String) : Fault :=
  let text := "No module named " ++ Text.quoted name
  match Module.parent? name with
  | some outer =>
    if w.isPackage outer then .plain .moduleMissing text
    else .plain .moduleMissing (text ++ "; " ++ Text.quoted outer ++ " is not a package")
  | none => .plain .moduleMissing text

/-- A module that has been imported becomes a member of the one that it lies in, in the place of
    whatever went by that name there. -/
def place (w : World) (name : String) : World :=
  match Module.parent? name with
  | some outer => w.setMember outer (Module.ownName name) (.inner name)
  | none => w

end World

namespace Attempt

/-- Imports one module, those that it lies in being imported. -/
def importOne (name : String) : Attempt Unit := do
  let w ← get
  match w.modules.get? name with
  | none => throw (w.missing name)
  | some m =>
    if m.isImported then return
    let (outcome, imports) := m.imports.next none
    let imported := { m with imports, isImported := outcome.isNone }
    set { w.note (.imported name) with modules := w.modules.put name imported }
    match outcome with
    | some f => throw f
    | none => modify fun w : World => w.place name

/-- Imports a module and those that it lies in. -/
def importModule (name : String) : Attempt Unit := do
  if name.isEmpty then throw (.plain .value "Empty module name")
  if name.startsWith "." then
    throw (.plain .type
      ("the 'package' argument is required to perform a relative import for " ++ Text.quoted name))
  (Module.chain name).forM importOne

/-- Would the module be found?  What it lies in is imported. -/
def isFound (name : String) : Attempt Bool := do
  if name.startsWith "." then throw (.plain .importFailed "no package to import from")
  match (← get).modules.get? name with
  | some m =>
    if m.isImported then return true
  | none => pure ()
  match Module.parent? name with
  | none => return (← get).modules.contains name
  | some outer => do
    importModule outer
    return (← get).modules.contains name

/-- Is the module of a locator available?  A malformed locator and one whose module cannot be found
    are not; other faults on the way are passed on. -/
def isAvailable (locator : String) : Attempt Bool :=
  match Language.Locator.parse? locator with
  | none => return false
  | some l =>
    tryCatch (isFound l.moduleName) fun f =>
      if f.kind.isImport || f.kind = .value then return false else throw f

end Attempt

end SourceTrees
