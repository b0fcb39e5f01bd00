import SourceTrees.Fault
import SourceTrees.Keyed
import SourceTrees.Tree.Node

/-!
# The world of engines and grammars

Engine and grammars come from modules that the configuration names.  A world says what these modules
hold and how they behave: every outcome is taken from a script, so that a world is a value and every
run in it can be repeated.

## Protocol

* A **script** is a list of outcomes; one is used up at every call, and the last one stays.
* A **module** is imported once: an import that fails leaves it out, so that the next import tries
  again.  Its **members** are functions that yield a pointer to a grammar, plain values, the imported
  modules that lie in it, and for an engine its grammar compiler and its parser maker.  A few values
  every module has besides, such as its name.
* A **grammar** is known by a number and was compiled from a pointer; no number stands for the null
  grammar.  A **parser** is known by a number and bound to a grammar.
* Everything that happens is noted as an event.
-/

set_option autoImplicit false

namespace SourceTrees

/-- Outcomes to be used one after the other, the last one for ever. -/
structure Script (α : Type) where
  outcomes : List α
  deriving Inhabited

/-- The next outcome, a default if there never was one, and the script after it. -/
def Script.next {α : Type} (s : Script α) (default : α) : α × Script α :=
  match s.outcomes with
  | [] => (default, s)
  | [o] => (o, s)
  | o :: rest => (o, ⟨rest⟩)

/-- A compiled grammar by its number; the null grammar has none. -/
abbrev Grammar := Option Nat

/-- How a grammar compiler answers. -/
inductive CompileOutcome where
  | grammar
  | null
  | fault (f : Fault)
  deriving Inhabited

/-- How a parser maker answers: a parser, a fault, or that it takes no grammar.  In the last case the
    parser is made without one, which may fail, and the grammar is set afterwards, which may fail. -/
inductive BindOutcome where
  | parser
  | fault (f : Fault)
  | bare (making setting : Option Fault)
  deriving Inhabited

/-- The fault of making a bare parser. -/
def BindOutcome.making? : BindOutcome → Option Fault
  | bare making _ => making
  | _ => none

/-- The fault of setting a bare parser's language. -/
def BindOutcome.setting? : BindOutcome → Option Fault
  | bare _ setting => setting
  | _ => none

/-- How a parser answers: a tree, no tree, or a fault. -/
inductive ParseOutcome where
  | tree (root : Node)
  | none
  | fault (f : Fault)
  deriving Inhabited

/-- What a module holds under a name. -/
inductive Member where
  | pointer (p : Json)
  | raising (f : Fault)
  | value (v : Json)
  | inner (name : String)
  | compiler (script : Script CompileOutcome)
  | maker (script : Script BindOutcome) (last : BindOutcome)
  deriving Inhabited

/-- A module: the outcomes of importing it, `none` for success, and its members. -/
structure Module where
  imports : Script (Option Fault) := ⟨[]⟩
  members : Keyed String Member := .empty
  isImported : Bool := false
  deriving Inhabited

/-- What happens in a world. -/
inductive Event where
  | imported (name : String)
  | pointer (name : String)
  | compiled (pointer : Json)
  | bound (grammar : Grammar)
  | made
  | languageSet (grammar : Grammar)
  | parsed (parser bytes : Nat)
  | leased (holder : String) (parser : Nat)
  deriving Inhabited, BEq

/-- What is found under a path.  A file of zeros is known by its length. -/
inductive File where
  | bytes (content : List UInt8)
  | zeros (length : Nat)
  | directory
  | unreadable (f : Fault)
  deriving Inhabited

/-- A world: its modules, what parsers answer to a source, the grammars and parsers made so far, and
    the events not yet told.  Grammars and parsers are numbered from one. -/
structure World where
  modules : Keyed String Module := .empty
  parses : Keyed (List UInt8) (Script ParseOutcome) := .empty
  files : Keyed String File := .empty
  pointers : List Json := []
  parsers : List Grammar := []
  events : List Event := []
  deriving Inhabited

namespace World

/-- Notes an event. -/
def note (w : World) (e : Event) : World := { w with events := w.events ++ [e] }

/-- The pointer that a grammar was compiled from; null for the null grammar. -/
def pointerOf (w : World) : Grammar → Json
  | some n => w.pointers[n - 1]?.getD .null
  | none => .null

/-- The grammar that a parser is bound to. -/
def grammarOf (w : World) (parser : Nat) : Grammar := (w.parsers[parser - 1]?).getD none

/-- Changes a member of a module. -/
def setMember (w : World) (owner name : String) (m : Member) : World :=
  { w with modules :=
      w.modules.adjust owner fun old => { old with members := old.members.put name m } }

/-- Does any module lie in the named one? -/
def isPackage (w : World) (name : String) : Bool :=
  w.modules.keys.any fun k => (name ++ ".").isPrefixOf k

/-- What a module has under a name without its doing. -/
def commonMember? (w : World) (owner : String) : String → Option Member
  | "__name__" | "__package__" => some (.value (.str owner))
  | "__doc__" => some (.value .null)
  | "__dict__" => some (.value (.obj []))
  | "__path__" => if w.isPackage owner then some (.value (.arr [])) else none
  | _ => none

/-- The member of a module. -/
def member? (w : World) (owner name : String) : Option Member :=
  (w.modules.get? owner).bind fun m => (m.members.get? name).or (w.commonMember? owner name)

end World

/-- Something tried in a world: it may fail, and the world has changed either way. -/
abbrev Attempt (α : Type) := ExceptT Fault (StateM World) α

end SourceTrees
