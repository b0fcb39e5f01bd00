import SourceTrees.Engine.Import

/-!
# Engines at work

What an engine does on behalf of the service, each as an attempt in the world.

## Results

* `Attempt.loadEngine` — imports an engine and sees that it has a compiler and a parser maker.
* `Attempt.fetchGrammar` — imports the module of a locator, calls the function that yields the
  pointer, and compiles the grammar.
* `Attempt.bindParser` — makes a parser for a grammar.  A maker that takes no grammar makes a bare
  parser, whose language is set afterwards.  Any other function in the maker's place takes no grammar
  either, and what it gives has no language to set.
* `Attempt.parse` — runs a parser over a source.
-/

set_option autoImplicit false

namespace SourceTrees

/-- The name of an engine's parser maker. -/
def makerName : String := "Parser"

/-- The name of an engine's grammar compiler. -/
def compilerName : String := "Language"

/-- What every engine provides. -/
def engineParts : List String := [makerName, compilerName]

namespace World

/-- The parts that a module lacks to be an engine. -/
def missingParts (w : World) (engine : String) : List String :=
  engineParts.filter fun part => (w.member? engine part).isNone

/-- The version that an engine states for its grammars. -/
def versionText (w : World) (engine : String) : String :=
  match w.member? engine "LANGUAGE_VERSION" with
  | some (.value v) => v.display
  | _ => "unknown"

/-- A new grammar compiled from a pointer. -/
def addGrammar (w : World) (pointer : Json) : Grammar × World :=
  (some (w.pointers.length + 1), { w with pointers := w.pointers ++ [pointer] })

/-- A new parser bound to a grammar. -/
def addParser (w : World) (g : Grammar) : Nat × World :=
  (w.parsers.length + 1, { w with parsers := w.parsers ++ [g] })

/-- A parser is bound to another grammar. -/
def rebind (w : World) (parser : Nat) (g : Grammar) : World :=
  { w with parsers := w.parsers.set (parser - 1) g }

/-- The tree that parsers give for a source on which nothing is said: one node over all of it. -/
def plainTree (w : World) (parser : Nat) (source : List UInt8) : Node :=
  let pointer := w.pointerOf (w.grammarOf parser)
  .mk
    { kind := "root:" ++ pointer.display
      startByte := 0
      endByte := source.length
      startPoint := ⟨0, 0⟩
      endPoint := ⟨0, source.length⟩ } []

end World

/-- The fault of calling something that is no function, given what it is called in messages. -/
def Fault.notCallable (thing : String) : Fault :=
  .plain .type ("'" ++ thing ++ "' object is not callable")

/-- The fault of a function that is given other arguments than it takes. -/
def Fault.wrongArguments (name : String) : Fault :=
  .plain .type (name ++ "() got an unexpected number of arguments")

/-- The fault of looking for something that a value does not have. -/
def Fault.noAttribute (v : Json) (name : String) : Fault :=
  .plain .missingName ("'" ++ v.typeName ++ "' object has no attribute '" ++ name ++ "'")

/-- The fault of calling a member that cannot be called in this way. -/
def Member.callFault (name : String) : Member → Fault
  | .value v => .notCallable v.typeName
  | .inner _ => .notCallable "module"
  | _ => .wrongArguments name

namespace Attempt

/-- Notes an event. -/
def note (e : Event) : Attempt Unit := modify fun w : World => w.note e

/-- Imports an engine and checks that it is one. -/
def loadEngine (name : String) : Attempt Unit := do
  importModule name
  let missing := (← get).missingParts name
  unless missing.isEmpty do throw (.incomplete name missing)

/-- Calls a member of a module without arguments. -/
def callMember (owner name : String) (m : Member) : Attempt Json := do
  match m with
  | .pointer p => do
    note (.pointer (owner ++ ":" ++ name))
    return p
  | .raising f => do
    note (.pointer (owner ++ ":" ++ name))
    throw f
  | m => throw (m.callFault name)

/-- Calls the function that yields the pointer to a grammar. -/
def callPointer (l : Language.Locator) : Attempt Json := do
  match (← get).member? l.moduleName l.entry with
  | none =>
    throw (.plain .missingName
      ("module '" ++ l.moduleName ++ "' has no attribute '" ++ l.entry ++ "'"))
  | some m => callMember l.moduleName l.entry m

/-- Has an engine compile a grammar. -/
def compile (engine : String) (pointer : Json) : Attempt Grammar := do
  match (← get).member? engine compilerName with
  | some (.compiler script) => do
    let (outcome, script) := script.next .grammar
    modify fun w : World => (w.setMember engine compilerName (.compiler script)).note (.compiled pointer)
    match outcome with
    | .grammar => modifyGet fun w : World => w.addGrammar pointer
    | .null => return none
    | .fault f => throw f
  | some m => throw (m.callFault compilerName)
  | none => throw (.wrongArguments compilerName)

/-- Fetches and compiles the grammar that a locator names. -/
def fetchGrammar (engine locator : String) : Attempt Grammar := do
  match Language.Locator.parse? locator with
  | none => throw (.plain .value (Language.Locator.malformed locator))
  | some l => do
    importModule l.moduleName
    let pointer ← callPointer l
    compile engine pointer

/-- Has an engine make a parser for a grammar; refused by a maker that takes none. -/
def makeBound (engine : String) (g : Grammar) : Attempt Nat := do
  match (← get).member? engine makerName with
  | some (.maker script _) => do
    let (outcome, script) := script.next .parser
    modify fun w : World => (w.setMember engine makerName (.maker script outcome)).note (.bound g)
    match outcome with
    | .parser => modifyGet fun w : World => w.addParser g
    | .fault f => throw f
    | .bare .. => throw (.plain .type "Parser() takes no arguments")
  | some m => throw (m.callFault makerName)
  | none => throw (.wrongArguments makerName)

/-- Has an engine make a bare parser and sets its language. -/
def makeBare (engine : String) (g : Grammar) : Attempt Nat := do
  match (← get).member? engine makerName with
  | some (.maker _ last) => do
    note .made
    if let some f := last.making? then throw f
    let parser ← modifyGet fun w : World => w.addParser none
    note (.languageSet g)
    if let some f := last.setting? then throw f
    modify fun w : World => w.rebind parser g
    return parser
  | some m => do
    let made ← callMember engine makerName m
    throw (.noAttribute made "language")
  | none => throw (.wrongArguments makerName)

/-- Makes a parser for a grammar. -/
def bindParser (engine : String) (g : Grammar) : Attempt Nat :=
  tryCatch (makeBound engine g) fun f => if f.kind = .type then makeBare engine g else throw f

/-- Runs a parser over a source. -/
def parse (parser : Nat) (source : List UInt8) : Attempt (Option Node) := do
  note (.parsed parser source.length)
  let w ← get
  match w.parses.get? source with
  | none => return some (w.plainTree parser source)
  | some script => do
    let (outcome, script) := script.next .none
    set { w with parses := w.parses.put source script }
    match outcome with
    | .tree root => return some root
    | .none => return none
    | .fault f => throw f

end Attempt

end SourceTrees
