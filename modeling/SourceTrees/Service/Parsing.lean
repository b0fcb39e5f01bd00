import SourceTrees.Language.Detection
import SourceTrees.Service.Pool

/-!
# Parsing

A parse turns code into a syntax tree.

## Protocol

1. The language must have a locator and the code must be text or bytes.  Nothing is touched before.
2. The engine is booted if it is not ready.
3. The language's parser is borrowed; the workers run it over the source.
4. The parser is given back when its job has ended.  A cancellation that comes while the job is at
   work is kept until then, however often it is repeated, and ends the parse.
5. A job that fails or gives no tree fails the parse.  Otherwise the workers copy the tree.

The workers that parse and copy are those that the service holds at step 2.

## Results

* `Parsing.request`, `Parsing.resume` — a parse.
-/

set_option autoImplicit false

namespace SourceTrees

/-- The bytes of code: text as UTF-8, bytes as they are. -/
def Code.toSource : Code → Except Fault (List UInt8)
  | text s => .ok (Text.Utf8.encode s)
  | bytes b => .ok b
  | other v => .error (.notSource v)

namespace Parsing

open Work

/-- Counts a failed parse. -/
def countFailure : Work Unit :=
  count fun c => { c with parses := { c.parses with failures := c.parses.failures + 1 } }

/-- The parser has given a tree: it is copied. -/
def copy (language : String) (source : List UInt8) (crew : Crew) (root : Node) :
    Work (Turn ParseStage Tree) := do
  match ← submit crew (.copy language source root) with
  | .ok p => restOn p (.copying language)
  | .error f => fail f

/-- The job has ended with what the parser gave. -/
def parsed (language : String) (source : List UInt8) (crew : Crew) (root : Option Node) :
    Work (Turn ParseStage Tree) := do
  Pool.release language
  match root with
  | some root => copy language source crew root
  | none => do
    countFailure
    fail (.noTree language)

/-- The parser has raised a fault. -/
def raised (language : String) (f : Fault) : Work (Turn ParseStage Tree) := do
  countFailure
  log (.error ("Parser raised while parsing " ++ language ++ " source: " ++ f.message))
  Pool.release language
  fail (.parserRaised language f)

/-- Waits the job out; then the parse ends in its cancellation. -/
def drain (language : String) (job : PromiseId) (cancellation : Fault) :
    Work (Turn ParseStage Tree) := do
  if (← get).loop.isPending job then do
    let w ← onLoop (·.waiter job)
    restOn w (.draining language job w cancellation)
  else do
    Pool.release language
    fail cancellation

/-- The lease has been granted or refused. -/
def leased (language : String) (source : List UInt8) (crew : Crew) (result : Except Fault Nat) :
    Work (Turn ParseStage Tree) := do
  match result with
  | .error f => fail f
  | .ok parser =>
    match ← submit crew (.parse parser source) with
    | .error f => do
      Pool.release language
      fail f
    | .ok job => do
      let shield ← onLoop (·.shield job)
      restOn shield (.running language source crew job)

/-- Borrows the parser, the engine being ready. -/
def borrow (language : String) (source : List UInt8) : Work (Turn ParseStage Tree) := do
  let crew := (← get).parseCrew
  andThen (← Pool.lease (.str language)) (.leasing language source crew) (leased language source crew)

/-- Asks for the tree of some code. -/
def request (code : Code) (language : Json) : Work (Turn ParseStage Tree) := do
  match (← get).validate language, code.toSource with
  | .error f, _ => fail f
  | .ok _, .error f => fail f
  | .ok language, .ok source =>
    match ← Boot.attach with
    | some p => restOn p (.booting language source)
    | none => borrow language source

/-- Continues a parse. -/
def resume (stage : ParseStage) (given : Except Fault Reply) : Work (Turn ParseStage Tree) :=
  match stage, given with
  | .booting _ _, .error f => fail f
  | .booting language source, .ok _ => borrow language source
  | .leasing language source crew stage, given => do
    andThen (← Pool.resumeLease stage given) (.leasing language source crew)
      (leased language source crew)
  | .running language source crew _, .ok r => parsed language source crew r.toEngineTree
  | .running language _ _ job, .error f =>
    if f.kind = .cancelled then drain language job f
    else if f.kind.isOrdinary then raised language f
    else do
      Pool.release language
      fail f
  | .draining language job waiter cancellation, _ => do
    changeLoop (·.unsubscribe job (.signal waiter))
    drain language job cancellation
  | .copying _, .error f => fail f
  | .copying _, .ok r =>
    match r with
    | .tree t => do
      count fun c => { c with parses := { c.parses with built := c.parses.built + 1 } }
      done t
    | _ => fail (.plain .running "no tree was copied")

/-- The language of a file by its path, which may be a value of any kind. -/
def detect : Json → Option String
  | .str path => Language.detect path
  | _ => none

end Parsing

end SourceTrees
