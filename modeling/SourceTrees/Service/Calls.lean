import SourceTrees.Service.Tools
import SourceTrees.Service.Warmup

/-!
# Calls

What a service does with each call, from its start to its reply.

* Calls that need no waiting are answered in one turn.
* The others rest where the operations rest that they make in turn.
* A lease is held until it is ended from outside; a fault given for its end comes out of it.
* Entering a service warms it up; leaving it closes it, whatever has happened.

`Service.program` is the program of the service's loop.
-/

set_option autoImplicit false

namespace SourceTrees.Calls

open Work

/-- Ends a turn with an outcome. -/
def conclude {P α : Type} (result : Except Fault α) : Work (Turn P α) := return .finish result

/-- A turn whose outcome is turned into a reply. -/
def replying {P Q α : Type} (turn : Turn P α) (wrap : P → Q) (f : α → Reply) : Work (Turn Q Reply) :=
  andThen turn wrap fun result => conclude (reply f result)

/-- The reply to a request for a parser: the parser and the grammar it is bound to. -/
def parserReply (result : Except Fault String) : Work (Turn Stage Reply) := do
  match result with
  | .error f => fail f
  | .ok language => do
    let s ← get
    let parser := Pool.parserOf s language
    done (.bound parser (s.world.grammarOf parser))

/-- A lease has been granted or refused to a holder. -/
def hold (holder language : String) (result : Except Fault Nat) : Work (Turn Stage Reply) := do
  match result with
  | .error f => fail f
  | .ok parser => do
    let gate ← onLoop (·.promise)
    modify fun s => { s with world := s.world.note (.leased holder parser) }
    restOn gate (.holding language parser)

/-- The language that a lease is waiting for. -/
def leasedLanguage : LeaseStage → String
  | .parser (.grammar language _) => language
  | .lock language _ => language

/-- A warm-up on entering has ended.  A fault that comes out of it closes the service. -/
def entered (result : Except Fault Bool) : Work (Turn Stage Reply) := do
  match result with
  | .ok true => do
    log (.info "Parsing runtime warmed up")
    done .nothing
  | .ok false => do
    log (.warning "Parsing runtime warm-up incomplete; failed steps are retried on demand")
    done .nothing
  | .error f => do
    if f.kind.isOrdinary then log (.error ("Error in application lifespan: " ++ f.message))
    match ← close with
    | .ok _ => fail f
    | .error g => fail g

/-- Leaves the service: it is closed.  A fault that leaves with it is passed on as it is. -/
def leave (f : Option Fault) : Work (Turn Stage Reply) := do
  if let some f := f then
    if f.kind.isOrdinary then log (.error ("Error in application lifespan: " ++ f.message))
  match ← close with
  | .ok _ => done (if f.isSome then .passedOn else .nothing)
  | .error g => fail g

/-- Begins a call. -/
def start (call : Call) : Work (Turn Stage Reply) := do
  let s ← get
  match call with
  | .init =>
    match ← Boot.attach with
    | some p => restOn p .init
    | none => done .nothing
  | .parse code language => Tools.parse .tree code language
  | .parseFile code path => Tools.parseAs .tree code path
  | .detect path => done (.language (Parsing.detect path))
  | .status => done (.status s.status)
  | .load language => do replying (← Grammars.request language) .grammar .grammar
  | .getParser language => do andThen (← Pool.request language) .parser parserReply
  | .lease holder language => do
    let turn ← Pool.lease language
    andThen turn (.lease holder) (hold holder (match language with | .str l => l | _ => ""))
  | .warm languages => do replying (← Warmup.request languages) .warm .flag
  | .check locators => do
    conclude (reply .availability (← attempt (Warmup.availability (locators.getD defaultLocators))))
  | .engine => conclude (reply .text s.engine?)
  | .isReady => done (.flag (s.phase = .ready))
  | .cacheInfo => done (.pool s.poolReport)
  | .isSupported language => done (.flag (s.isSupported language))
  | .validate language => conclude (reply .text (s.validate language))
  | .isLoaded language =>
    match language with
    | .str l => done (.flag (s.grammars.contains l))
    | .arr _ | .obj _ => fail (.plain .type ("unhashable type: '" ++ language.typeName ++ "'"))
    | _ => done (.flag false)
  | .close => do
    match ← close with
    | .ok _ => done (if (← get).holdsWorkers then .stillOpen else .nothing)
    | .error f => fail f
  | .validatePath path limit => done (.pathCheck (Tools.checkPath s.world path limit))
  | .snippetTool code language depth => Tools.parse (.snippet language depth) code language
  | .fileTool path depth => Tools.parseFile path depth
  | .detectTool path => done (.text (Tools.languageDocument path))
  | .statusTool => done (.text s.status.toJson.pretty)
  | .enter => do andThen (← Warmup.request none) .enter entered
  | .leave f => leave f

/-- Continues a task. -/
def resume (stage : Stage) (given : Except Fault Reply) : Work (Turn Stage Reply) :=
  match stage with
  | .start call =>
    match given with
    | .ok _ => start call
    | .error f => fail f
  | .boot stage => do replying (← Boot.resume stage given) .boot fun _ => .nothing
  | .fetch stage => do replying (← Grammars.resumeFetch stage given) .fetch .grammar
  | .init => conclude (reply (fun _ => .nothing) given)
  | .grammar stage => do replying (← Grammars.resume stage given) .grammar .grammar
  | .parser stage => do andThen (← Pool.resume stage given) .parser parserReply
  | .lease holder stage => do
    andThen (← Pool.resumeLease stage given) (.lease holder) (hold holder (leasedLanguage stage))
  | .holding language parser => do
    Pool.release language
    conclude (reply (fun _ => .leased parser) given)
  | .parse use stage => Tools.resumeParse use stage given
  | .warm stage => do replying (← Warmup.resume stage given) .warm .flag
  | .enter stage => do andThen (← Warmup.resume stage given) .enter entered

/-- Reacts to the end of a shared operation. -/
def react (hook : Hook) (operation : PromiseId) (s : Service) : Service :=
  match hook with
  | .boot => { s with bootFlight := s.bootFlight.forget () operation }
  | .grammar language => { s with grammarFlight := s.grammarFlight.forget language operation }

end SourceTrees.Calls

namespace SourceTrees.Service

/-- What the tasks of a service do. -/
def program : Program Service Reply Stage Hook where
  loop := Service.loop
  withLoop s loop := { s with loop }
  resume _ stage given s := Calls.resume stage given s
  react := Calls.react

end SourceTrees.Service
