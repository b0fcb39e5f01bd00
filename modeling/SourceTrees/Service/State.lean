import SourceTrees.Config.Basic
import SourceTrees.Engine.World
import SourceTrees.Flight.Basic
import SourceTrees.Tree.Cursor

/-!
# The state of a parse service

A service turns source code into syntax trees with an engine that is booted once, grammars that are
loaded once each, and one parser per language that is lent to one call at a time.

## Protocol

* The **phase** tells whether the engine is booted.  Booting is the one operation of `bootFlight`.
* A **grammar** enters the cache when its load has succeeded.  Loads are the operations of
  `grammarFlight`, one per language.
* The **pool** holds one parser per language, with a lock and the number of its leases.
* Blocking work is done by **workers** as jobs.  A service has workers of its own unless it is
  configured with none; then, and after its own have been dismissed, the shared ones are used.
* Every request is a **call**, and every call runs as a task.  Its `Stage` says where it rests: the
  points of a call contain the points of the calls that it makes in turn.

The state holds the loop, the world, and the log as values; nothing is hidden.
-/

set_option autoImplicit false

namespace SourceTrees

/-- The phases of the engine within one service. -/
inductive Phase where
  | uninitialized
  | initializing
  | ready
  deriving DecidableEq, Repr, Inhabited

/-- The name under which a phase is reported. -/
def Phase.name : Phase → String
  | uninitialized => "UNINITIALIZED"
  | initializing => "INITIALIZING"
  | ready => "READY"

/-! ## Calls -/

/-- Code as it is handed in: text, bytes, or something that is no code. -/
inductive Code where
  | text (s : String)
  | bytes (b : List UInt8)
  | other (v : Json)
  deriving Inhabited

/-- What a service can be asked.  Languages and paths are values of any kind. -/
inductive Call where
  | init
  | parse (code : Code) (language : Json)
  | parseFile (code : Code) (path : Json)
  | detect (path : Json)
  | status
  | load (language : Json)
  | getParser (language : Json)
  | lease (holder : String) (language : Json)
  | warm (languages : Option (List Json))
  | check (locators : Option LocatorTable)
  | engine
  | isReady
  | cacheInfo
  | isSupported (language : Json)
  | validate (language : Json)
  | isLoaded (language : Json)
  | close
  | validatePath (path : Json) (limit : Int)
  | snippetTool (code : Code) (language : Json) (depth : Option Int)
  | fileTool (path : Json) (depth : Option Int)
  | detectTool (path : Json)
  | statusTool
  | enter
  | leave (fault : Option Fault)
  deriving Inhabited

/-! ## Counters -/

/-- How often the engine was booted, tried and failed to boot. -/
structure BootCounts where
  operations : Nat := 0
  attempts : Nat := 0
  failures : Nat := 0
  deriving DecidableEq, Repr, Inhabited

/-- How many grammars were loaded, found loaded, and failed to load. -/
structure GrammarCounts where
  loaded : Nat := 0
  hits : Nat := 0
  failures : Nat := 0
  deriving DecidableEq, Repr, Inhabited

/-- How many parsers were made, found in the pool, and not found there. -/
structure PoolCounts where
  created : Nat := 0
  hits : Nat := 0
  misses : Nat := 0
  deriving DecidableEq, Repr, Inhabited

/-- How many trees were built, parses failed, and files skipped. -/
structure ParseCounts where
  built : Nat := 0
  failures : Nat := 0
  skipped : Nat := 0
  deriving DecidableEq, Repr, Inhabited

/-- All counters of a service. -/
structure Counts where
  boot : BootCounts := {}
  grammars : GrammarCounts := {}
  parsers : PoolCounts := {}
  parses : ParseCounts := {}
  deriving DecidableEq, Repr, Inhabited

/-! ## What calls answer -/

/-- The state of a service as it is reported. -/
structure Status where
  phase : Phase
  engineModule : String
  supported : List String
  loaded : List String
  pooled : List String
  counts : Counts
  deriving Inhabited

/-- The parser pool as it is reported: the leases by language, and the share of requests that found
    their parser in the pool. -/
structure PoolReport where
  pooled : List String
  leases : List (String × Nat)
  hitRate : Float
  deriving Inhabited

/-- What comes of looking at a path before the file is read. -/
inductive PathCheck where
  | valid (size : Nat)
  | invalid (why : String)
  deriving DecidableEq, Repr, Inhabited

/-- The values that promises are settled with. -/
inductive Reply where
  | nothing
  | engine (name : String)
  | grammar (g : Grammar)
  | engineTree (root : Option Node)
  | tree (t : Tree)
  | bound (parser : Nat) (g : Grammar)
  | leased (parser : Nat)
  | flag (b : Bool)
  | text (s : String)
  | language (l : Option String)
  | availability (table : List (String × Bool))
  | status (s : Status)
  | pool (p : PoolReport)
  | pathCheck (c : PathCheck)
  | stillOpen
  | passedOn
  deriving Inhabited

/-- The grammar in a reply. -/
def Reply.toGrammar : Reply → Grammar
  | grammar g => g
  | _ => none

/-- The engine's tree in a reply. -/
def Reply.toEngineTree : Reply → Option Node
  | engineTree root => root
  | _ => none

/-! ## Where tasks rest -/

/-- The boot: before it starts, while an attempt is at work, and between two attempts, with the
    promise of the timer if there is one. -/
inductive BootStage where
  | start
  | importing (attempt : Nat)
  | pausing (attempt : Nat) (timer : Option PromiseId)
  deriving DecidableEq, Repr, Inhabited

/-- The load of one grammar: before it starts, and while it is fetched. -/
inductive FetchStage where
  | start (language : String)
  | fetching (language locator : String)
  deriving DecidableEq, Repr, Inhabited

/-- A request for a grammar: waiting for the boot, and waiting for the load. -/
inductive GrammarStage where
  | booting (language : String)
  | loading (language : String)
  deriving DecidableEq, Repr, Inhabited

/-- A request for a pooled parser: waiting for the grammar. -/
inductive PoolStage where
  | grammar (language : String) (point : GrammarStage)
  deriving DecidableEq, Repr, Inhabited

/-- A request for a lease: waiting for the parser, and waiting for the lock with a ticket. -/
inductive LeaseStage where
  | parser (point : PoolStage)
  | lock (language : String) (ticket : PromiseId)
  deriving DecidableEq, Repr, Inhabited

/-- Which workers do a job: the service's own or the shared ones. -/
inductive Crew where
  | own
  | shared
  deriving DecidableEq, Repr, Inhabited

/-- A parse: waiting for the boot, for the lease, for the engine's job, waiting that job out after a
    cancellation, and waiting for the tree to be copied. -/
inductive ParseStage where
  | booting (language : String) (source : List UInt8)
  | leasing (language : String) (source : List UInt8) (crew : Crew) (point : LeaseStage)
  | running (language : String) (source : List UInt8) (crew : Crew) (job : PromiseId)
  | draining (language : String) (job waiter : PromiseId) (cancellation : Fault)
  | copying (language : String)
  deriving Inhabited

/-- What the tree of a parse is wanted for. -/
inductive ParseUse where
  | tree
  | snippet (language : Json) (depth : Option Int)
  | file (path : Json) (depth : Option Int)
  deriving Inhabited

/-- A warm-up: waiting for the boot, and waiting for the parsers. -/
inductive WarmStage where
  | booting (languages : List Json)
  | gathering (languages : List Json) (members : List PromiseId)
  deriving Inhabited

/-- Where a task rests. -/
inductive Stage where
  | start (call : Call)
  | boot (point : BootStage)
  | fetch (point : FetchStage)
  | init
  | grammar (point : GrammarStage)
  | parser (point : PoolStage)
  | lease (holder : String) (point : LeaseStage)
  | holding (language : String) (parser : Nat)
  | parse (use : ParseUse) (point : ParseStage)
  | warm (point : WarmStage)
  | enter (point : WarmStage)
  deriving Inhabited

/-- Which flight is to forget an operation. -/
inductive Hook where
  | boot
  | grammar (language : String)
  deriving DecidableEq, Repr, Inhabited

/-! ## Workers -/

/-- Blocking work. -/
inductive Job where
  | boot (engine : String)
  | grammar (engine locator : String)
  | parse (parser : Nat) (source : List UInt8)
  | copy (language : String) (source : List UInt8) (root : Node)
  deriving Inhabited

/-- A queued job with the promise of its outcome. -/
structure Ticket where
  crew : Crew
  job : Job
  promise : PromiseId
  deriving Inhabited

/-- The workers: whether they do a job as soon as it comes or queue it, the queue, whether the
    service's own have been dismissed, how often that was tried, and the fault that dismissing them
    raises. -/
structure Workers where
  eager : Bool := true
  queue : List Ticket := []
  dismissed : Bool := false
  dismissals : Nat := 0
  stuck : Option Fault := none
  deriving Inhabited

/-! ## Parsers -/

/-- A lock: whether it is held, and the tickets of those who wait for it. -/
structure Lock where
  held : Bool := false
  tickets : List PromiseId := []
  deriving DecidableEq, Repr, Inhabited

/-- A pooled parser, the lock on its use, and how often it was lent. -/
structure Pooled where
  parser : Nat
  lock : Lock := {}
  leases : Nat := 0
  deriving DecidableEq, Repr, Inhabited

/-! ## The service -/

/-- A service and everything around it. -/
structure Service where
  config : Config := {}
  loop : Loop Reply Stage Hook := {}
  world : World := {}
  workers : Workers := {}
  /-- Does the service still hold workers of its own? -/
  holdsWorkers : Bool := true
  phase : Phase := .uninitialized
  engine : Option String := none
  bootFlight : Flight Unit := {}
  grammars : Keyed String Grammar := .empty
  grammarFlight : Flight String := {}
  pool : Keyed String Pooled := .empty
  counts : Counts := {}
  log : List LogLine := []
  deriving Inhabited

/-- A part of a task's turn: it works on the service. -/
abbrev Work (α : Type) := StateM Service α

namespace Work

variable {α P : Type}

/-- Works on the loop. -/
def onLoop (f : Loop Reply Stage Hook → α × Loop Reply Stage Hook) : Work α :=
  modifyGet fun s => let (a, loop) := f s.loop; (a, { s with loop })

/-- Changes the loop. -/
def changeLoop (f : Loop Reply Stage Hook → Loop Reply Stage Hook) : Work Unit :=
  modify fun s => { s with loop := f s.loop }

/-- Tries something in the world. -/
def attempt (a : Attempt α) : Work (Except Fault α) :=
  modifyGet fun s => let (r, world) := a.run s.world; (r, { s with world })

/-- Writes a line of the log. -/
def log (line : LogLine) : Work Unit := modify fun s => { s with log := s.log ++ [line] }

/-- Changes the counters. -/
def count (f : Counts → Counts) : Work Unit := modify fun s => { s with counts := f s.counts }

/-- Ends a turn with a value. -/
def done (value : α) : Work (Turn P α) := return .finish (.ok value)

/-- Ends a turn with a fault. -/
def fail (f : Fault) : Work (Turn P α) := return .finish (.error f)

/-- Ends a turn resting on a promise. -/
def restOn (promise : PromiseId) (point : P) : Work (Turn P α) := return .rest promise point

/-- Goes on when a call made in turn has finished; until then the task rests where that call
    rests. -/
def andThen {Q β : Type} (turn : Turn P α) (wrap : P → Q) (next : Except Fault α → Work (Turn Q β)) :
    Work (Turn Q β) :=
  match turn with
  | .rest on point => return .rest on (wrap point)
  | .giveWay point => return .giveWay (wrap point)
  | .finish result => next result

end Work

/-- Texts in the order of their characters. -/
def sortedTexts (texts : List String) : List String :=
  texts.mergeSort fun a b => decide (a ≤ b)

namespace Service

/-- The languages that have a locator, in order. -/
def supportedLanguages (s : Service) : List String := sortedTexts s.config.locators.keys

/-- The languages whose grammars are loaded, in order. -/
def loadedLanguages (s : Service) : List String := sortedTexts s.grammars.keys

/-- The languages that have a pooled parser, in order. -/
def pooledLanguages (s : Service) : List String := sortedTexts s.pool.keys

/-- The workers for booting and loading: the service's own if it was configured with any. -/
def setupCrew (s : Service) : Crew := if 0 < s.config.workers then .own else .shared

/-- The workers for parsing: the service's own as long as it holds them. -/
def parseCrew (s : Service) : Crew := if s.holdsWorkers then .own else .shared

/-- The engine, if it is booted. -/
def engine? (s : Service) : Except Fault String :=
  match s.phase, s.engine with
  | .ready, some name => .ok name
  | _, _ => .error (.notReady s.phase.name s.config.engineModule)

/-- Is there a locator for the language? -/
def isSupported (s : Service) : Json → Bool
  | .str language => s.config.hasLocator language
  | _ => false

/-- The name of a language that has a locator. -/
def validate (s : Service) (language : Json) : Except Fault String :=
  match language with
  | .str name =>
    if s.config.hasLocator name then .ok name
    else .error (.unsupported language s.supportedLanguages)
  | _ => .error (.unsupported language s.supportedLanguages)

/-- The state of the service as it is reported. -/
def status (s : Service) : Status where
  phase := s.phase
  engineModule := s.config.engineModule
  supported := s.supportedLanguages
  loaded := s.loadedLanguages
  pooled := s.pooledLanguages
  counts := s.counts

/-- The parser pool as it is reported. -/
def poolReport (s : Service) : PoolReport where
  pooled := s.pooledLanguages
  leases := s.pool.entries.map fun e => (e.1, e.2.leases)
  hitRate :=
    let hits := s.counts.parsers.hits
    Float.ofNat hits / Float.ofNat (max 1 (hits + s.counts.parsers.misses))

end Service

end SourceTrees
