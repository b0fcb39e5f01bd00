import SourceTrees.Config.Environment
import SourceTrees.Decimal.Binary
import SourceTrees.Service.Calls

/-!
# Running a service

A service is run from outside: calls are started and cancelled, leases ended, queued jobs done, the
clock moved on.  Between two such actions the loop is served until nothing is left to do.

## Protocol

* `act` carries out one action and serves nothing.
* `settle` serves the loop.
* `drain` does the queued jobs, oldest first, serving the loop before each and after the last.
* `advance` moves the clock, stopping to serve the loop at every timer on the way.  The clock never
  goes back.
* `complete` brings a task to its end: whenever nothing is left to serve, the oldest queued job is
  done, or else the clock is moved to the next timer.  It gives up when there is neither.
-/

set_option autoImplicit false

namespace SourceTrees.Service

open Work

/-- A new service with a valid configuration. -/
def create (config : Config) (world : World) (workers : Workers) (log : List LogLine) : Service :=
  let base : Service := { config, world, workers, log, holdsWorkers := 0 < config.workers }
  if 0 < config.workers then
    { base with log := log ++
        [.info ("Initialized ThreadPoolExecutor with " ++ toString config.workers ++ " workers")] }
  else base

/-- What can be done to a service from outside. -/
inductive Action where
  | spawn (call : Call)
  | release (position : Int)
  | cancel (task : PromiseId)
  | endLease (task : PromiseId) (fault : Option Fault)
  | cancelBoot
  | cancelGrammar (language : String)
  deriving Inhabited

/-- The gate that a task rests on while it holds a lease. -/
def gate? (s : Service) (task : PromiseId) : Option PromiseId :=
  match s.loop.tasks.get? task with
  | some { point := .holding .., restsOn := some gate, .. } => some gate
  | _ => none

/-- Carries out an action.  The answer is the task that it started, if it started one. -/
def act : Action → Work (Option PromiseId)
  | .spawn call => return some (← onLoop (·.spawn (.start call)))
  | .release position => do
    let length := (← get).workers.queue.length
    if 0 < length then workOff (position % length).toNat
    return none
  | .cancel task => do
    changeLoop (·.cancelTask task)
    return none
  | .endLease task fault => do
    if let some gate := (← get).gate? task then
      changeLoop (·.settle gate (match fault with | some f => .failed f | none => .value .nothing))
    return none
  | .cancelBoot => do
    if let some operation := (← get).bootFlight.entries.get? () then
      changeLoop (·.cancelTask operation)
    return none
  | .cancelGrammar language => do
    if let some operation := (← get).grammarFlight.entries.get? language then
      changeLoop (·.cancelTask operation)
    return none

/-- Serves the loop until nothing is left to do. -/
def settle (s : Service) : Service := program.settleAll s

/-- Moves the clock to a time, unless that is past. -/
def setClock (s : Service) (time : Float) : Service :=
  if s.loop.now < time then { s with loop := { s.loop with now := time } } else s

/-- Does at most so many queued jobs, serving the loop before each and after the last. -/
def drainFor : Nat → Service → Service
  | 0, s => s.settle
  | fuel + 1, s =>
    let s := s.settle
    if s.workers.queue.isEmpty then s else drainFor fuel ((workOff 0).run s).2

/-- Does the queued jobs, and those that come of them, until there are none. -/
def drain (s : Service) : Service := drainFor Program.patience s

/-- Moves the clock to a time, stopping at no more than so many timers. -/
def advanceFor : Nat → Float → Service → Service
  | 0, time, s => (s.setClock time).settle
  | fuel + 1, time, s =>
    match s.loop.nextDue? with
    | some due =>
      if due ≤ time then advanceFor fuel time (s.setClock due).settle else (s.setClock time).settle
    | none => (s.setClock time).settle

/-- Moves the clock on by so many microseconds. -/
def advance (microseconds : Float) (s : Service) : Service :=
  advanceFor Program.patience (s.loop.now + microseconds / 1000000.0) s

/-- Has a task finished? -/
def isFinished (s : Service) (task : PromiseId) : Bool := !s.loop.isPending task

/-- Brings a task to its end in at most so many moves. -/
def completeFor : Nat → PromiseId → Service → Service
  | 0, _, s => s.settle
  | fuel + 1, task, s =>
    let s := s.settle
    if s.isFinished task then s
    else if !s.workers.queue.isEmpty then completeFor fuel task ((workOff 0).run s).2
    else
      match s.loop.nextDue? with
      | some due => completeFor fuel task (s.setClock due)
      | none => s

/-- Brings a task to its end, if it can be brought there from here. -/
def complete (task : PromiseId) (s : Service) : Service := completeFor Program.patience task s

/-- The clock in whole microseconds. -/
def microseconds (s : Service) : Nat := (Decimal.nearestWhole? (s.loop.now * 1000000.0)).getD 0

/-! ## The life of a server -/

/-- A new service as a server makes it when it starts: configured by the environment, not yet
    entered. -/
def open? (env : Environment) (world : World) (workers : Workers) : Except Fault Service := do
  let (config, log) ← Config.load env
  return create config world workers log

end SourceTrees.Service
