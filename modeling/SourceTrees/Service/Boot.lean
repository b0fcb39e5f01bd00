import SourceTrees.Service.Workers

/-!
# Booting the engine

The engine is booted by one operation, which all who need it share.

## Protocol

* A boot makes attempts.  An attempt has the workers import the engine's module.
* A transient fault leads to another attempt after a pause, as long as attempts are left.  The pause
  after the `n`-th failed attempt is the configured wait times two to the `n - 1`, at most ten
  seconds; without a wait the task merely gives way to the others.
* Any other end of an attempt ends the boot: with the engine, which is then **ready** for good, or
  with a fault.  A boot that ends with a fault, or is cancelled, leaves the engine to be booted by a
  later one.

## Results

* `Boot.attach` — the promise to rest on until the engine is booted; none if it is.
* `Boot.resume` — the boot operation.
-/

set_option autoImplicit false

namespace SourceTrees.Boot

open Work

/-- The longest pause, in seconds. -/
def longestPause : Float := 10.0

/-- The pause after so many failed attempts, in seconds.  Where the power of two is beyond all
    floating-point values the pause is the longest. -/
def pause (wait : Float) (failed : Nat) : Float :=
  if 1025 ≤ failed then longestPause
  else
    let grown := wait * Float.ofNat (Nat.pow 2 (failed - 1))
    let capped := if longestPause < grown then longestPause else grown
    if 0 < capped then capped else 0.0

/-- The boot has ended with a fault: the engine is left to be booted by a later one.  What is not a
    fault of booting by its kind is reported as the cause of one. -/
def failed (f : Fault) : Work (Turn BootStage Unit) := do
  modify fun s => { s with phase := .uninitialized }
  let name := (← get).config.engineModule
  let countFailure := count fun c => { c with boot := { c.boot with failures := c.boot.failures + 1 } }
  if f.kind = .boot then do
    countFailure
    fail f
  else if f.kind.isOrdinary then do
    countFailure
    log (.error ("Failed to boot parsing engine '" ++ name ++ "': " ++ f.message))
    fail (.unbootable name f)
  else fail f

/-- The boot has ended with the engine. -/
def succeeded : Work (Turn BootStage Unit) := do
  let name := (← get).config.engineModule
  modify fun s => { s with engine := some name, phase := .ready }
  log (.info ("Parsing engine '" ++ name ++ "' ready (language ABI " ++
    (← get).world.versionText name ++ ")"))
  done ()

/-- An attempt has ended with a fault. -/
def attemptFailed (attempt : Nat) (f : Fault) : Work (Turn BootStage Unit) := do
  let config := (← get).config
  if f.kind.isTransient && decide (attempt < config.bootAttempts) then do
    let seconds := pause config.bootWait attempt
    if 0 < seconds then do
      let p ← onLoop (·.timer seconds)
      restOn p (.pausing attempt (some p))
    else return .giveWay (.pausing attempt none)
  else failed f

/-- Begins an attempt. -/
def beginAttempt (attempt : Nat) : Work (Turn BootStage Unit) := do
  count fun c => { c with boot := { c.boot with attempts := c.boot.attempts + 1 } }
  let s ← get
  match ← submit s.setupCrew (.boot s.config.engineModule) with
  | .ok p => restOn p (.importing attempt)
  | .error f => attemptFailed attempt f

/-- Begins the boot. -/
def start : Work (Turn BootStage Unit) := do
  modify fun s => { s with phase := .initializing }
  count fun c => { c with boot := { c.boot with operations := c.boot.operations + 1 } }
  log (.info ("Booting parsing engine '" ++ (← get).config.engineModule ++ "'..."))
  beginAttempt 1

/-- Continues the boot. -/
def resume (point : BootStage) (given : Except Fault Reply) : Work (Turn BootStage Unit) :=
  match point, given with
  | .start, .ok _ => start
  | .start, .error f => fail f
  | .importing _, .ok _ => succeeded
  | .importing attempt, .error f => attemptFailed attempt f
  | .pausing attempt _, .ok _ => beginAttempt (attempt + 1)
  | .pausing _ timer, .error f => do
    if let some p := timer then changeLoop (·.dropTimer p)
    failed f

/-- Joins the boot, or starts one, unless the engine is ready.  The answer is the promise to rest
    on. -/
def attach : Work (Option PromiseId) := do
  if (← get).phase = .ready then return none
  modifyGet fun s =>
    let (p, bootFlight, loop) := s.bootFlight.attach s.loop () (.boot .start) .boot
    (some p, { s with bootFlight, loop })

end SourceTrees.Boot
