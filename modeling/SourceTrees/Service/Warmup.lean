import SourceTrees.Service.Pool

/-!
# Warming up

Before the first request a service can look which grammars are there, boot the engine and have
parsers made, so that requests do not have to wait for it.

## Protocol

* Availability is looked up without loading anything, except that a module in another one needs the
  outer one imported.
* Then the engine is booted.  If that fails the warm-up is over; it answers false.
* Then a parser for every language is asked for, all at once.  A fault of the service is logged and
  makes the answer false; any other fault comes out of the warm-up.

## Results

* `Warmup.availability` — which languages of a table have their module available.
* `Warmup.request`, `Warmup.resume` — the warm-up.
-/

set_option autoImplicit false

namespace SourceTrees.Warmup

open Work

/-- Looks up availability language by language. -/
def probe : List (String × String) → Attempt (List (String × Bool))
  | [] => return []
  | (language, locator) :: rest => do
    let found ← Attempt.isAvailable locator
    return (language, found) :: (← probe rest)

/-- Which languages of a table are available. -/
def availability (table : LocatorTable) : Attempt (List (String × Bool)) := probe table.entries

/-- The line that tells what was found. -/
def availabilityLine (found : List (String × Bool)) : LogLine :=
  let total := found.length
  let count := (found.filter (·.2)).length
  if count = total then .info ("✓ All " ++ toString total ++ " Tree-sitter grammars available")
  else
    let missing := sortedTexts ((found.filter fun e => !e.2).map (·.1))
    .warning ("Only " ++ toString count ++ "/" ++ toString total ++
      " Tree-sitter grammars available, missing: " ++ Config.listed missing)

/-- Has a parser asked for, for every language. -/
def gather (languages : List Json) : Work (Turn WarmStage Bool) := do
  if languages.isEmpty then done true
  else do
    let members ← languages.mapM fun l => onLoop (·.spawn (.start (.getParser l)))
    let g ← onLoop (·.group members)
    restOn g (.gathering languages members)

/-- The engine has been booted, or not. -/
def booted (languages : List Json) (result : Except Fault Unit) : Work (Turn WarmStage Bool) := do
  match result with
  | .ok _ => gather languages
  | .error f =>
    if f.kind = .boot then do
      log (.warning ("Parsing engine could not be booted: " ++ f.message))
      done false
    else fail f

/-- Goes over what came of the languages, in order. -/
def review : List (Json × Except Fault Unit) → Bool → Work (Turn WarmStage Bool)
  | [], all => done all
  | (language, .ok _) :: rest, all => do
    log (.info ("✓ Preloaded parser for " ++ language.display))
    review rest all
  | (language, .error f) :: rest, all =>
    if f.kind.isOwn then do
      log (.warning ("Could not preload " ++ language.display ++ ": " ++ f.message))
      review rest (all && false)
    else fail f

/-- How a finished task ended. -/
def endOf (s : Service) (t : PromiseId) : Except Fault Unit :=
  match s.loop.outcome? t with
  | some (.failed f) => .error f
  | some .cancelled => .error .cancellation
  | _ => .ok ()

/-- Asks for a warm-up with the given languages, or else with the configured ones. -/
def request (languages : Option (List Json)) : Work (Turn WarmStage Bool) := do
  log (.info "Checking Tree-sitter grammar availability...")
  let config := (← get).config
  match ← attempt (availability config.locators) with
  | .error f => fail f
  | .ok found => do
    log (availabilityLine found)
    let languages := languages.getD (config.preload.map .str)
    match ← Boot.attach with
    | some p => restOn p (.booting languages)
    | none => booted languages (.ok ())

/-- Continues a warm-up. -/
def resume (stage : WarmStage) (given : Except Fault Reply) : Work (Turn WarmStage Bool) :=
  match stage, given with
  | .booting languages, .ok _ => booted languages (.ok ())
  | .booting languages, .error f => booted languages (.error f)
  | .gathering _ _, .error f => fail f
  | .gathering languages members, .ok _ => do
    let s ← get
    review (languages.zip (members.map (endOf s))) true

end SourceTrees.Warmup
