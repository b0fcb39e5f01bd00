import SourceTrees.Service.Boot

/-!
# Loading grammars

A grammar is fetched once per language and then kept.

## Protocol

* A request for a language without a locator is refused before anything is done.
* A kept grammar is given out at once.  Otherwise the engine is booted first, and then the load of
  the language is joined or started.
* A load looks once more for a kept grammar, then has the workers fetch one.  Success is kept and
  counted; a fault leaves nothing behind.

A null grammar is kept like any other, but does not count as kept when it is looked for.

## Results

* `Grammars.request`, `Grammars.resume` — a request for a grammar.
* `Grammars.resumeFetch` — the load of one grammar.
-/

set_option autoImplicit false

namespace SourceTrees.Grammars

open Work

/-- The kept grammar of a language, unless it is null. -/
def kept? (s : Service) (language : String) : Option Grammar :=
  (s.grammars.get? language).filter Option.isSome

/-- A load has ended with a fault. -/
def fetchFailed (language locator : String) (f : Fault) : Work (Turn FetchStage Grammar) := do
  if f.kind.isOrdinary then do
    count fun c => { c with grammars := { c.grammars with failures := c.grammars.failures + 1 } }
    log (.error ("Failed to load grammar for " ++ language ++ " from " ++ locator ++ ": " ++ f.message))
    fail (.unloadable language locator f)
  else fail f

/-- A load has ended with a grammar. -/
def fetched (language : String) (g : Grammar) : Work (Turn FetchStage Grammar) := do
  modify fun s => { s with grammars := s.grammars.put language g }
  count fun c => { c with grammars := { c.grammars with loaded := c.grammars.loaded + 1 } }
  log (.info ("Grammar loaded for language: " ++ language))
  done g

/-- Begins a load. -/
def startFetch (language : String) : Work (Turn FetchStage Grammar) := do
  let s ← get
  match kept? s language with
  | some g => done g
  | none =>
    let locator := (s.config.locators.get? language).getD ""
    match s.engine? with
    | .error f => fail f
    | .ok engine =>
      match ← submit s.setupCrew (.grammar engine locator) with
      | .ok p => restOn p (.fetching language locator)
      | .error f => fetchFailed language locator f

/-- Continues a load. -/
def resumeFetch (point : FetchStage) (given : Except Fault Reply) : Work (Turn FetchStage Grammar) :=
  match point, given with
  | .start language, .ok _ => startFetch language
  | .start _, .error f => fail f
  | .fetching language _, .ok r => fetched language r.toGrammar
  | .fetching language locator, .error f => fetchFailed language locator f

/-- Joins the load of a language, or starts one. -/
def attach (language : String) : Work PromiseId :=
  modifyGet fun s =>
    let (p, grammarFlight, loop) :=
      s.grammarFlight.attach s.loop language (.fetch (.start language)) (.grammar language)
    (p, { s with grammarFlight, loop })

/-- Asks for the grammar of a language. -/
def request (language : Json) : Work (Turn GrammarStage Grammar) := do
  let s ← get
  match s.validate language with
  | .error f => fail f
  | .ok language =>
    match kept? s language with
    | some g => do
      count fun c => { c with grammars := { c.grammars with hits := c.grammars.hits + 1 } }
      done g
    | none =>
      match ← Boot.attach with
      | some p => restOn p (.booting language)
      | none => restOn (← attach language) (.loading language)

/-- Continues a request for a grammar. -/
def resume (point : GrammarStage) (given : Except Fault Reply) : Work (Turn GrammarStage Grammar) :=
  match point, given with
  | _, .error f => fail f
  | .booting language, .ok _ => do restOn (← attach language) (.loading language)
  | .loading _, .ok r => done r.toGrammar

end SourceTrees.Grammars
