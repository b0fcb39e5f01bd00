import SourceTrees.Service.Grammars

/-!
# The parser pool

There is one parser per language.  It is made when it is first asked for, bound to the language's
grammar, and never replaced.  A parser keeps state between parses, so it is lent to one call at a
time.

## Protocol

* A **request** finds the parser in the pool, or loads the grammar and then makes the parser, unless
  another call has put one there in the meantime.  A parser that could not be made is not kept.
* A **lease** is a pooled parser with its lock held.  The lock is free to be taken when it is not
  held and nobody waits for it.  Otherwise a ticket is drawn; when the lock is given back the first
  ticket is called.
* Who is cancelled while waiting gives up the ticket and, if the lock is free at that moment, calls
  the next one.

## Results

* `Pool.request`, `Pool.resume` — a request for the parser of a language.
* `Pool.lease`, `Pool.resumeLease`, `Pool.release` — borrowing a parser.
-/

set_option autoImplicit false

namespace SourceTrees.Pool

open Work

/-- Makes a parser for a language and puts it into the pool. -/
def create (language : String) (g : Grammar) : Work (Turn PoolStage String) := do
  match (← get).engine? with
  | .error f => fail f
  | .ok engine =>
    match ← attempt (.bindParser engine g) with
    | .ok parser => do
      modify fun s => { s with pool := s.pool.put language { parser } }
      count fun c => { c with parsers := { c.parsers with created := c.parsers.created + 1 } }
      done language
    | .error f =>
      if f.kind.isOrdinary then do
        log (.error ("Failed to create parser for language " ++ language ++ ": " ++ f.message))
        fail (.unbindable language ((← get).config.locators.get? language) f)
      else fail f

/-- Goes on when the grammar has come or failed to come. -/
def grammarCame (language : String) (result : Except Fault Grammar) : Work (Turn PoolStage String) := do
  match result with
  | .error f => fail f
  | .ok g => if (← get).pool.contains language then done language else create language g

/-- Asks for the pooled parser of a language.  The answer is the language under which it is in the
    pool. -/
def request (language : Json) : Work (Turn PoolStage String) := do
  let s ← get
  match s.validate language with
  | .error f => fail f
  | .ok name =>
    if s.pool.contains name then do
      count fun c => { c with parsers := { c.parsers with hits := c.parsers.hits + 1 } }
      done name
    else do
      count fun c => { c with parsers := { c.parsers with misses := c.parsers.misses + 1 } }
      andThen (← Grammars.request language) (.grammar name) (grammarCame name)

/-- Continues a request for a pooled parser. -/
def resume : PoolStage → Except Fault Reply → Work (Turn PoolStage String)
  | .grammar language point, given => do
    andThen (← Grammars.resume point given) (.grammar language) (grammarCame language)

/-- The parser of a language in the pool. -/
def parserOf (s : Service) (language : String) : Nat :=
  ((s.pool.get? language).map (·.parser)).getD 0

/-! ## Leases -/

/-- Changes a pooled parser. -/
def change (language : String) (f : Pooled → Pooled) : Work Unit :=
  modify fun s => { s with pool := s.pool.adjust language f }

/-- Changes the lock of a pooled parser. -/
def changeLock (language : String) (f : Lock → Lock) : Work Unit :=
  change language fun p => { p with lock := f p.lock }

/-- The lock of a pooled parser. -/
def lockOf (s : Service) (language : String) : Lock :=
  ((s.pool.get? language).map (·.lock)).getD {}

/-- Calls the first ticket. -/
def callNext (language : String) : Work Unit := do
  match (lockOf (← get) language).tickets with
  | [] => return
  | ticket :: _ => changeLoop (·.settle ticket (.value .nothing))

/-- Gives the lock back. -/
def release (language : String) : Work Unit := do
  changeLock language fun l => { l with held := false }
  callNext language

/-- Takes the lock: from here on the parser is lent. -/
def take (language : String) : Work (Turn LeaseStage Nat) := do
  change language fun p => { p with lock := { p.lock with held := true }, leases := p.leases + 1 }
  done (parserOf (← get) language)

/-- Waits for the lock, the parser being in the pool. -/
def acquire (result : Except Fault String) : Work (Turn LeaseStage Nat) := do
  match result with
  | .error f => fail f
  | .ok language =>
    let s ← get
    let lock := lockOf s language
    if !lock.held && lock.tickets.all s.loop.isCancelled then take language
    else do
      let ticket ← onLoop (·.promise)
      changeLock language fun l => { l with tickets := l.tickets ++ [ticket] }
      restOn ticket (.lock language ticket)

/-- Asks for a lease.  The answer is the parser. -/
def lease (language : Json) : Work (Turn LeaseStage Nat) := do
  andThen (← request language) .parser acquire

/-- Continues a request for a lease. -/
def resumeLease (point : LeaseStage) (given : Except Fault Reply) : Work (Turn LeaseStage Nat) :=
  match point with
  | .parser point => do andThen (← resume point given) .parser acquire
  | .lock language ticket => do
    changeLock language fun l => { l with tickets := l.tickets.filter (· ≠ ticket) }
    match given with
    | .ok _ => take language
    | .error f => do
      unless (lockOf (← get) language).held do callNext language
      fail f

end SourceTrees.Pool
