import SourceTrees.Config.Environment

/-!
# The cached configuration

A process reads its configuration once and then keeps it.  Until it is told to forget it, every
request for the configuration is answered with the one first made, whatever happens to the
environment; loading one explicitly makes a new one and leaves the kept one alone.

## Protocol

* `set` and `unset` change the environment; `reset` forgets the kept configuration.
* `get` answers with the kept configuration, or makes one and keeps it; if none can be made, nothing
  is kept.
* `load` makes a new configuration; `enter` enters a locator into one that was made before, and
  `extend` does both.

Tables of locators are changed in place.  A configuration holds its table by the **place** where that
stands, and so does whoever else was given the same table.  The table of the defaults stands at the
first place; a configuration that is made gets a copy of it at a new place.

Configurations are numbered as they are made, so that an answer tells which one it holds.  What an
answer shows is the configuration as it stands at that time.
-/

set_option autoImplicit false

namespace SourceTrees

/-- A configuration as it is seen at a time, and the number under which it was made. -/
structure Instance where
  number : Nat
  config : Config
  deriving Inhabited

/-- A configuration that has been made: its number, its fields as they were then, and the place of its
    locators. -/
structure Held where
  number : Nat
  asMade : Config
  place : Nat
  deriving Inhabited

/-- The environment, the tables of locators by place, the configurations that have been made, and the
    one that is kept. -/
structure Settings where
  environment : Environment
  tables : List LocatorTable := [defaultLocators]
  made : List Held := []
  kept : Option Held := none
  deriving Inhabited

namespace Settings

/-- What can be asked of the settings. -/
inductive Request where
  | set (name value : String)
  | unset (name : String)
  | reset
  | get
  | load
  | enter (number : Nat) (language locator : String)
  | extend (language locator : String)
  deriving DecidableEq, Repr

/-- What is answered. -/
inductive Answer where
  | done
  | config (i : Instance)
  | failed (f : Fault)

/-- The table at a place. -/
def table (s : Settings) (place : Nat) : LocatorTable := s.tables[place]?.getD .empty

/-- The table of the defaults. -/
def defaults (s : Settings) : LocatorTable := s.table 0

/-- A configuration as it stands. -/
def look (s : Settings) (h : Held) : Instance :=
  ⟨h.number, { h.asMade with locators := s.table h.place }⟩

/-- Makes a configuration from the environment as it stands. -/
def make (s : Settings) : Except Fault (Held × Settings) := do
  let (c, _) ← Config.load s.environment s.defaults
  let new : Held := ⟨s.made.length, c, s.tables.length⟩
  return (new, { s with tables := s.tables ++ [c.locators], made := s.made ++ [new] })

/-- Enters a locator into the table of a configuration. -/
def enterInto (s : Settings) (h : Held) (language locator : String) : Settings :=
  { s with tables := s.tables.modify h.place (·.put language locator) }

/-- Carries out a request. -/
def step (s : Settings) : Request → Settings × Answer
  | .set name value => ({ s with environment := s.environment.put name value }, .done)
  | .unset name => ({ s with environment := s.environment.erase name }, .done)
  | .reset => ({ s with kept := none }, .done)
  | .get =>
    match s.kept with
    | some h => (s, .config (s.look h))
    | none =>
      match s.make with
      | .ok (h, s) => ({ s with kept := some h }, .config (s.look h))
      | .error f => (s, .failed f)
  | .load =>
    match s.make with
    | .ok (h, s) => (s, .config (s.look h))
    | .error f => (s, .failed f)
  | .enter number language locator =>
    match s.made[number]? with
    | some h =>
      let s := s.enterInto h language locator
      (s, .config (s.look h))
    | none => (s, .done)
  | .extend language locator =>
    match s.make with
    | .ok (h, s) =>
      let s := s.enterInto h language locator
      (s, .config (s.look h))
    | .error f => (s, .failed f)

/-- Carries out requests in order and collects the answers. -/
def run (s : Settings) : List Request → Settings × List Answer
  | [] => (s, [])
  | r :: rest =>
    let (s, a) := s.step r
    let (s, as) := s.run rest
    (s, a :: as)

end Settings

end SourceTrees
