import SourceTrees.Loop

/-!
# Flights

A flight makes sure that at most one operation runs for a key.  The first caller for a key starts the
operation as a task of its own; callers that come while it runs attach to it, and all get its one
outcome.

## Protocol

* The table of a flight maps a key to the operation started last.  An operation leaves the table by a
  reaction to its end, so a finished one may still be mapped for a moment: only a **running** one is
  joined.
* Every caller rests on a shield of the operation, so that cancelling a caller never touches it.
* `forget` removes an entry only if it still maps to the operation that has ended, so that a late
  reaction leaves a newer operation alone.

## Results

* `Flight.running?` — the operation that a caller would join.
* `Flight.launch`, `Flight.attach` — starting an operation and attaching to one.
* `Flight.forget_newer` — a late reaction does not remove a newer entry.
-/

set_option autoImplicit false

namespace SourceTrees

/-- The operations of a flight by key, and how many were started and joined. -/
structure Flight (κ : Type) where
  entries : Keyed κ PromiseId := .empty
  started : Nat := 0
  joined : Nat := 0
  deriving Inhabited

namespace Flight

variable {κ V P K : Type} [DecidableEq κ]

/-- Is there an entry for the key? -/
def inFlight (f : Flight κ) (key : κ) : Bool := f.entries.contains key

/-- The operation that a caller for the key would join. -/
def running? (f : Flight κ) (l : Loop V P K) (key : κ) : Option PromiseId :=
  (f.entries.get? key).filter l.isPending

/-- The flight after one more caller has joined. -/
def join (f : Flight κ) : Flight κ := { f with joined := f.joined + 1 }

/-- The flight after an operation has been started. -/
def start (f : Flight κ) (key : κ) (operation : PromiseId) : Flight κ :=
  { f with entries := f.entries.put key operation, started := f.started + 1 }

/-- Starts the operation of a key as a task, and has the flight told of its end by a hook. -/
def launch (f : Flight κ) (l : Loop V P K) (key : κ) (point : P) (hook : K) :
    PromiseId × Flight κ × Loop V P K :=
  let (operation, l) := l.spawn point
  (operation, f.start key operation, l.subscribe operation (.hook hook))

/-- Joins the running operation of a key, or starts one.  The answer is the shield to rest on. -/
def attach (f : Flight κ) (l : Loop V P K) (key : κ) (point : P) (hook : K) :
    PromiseId × Flight κ × Loop V P K :=
  match f.running? l key with
  | some operation =>
    let (outer, l) := l.shield operation
    (outer, f.join, l)
  | none =>
    let (operation, f, l) := f.launch l key point hook
    let (outer, l) := l.shield operation
    (outer, f, l)

/-- Removes the entry of a key if it is that of the given operation. -/
def forget (f : Flight κ) (key : κ) (operation : PromiseId) : Flight κ :=
  if f.entries.get? key = some operation then { f with entries := f.entries.erase key } else f

/-- A late reaction to the end of an older operation leaves the entry of a newer one. -/
theorem forget_newer {f : Flight κ} {key : κ} {older newer : PromiseId}
    (h : f.entries.get? key = some newer) (hne : older ≠ newer) : f.forget key older = f := by
  unfold forget
  rw [h, if_neg]
  exact fun he => hne (Option.some.inj he).symm

end Flight

end SourceTrees
