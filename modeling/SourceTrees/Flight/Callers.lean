import SourceTrees.Flight.Basic

/-!
# Callers of a flight

A flight with callers and nothing else: callers come with a key and some work, operations wait at
gates that are opened from outside, callers and operations are cancelled.

## Protocol

* A caller that starts an operation has its work done: the operation waits at a gate of the
  caller's name, or ends at once with a given outcome, or cannot even be begun.
* An event is something done from outside; after it the loop is served until nothing is left to do,
  except between the parts of a batch.

The answers to all requests are structured values.
-/

set_option autoImplicit false

namespace SourceTrees.Flight

/-- What a flight is called if it is given no name. -/
def defaultName : String := "singleflight"

/-- The work that a caller brings. -/
inductive Work where
  | gate
  | now (outcome : Except Fault Json)
  | refused (f : Fault)
  deriving Inhabited

/-- Where a task rests: a caller before its request and on its shield, an operation before its work
    and at its gate. -/
inductive CallerPoint where
  | arriving (name key : String) (work : Work)
  | attached
  | beginning (name : String) (work : Work)
  | gated
  deriving Inhabited

/-- A flight with its callers: the names whose work was begun, and the gates by name. -/
structure Callers where
  loop : Loop Json CallerPoint String := {}
  flight : Flight String := {}
  begun : List String := []
  gates : Keyed String PromiseId := .empty
  deriving Inhabited

namespace Callers

/-- Attaches a caller to the operation of its key, starting one if none is running. -/
def request (name key : String) (work : Work) (s : Callers) : Turn CallerPoint Json × Callers :=
  match s.flight.running? s.loop key, work with
  | none, .refused f => (.finish (.error f), s)
  | _, _ =>
    let (outer, flight, loop) := s.flight.attach s.loop key (.beginning name work) key
    (.rest outer .attached, { s with flight, loop })

/-- Continues a task. -/
def resume (point : CallerPoint) (given : Except Fault Json) (s : Callers) :
    Turn CallerPoint Json × Callers :=
  match point, given with
  | .arriving name key work, .ok _ => request name key work s
  | .beginning name work, .ok _ =>
    let s := { s with begun := s.begun ++ [name] }
    match work with
    | .gate =>
      let (gate, loop) := s.loop.promise
      (.rest gate .gated, { s with loop, gates := s.gates.put name gate })
    | .now outcome => (.finish outcome, s)
    | .refused f => (.finish (.error f), s)
  | _, given => (.finish given, s)

/-- What the tasks of a flight with callers do. -/
def program : Program Callers Json CallerPoint String where
  loop := Callers.loop
  withLoop s loop := { s with loop }
  resume _ := resume
  react key operation s := { s with flight := s.flight.forget key operation }

/-- Something done from outside. -/
inductive Event where
  | spawn (name key : String) (work : Work)
  | cancel (task : PromiseId)
  | cancelShared (key : String)
  | resolve (name : String) (outcome : Except Fault Json)
  | inject (key : String) (outcome : Except Fault Json)
  deriving Inhabited

/-- Carries out an event.  The answer is the task that it started, if it started one. -/
def apply (e : Event) (s : Callers) : Option PromiseId × Callers :=
  match e with
  | .spawn name key work =>
    let (t, loop) := s.loop.spawn (.arriving name key work)
    (some t, { s with loop })
  | .cancel task => (none, { s with loop := s.loop.cancelTask task })
  | .cancelShared key =>
    match s.flight.entries.get? key with
    | some operation => (none, { s with loop := s.loop.cancelTask operation })
    | none => (none, s)
  | .resolve name outcome =>
    match s.gates.get? name with
    | some gate => (none, { s with loop := s.loop.settle gate (.ofResult outcome) })
    | none => (none, s)
  | .inject key outcome =>
    let (p, loop) := s.loop.promise
    let loop := loop.settle p (.ofResult outcome)
    (none, { s with loop, flight := { s.flight with entries := s.flight.entries.put key p } })

/-- Serves the loop until nothing is left to do. -/
def settle (s : Callers) : Callers := program.settleAll s

/-- How a task ended, if it did. -/
def outcome? (s : Callers) (t : PromiseId) : Option (Settled Json) := s.loop.outcome? t

end Callers

end SourceTrees.Flight
