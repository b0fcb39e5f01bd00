import SourceTrees.Fault
import SourceTrees.Keyed

/-!
# The loop

Calls run as tasks that take turns.  A task runs without interruption until it rests on a promise;
it goes on when the promise is settled and the loop has come round to it.

## Protocol

* The **agenda** is a queue of errands, served first come, first served.  An errand starts or
  continues a task, or carries out a reaction to a settled promise.
* A **promise** is pending until it is settled once: with a value, with a fault, or by
  cancellation.  Settling it puts its reactions on the agenda in the order in which they were added;
  a reaction added to a settled promise goes on the agenda at once.
* **Cancelling a task** cancels the promise it rests on.  If that promise is settled already, or the
  task does not rest on one, the task is marked instead and meets the cancellation when it next
  runs.  A finished task is not touched.
* A **shield** is a second promise that takes over the outcome of a first one.  Who rests on the
  shield can be cancelled without touching the first.
* A **group** is a promise that is settled when all tasks of a list have finished.  Cancelling it
  cancels the tasks; when they have finished, the group ends in a cancellation.
* A **timer** settles a promise when the clock has come to its time.

A task is data: its `point` says where it rests.  What it does next is given by a `Program`, so that
one loop serves every kind of task.

## Results

* `Loop.settle`, `Loop.subscribe`, `Loop.spawn`, `Loop.cancelTask`, `Loop.shield`, `Loop.group` are
  the operations.
* `Program.turn?` serves one errand; `Program.run` serves errands until there is none.
-/

set_option autoImplicit false

namespace SourceTrees

/-- Names a promise.  A task goes by the name of the promise of its outcome. -/
abbrev PromiseId := Nat

/-- How a promise was settled. -/
inductive Settled (V : Type) where
  | value (v : V)
  | failed (f : Fault)
  | cancelled
  deriving Inhabited

/-- What someone who rests on the promise gets. -/
def Settled.result {V : Type} : Settled V → Except Fault V
  | value v => .ok v
  | failed f => .error f
  | cancelled => .error .cancellation

/-- A promise settled from outside, by a value or a fault. -/
def Settled.ofResult {V : Type} : Except Fault V → Settled V
  | .ok v => value v
  | .error f => failed f

/-- What happens when a promise is settled. -/
inductive Reaction (K : Type) where
  | wake (task : PromiseId)
  | relay (shield : PromiseId)
  | signal (waiter : PromiseId)
  | tally (group : PromiseId)
  | hook (k : K)
  deriving DecidableEq

/-- A promise. -/
inductive Promise (V K : Type) where
  | pending (reactions : List (Reaction K))
  | settled (s : Settled V)
  deriving Inhabited

/-- Something on the agenda. -/
inductive Errand (V K : Type) where
  | step (task : PromiseId)
  | react (r : Reaction K) (source : PromiseId)
  | deliver (target : PromiseId) (outcome : Except Fault V)
  | expire (target : PromiseId)

/-- An unfinished task: where it rests, the promise it rests on, and whether it is to meet a
    cancellation when it next runs. -/
structure Task (P : Type) where
  point : P
  restsOn : Option PromiseId := none
  marked : Bool := false
  deriving Inhabited

/-- An unfinished group: its tasks, how many have not finished, and whether it was cancelled. -/
structure Group where
  members : List PromiseId
  left : Nat
  cancelled : Bool := false
  deriving DecidableEq, Repr, Inhabited

/-- A promise to be settled at a time, in seconds. -/
structure Timer where
  due : Float
  promise : PromiseId
  deriving Inhabited

/-- How a task's turn ends: it rests on a promise, gives way to the others, or finishes. -/
inductive Turn (P α : Type) where
  | rest (on : PromiseId) (point : P)
  | giveWay (point : P)
  | finish (result : Except Fault α)

namespace Turn

variable {P Q α β : Type}

/-- The same turn seen from a caller: the caller rests where the callee rests. -/
def within (wrap : P → Q) : Turn P α → Turn Q α
  | rest on point => rest on (wrap point)
  | giveWay point => giveWay (wrap point)
  | finish result => finish result

end Turn

/-- The state of the loop. -/
structure Loop (V P K : Type) where
  promises : Array (Promise V K) := #[]
  tasks : Keyed PromiseId (Task P) := .empty
  groups : Keyed PromiseId Group := .empty
  agenda : List (Errand V K) := []
  timers : List Timer := []
  now : Float := 0.0

namespace Loop

variable {V P K : Type}

instance : Inhabited (Loop V P K) := ⟨{}⟩

/-! ## Promises -/

/-- Puts an errand at the end of the agenda. -/
def enqueue (l : Loop V P K) (e : Errand V K) : Loop V P K := { l with agenda := l.agenda ++ [e] }

/-- How a promise was settled, if it was. -/
def outcome? (l : Loop V P K) (p : PromiseId) : Option (Settled V) :=
  match l.promises[p]? with
  | some (.settled s) => some s
  | _ => none

/-- Is the promise still open? -/
def isPending (l : Loop V P K) (p : PromiseId) : Bool :=
  match l.promises[p]? with
  | some (.pending _) => true
  | _ => false

/-- Was the promise cancelled? -/
def isCancelled (l : Loop V P K) (p : PromiseId) : Bool :=
  match l.outcome? p with
  | some .cancelled => true
  | _ => false

/-- A new pending promise. -/
def promise (l : Loop V P K) : PromiseId × Loop V P K :=
  (l.promises.size, { l with promises := l.promises.push (.pending []) })

/-- Settles a pending promise and puts its reactions on the agenda. -/
def settle (l : Loop V P K) (p : PromiseId) (s : Settled V) : Loop V P K :=
  match l.promises[p]? with
  | some (.pending reactions) =>
    { l with
      promises := l.promises.setIfInBounds p (.settled s)
      agenda := l.agenda ++ reactions.map (.react · p) }
  | _ => l

/-- Adds a reaction to a promise. -/
def subscribe (l : Loop V P K) (p : PromiseId) (r : Reaction K) : Loop V P K :=
  match l.promises[p]? with
  | some (.pending reactions) =>
    { l with promises := l.promises.setIfInBounds p (.pending (reactions ++ [r])) }
  | some (.settled _) => l.enqueue (.react r p)
  | none => l

/-- Removes a reaction from a pending promise. -/
def unsubscribe [DecidableEq K] (l : Loop V P K) (p : PromiseId) (r : Reaction K) : Loop V P K :=
  match l.promises[p]? with
  | some (.pending reactions) =>
    { l with promises := l.promises.setIfInBounds p (.pending (reactions.filter (· ≠ r))) }
  | _ => l

/-- A promise that takes over the outcome of another one. -/
def shield (l : Loop V P K) (p : PromiseId) : PromiseId × Loop V P K :=
  let (outer, l) := l.promise
  (outer, l.subscribe p (.relay outer))

/-- A promise that is settled when another one is, whatever the outcome. -/
def waiter (l : Loop V P K) (p : PromiseId) : PromiseId × Loop V P K :=
  let (w, l) := l.promise
  (w, l.subscribe p (.signal w))

/-! ## Tasks -/

/-- Starts a task: it first runs when the agenda comes to it. -/
def spawn (l : Loop V P K) (point : P) : PromiseId × Loop V P K :=
  let (t, l) := l.promise
  (t, { l with tasks := l.tasks.put t { point } }.enqueue (.step t))

/-- Where a task is to meet a cancellation. -/
def mark (l : Loop V P K) (t : PromiseId) : Loop V P K :=
  { l with tasks := l.tasks.adjust t ({ · with marked := true }) }

/-- Cancels a task that does not rest on a group.  The answer is whether there was something to
    cancel. -/
def cancelMember (l : Loop V P K) (t : PromiseId) : Bool × Loop V P K :=
  match l.tasks.get? t with
  | none => (false, l)
  | some task =>
    match task.restsOn with
    | some p => if l.isPending p then (true, l.settle p .cancelled) else (true, l.mark t)
    | none => (true, l.mark t)

/-- Cancels tasks one after the other.  The answer is whether there was something to cancel. -/
def cancelMembers (l : Loop V P K) : List PromiseId → Bool × Loop V P K
  | [] => (false, l)
  | t :: ts =>
    let (one, l) := l.cancelMember t
    let (more, l) := l.cancelMembers ts
    (one || more, l)

/-- Cancels a task.  If it rests on an unfinished group the tasks of the group are cancelled. -/
def cancelTask (l : Loop V P K) (t : PromiseId) : Loop V P K :=
  match (l.tasks.get? t).bind (·.restsOn) with
  | none => (l.cancelMember t).2
  | some p =>
    match l.groups.get? p with
    | none => (l.cancelMember t).2
    | some group =>
      let (any, l) := l.cancelMembers group.members
      if any then { l with groups := l.groups.put p { group with cancelled := true } }
      else l.mark t

/-- A promise that is settled when all the tasks have finished. -/
def group (l : Loop V P K) (members : List PromiseId) : PromiseId × Loop V P K :=
  let (g, l) := l.promise
  let l := { l with groups := l.groups.put g { members, left := members.length } }
  (g, members.foldl (fun l t => l.subscribe t (.tally g)) l)

/-! ## Timers -/

/-- A promise that is settled after a time, in seconds. -/
def timer (l : Loop V P K) (seconds : Float) : PromiseId × Loop V P K :=
  let (p, l) := l.promise
  (p, { l with timers := l.timers ++ [⟨l.now + seconds, p⟩] })

/-- Takes away the timer of a promise. -/
def dropTimer (l : Loop V P K) (p : PromiseId) : Loop V P K :=
  { l with timers := l.timers.filter fun t => t.promise ≠ p }

/-- The time of the timer that is due first. -/
def nextDue? (l : Loop V P K) : Option Float :=
  l.timers.foldl (fun best t =>
    match best with
    | some due => if t.due < due then some t.due else best
    | none => some t.due) none

/-- The clock is read with this precision, in seconds. -/
def resolution : Float := 1.0e-9

/-- Puts the timers that are due on the agenda. -/
def expireDue (l : Loop V P K) : Loop V P K :=
  let (due, later) := l.timers.partition fun t => t.due < l.now + resolution
  { l with timers := later, agenda := l.agenda ++ due.map (.expire ·.promise) }

end Loop

/-! ## Programs -/

/-- What the tasks of a loop do.  The loop is a part of a larger state that the tasks work on. -/
structure Program (σ V P K : Type) where
  loop : σ → Loop V P K
  withLoop : σ → Loop V P K → σ
  /-- Continues the given task from its point with what the promise gave it. -/
  resume : PromiseId → P → Except Fault V → σ → Turn P V × σ
  /-- Reacts to a settled promise. -/
  react : K → PromiseId → σ → σ

namespace Program

variable {σ V P K : Type} (prog : Program σ V P K)

/-- Changes the loop. -/
def change (s : σ) (f : Loop V P K → Loop V P K) : σ := prog.withLoop s (f (prog.loop s))

/-- What a task meets: a cancellation if it is marked, else what it was given. -/
def met (task : Task P) (given : Except Fault V) : Except Fault V :=
  match given with
  | .error f => if f.kind ≠ .cancelled ∧ task.marked then .error .cancellation else given
  | .ok _ => if task.marked then .error .cancellation else given

/-- The promise of a finished task.  A cancellation that comes out of a task cancels it. -/
def ended (result : Except Fault V) : Settled V :=
  match result with
  | .ok v => .value v
  | .error f => if f.kind = .cancelled then .cancelled else .failed f

/-- Records how a task's turn ended. -/
def conclude (t : PromiseId) (turn : Turn P V) (l : Loop V P K) : Loop V P K :=
  match turn with
  | .rest on point =>
    { l with tasks := l.tasks.put t { point, restsOn := some on } }.subscribe on (.wake t)
  | .giveWay point => { l with tasks := l.tasks.put t { point } }.enqueue (.step t)
  | .finish result => { l with tasks := l.tasks.erase t }.settle t (ended result)

/-- Gives a task its turn. -/
def stepTask (t : PromiseId) (given : Except Fault V) (s : σ) : σ :=
  match (prog.loop s).tasks.get? t with
  | none => s
  | some task =>
    let (turn, s) := prog.resume t task.point (met task given) s
    prog.change s (conclude t turn)

/-- One task of a group has finished. -/
def tally [Inhabited V] (g : PromiseId) (l : Loop V P K) : Loop V P K :=
  match l.groups.get? g with
  | none => l
  | some group =>
    if group.left ≤ 1 then
      { l with groups := l.groups.erase g }.settle g
        (if group.cancelled then .failed .cancellation else .value default)
    else { l with groups := l.groups.put g { group with left := group.left - 1 } }

/-- Carries out a reaction to a settled promise. -/
def reactTo [Inhabited V] (r : Reaction K) (source : PromiseId) (s : σ) : σ :=
  match r with
  | .wake t =>
    match (prog.loop s).outcome? source with
    | some o => prog.stepTask t o.result s
    | none => s
  | .relay shield =>
    match (prog.loop s).outcome? source with
    | some o => prog.change s (·.settle shield o)
    | none => s
  | .signal waiter => prog.change s (·.settle waiter (.value default))
  | .tally g => prog.change s (tally g)
  | .hook k => prog.react k source s

/-- Serves an errand. -/
def serve [Inhabited V] (e : Errand V K) (s : σ) : σ :=
  match e with
  | .step t => prog.stepTask t (.ok default) s
  | .react r source => prog.reactTo r source s
  | .deliver target outcome => prog.change s (·.settle target (.ofResult outcome))
  | .expire target => prog.change s (·.settle target (.value default))

/-- Serves the first errand; nothing if the agenda is empty and no timer is due. -/
def turn? [Inhabited V] (s : σ) : Option σ :=
  match (prog.loop s).agenda with
  | e :: rest => some (prog.serve e (prog.change s fun l => { l with agenda := rest }))
  | [] =>
    let l := (prog.loop s).expireDue
    match l.agenda with
    | [] => none
    | e :: rest => some (prog.serve e (prog.withLoop s { l with agenda := rest }))

/-- Serves at most so many errands, until there is none. -/
def run [Inhabited V] : Nat → σ → σ
  | 0, s => s
  | fuel + 1, s =>
    match prog.turn? s with
    | some s => run fuel s
    | none => s

/-- More errands than any run that ends by itself has to serve. -/
def patience : Nat := 1000000000

/-- Serves errands until there is none. -/
def settleAll [Inhabited V] (s : σ) : σ := prog.run patience s

end Program

end SourceTrees
