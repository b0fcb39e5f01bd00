import SourceTrees.Engine.Build
import SourceTrees.Service.State

/-!
# Work for the workers

Blocking work is handed to the workers as a job and gives a promise.  Eager workers do a job when it
comes; others queue it until they are told to do it.  Either way the promise is settled by an errand,
so that who waits for it goes on in its turn.

* `Work.submit` hands a job in; dismissed workers take no more.
* `Work.workOff` does a queued job.
* `Work.dismiss` has the service's own workers finish their queue and dismisses them.
-/

set_option autoImplicit false

namespace SourceTrees

namespace Work

/-- A tried value as a reply. -/
def reply {α : Type} (f : α → Reply) (result : Except Fault α) : Except Fault Reply :=
  match result with
  | .ok a => .ok (f a)
  | .error e => .error e

/-- Does a job. -/
def perform : Job → Work (Except Fault Reply)
  | .boot engine => return reply (fun _ => .engine engine) (← attempt (.loadEngine engine))
  | .grammar engine locator => return reply .grammar (← attempt (.fetchGrammar engine locator))
  | .parse parser source => return reply .engineTree (← attempt (.parse parser source))
  | .copy language source root => return .ok (.tree (.ofEngine language source root))

/-- Hands a job to workers.  The answer is the promise of its outcome. -/
def submit (crew : Crew) (job : Job) : Work (Except Fault PromiseId) := do
  let workers := (← get).workers
  if crew = .own && workers.dismissed then return .error .poolClosed
  if workers.eager then do
    let outcome ← perform job
    let p ← onLoop (·.promise)
    changeLoop (·.enqueue (.deliver p outcome))
    return .ok p
  else do
    let p ← onLoop (·.promise)
    modify fun s => { s with workers := { s.workers with queue := s.workers.queue ++ [⟨crew, job, p⟩] } }
    return .ok p

/-- Does the job of a ticket that has left the queue. -/
def performTicket (t : Ticket) : Work Unit := do
  let outcome ← perform t.job
  changeLoop (·.enqueue (.deliver t.promise outcome))

/-- Does the job at a position of the queue; nothing if there is none. -/
def workOff (position : Nat) : Work Unit := do
  let s ← get
  match s.workers.queue[position]? with
  | none => return
  | some t => do
    set { s with workers := { s.workers with queue := s.workers.queue.eraseIdx position } }
    performTicket t

/-- Has the service's own workers do their queued jobs in order, and dismisses them.  Dismissing them
    may fail; then it was merely tried. -/
def dismiss : Work (Except Fault Unit) := do
  modify fun s => { s with workers := { s.workers with dismissals := s.workers.dismissals + 1 } }
  let s ← get
  match s.workers.stuck with
  | some f => return .error f
  | none => do
    let (own, others) := s.workers.queue.partition fun t => t.crew = .own
    set { s with workers := { s.workers with queue := others, dismissed := true } }
    own.forM performTicket
    return .ok ()

/-- Closes the service: its own workers are dismissed and given up.  A failure to dismiss them is
    logged, and they are kept. -/
def close : Work (Except Fault Unit) := do
  unless (← get).holdsWorkers do return .ok ()
  match ← dismiss with
  | .ok _ => do
    modify fun s => { s with holdsWorkers := false }
    log (.info "ThreadPoolExecutor shutdown completed")
    return .ok ()
  | .error f =>
    if f.kind.isOrdinary then do
      log (.error ("Error shutting down ThreadPoolExecutor: " ++ f.message))
      return .ok ()
    else return .error f

end Work

end SourceTrees
