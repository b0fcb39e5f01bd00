import SourceTrees.Proofs.Flight.Kept
import SourceTrees.Proofs.Service.Jobs
import SourceTrees.Proofs.Service.Runs
import SourceTrees.Proofs.Service.Stages

/-!
# What can happen to a service, in small steps

A turn of a task is cut into **strides**, each of which changes one thing: it joins or starts a shared
operation, hands in a job, takes a lock, keeps a grammar, and so on.  What keeps an invariant need only
be looked for stride by stride, whatever call makes them and in which order.

## Protocol

* A stride changes the service, the roles of its promises, and what the task has in its hands.
* A stride is made only where the code makes it, and states what the code has looked at before.
* A turn begins when an errand wakes the task, and **ends** as its stage allows.
* Whatever else happens to a service is a **step** of its own.

## Results

* `Service.Stride`, `Service.Ends`, `Service.Step` — the relations.
-/

set_option autoImplicit false

namespace SourceTrees

open Loop

/-- The kinds of fault with which the service says that its requests end: a language that is not
    supported, an engine that cannot be booted, a grammar or a parser that cannot be had, a parse that
    fails. -/
def Fault.Kind.isDeclared : Fault.Kind → Bool
  | unsupported | boot | grammar | parse => true
  | _ => false

/-- The fault that comes out of a boot. -/
def Boot.raised (name : String) (f : Fault) : Fault :=
  if f.kind = .boot then f else if f.kind.isOrdinary then .unbootable name f else f

/-- The fault that comes out of a load. -/
def Grammars.raised (language locator : String) (f : Fault) : Fault :=
  if f.kind.isOrdinary then .unloadable language locator f else f

theorem Boot.kind_raised {name : String} {f : Fault} (h : f.kind.isOrdinary = true) :
    (Boot.raised name f).kind = .boot := by
  unfold Boot.raised
  rw [if_pos h]
  split
  · assumption
  · rfl

/-- A fault that may not be caught comes out of a boot as it is. -/
theorem Boot.raised_of_extraordinary {name : String} {f : Fault} (h : f.kind.isOrdinary = false) :
    Boot.raised name f = f := by
  unfold Boot.raised
  simp [h]

theorem Grammars.kind_raised {language locator : String} {f : Fault} (h : f.kind.isOrdinary = true) :
    (Grammars.raised language locator f).kind = .grammar := by
  rw [Grammars.raised, if_pos h]
  rfl

/-- What is merely counted. -/
inductive Noted where
  | grammarHit
  | poolHit
  | poolMiss
  | skipped
  | parseFailed
  | treeBuilt

/-- The counters after something has been counted. -/
def Counts.note (c : Counts) : Noted → Counts
  | .grammarHit => { c with grammars := { c.grammars with hits := c.grammars.hits + 1 } }
  | .poolHit => { c with parsers := { c.parsers with hits := c.parsers.hits + 1 } }
  | .poolMiss => { c with parsers := { c.parsers with misses := c.parsers.misses + 1 } }
  | .skipped => { c with parses := { c.parses with skipped := c.parses.skipped + 1 } }
  | .parseFailed => { c with parses := { c.parses with failures := c.parses.failures + 1 } }
  | .treeBuilt => { c with parses := { c.parses with built := c.parses.built + 1 } }

/-- The counters after another failed boot or load, if the fault is counted. -/
def Counts.bootFailed (c : Counts) (f : Fault) : Counts :=
  if f.kind.isOrdinary then { c with boot := { c.boot with failures := c.boot.failures + 1 } } else c

/-- The counters after another failed load, if the fault is counted. -/
def Counts.loadFailed (c : Counts) (f : Fault) : Counts :=
  if f.kind.isOrdinary then
    { c with grammars := { c.grammars with failures := c.grammars.failures + 1 } }
  else c

namespace Service

/-- The turn of a task: the task, where it rested, what it meets, and the service as the turn begins. -/
structure Woken where
  task : PromiseId
  stage : Stage
  given : Except Fault Reply
  before : Service

/-- A moment of a turn: the service, the roles of its promises, and what the task has in its hands. -/
structure Midst where
  service : Service
  roles : Roles Hook Job
  grip : Grip

/-- The jobs that are handed in, and what the task has in its hands before and after. -/
inductive Submits (w : Woken) (s : Service) : Grip → Job → Grip → Prop
  | boot : Submits w s .boot (.boot s.config.engineModule) .boot
  | fetch {language engine : String} (hs : w.stage = .fetch (.start language))
      (hk : Grammars.kept? s language = none) (he : s.engine? = .ok engine) :
      Submits w s .free (.grammar engine ((s.config.locators.get? language).getD ""))
        (.fetch language)
  | parse (language : String) (source : List UInt8) :
      Submits w s (.lease language) (.parse (Pool.parserOf s language) source)
        (.job language s.loop.promises.size)
  | copy (language : String) (source : List UInt8) (root : Node) :
      Submits w s .free (.copy language source root) .free

/-- The engine is ready as far as the task can tell. -/
def Woken.SeesReady (w : Woken) (s : Service) : Prop :=
  s.phase = .ready ∨ w.stage.rest = .shield .boot ∧ ∃ r, w.given = .ok r

/-- The task has the grammar of the language from the table, or from the load that it has waited for. -/
def Woken.SeesGrammar (w : Woken) (s : Service) (language : String) (g : Grammar) : Prop :=
  Grammars.kept? s language = some g ∨
    w.stage.rest = .shield (.grammar language) ∧ ∃ r, w.given = .ok r ∧ r.toGrammar = g

/-- The task has made sure that its job is not at work any more: it has looked, or it was not cancelled
    while it waited for the job. -/
def Woken.SeesDone (w : Woken) (s : Service) (language : String) (job : PromiseId) : Prop :=
  s.loop.isPending job = false ∨
    (∃ use source crew, w.stage = .parse use (.running language source crew job)) ∧
      ∀ f, w.given = .error f → f.kind ≠ .cancelled

/-- One stride of a turn. -/
inductive Stride (w : Woken) (m : Midst) : Midst → Prop
  | logged (line : LogLine) :
      Stride w m { m with service := { m.service with log := m.service.log ++ [line] } }
  | counted (n : Noted) :
      Stride w m { m with service := { m.service with counts := m.service.counts.note n } }
  | probed (table : LocatorTable) :
      Stride w m { m with
        service := { m.service with
          world := ((Warmup.availability table).run m.service.world).2 } }
  | leaseNoted (holder : String) (parser : Nat) :
      Stride w m { m with
        service := { m.service with world := m.service.world.note (.leased holder parser) } }
  | bootJoined {op : PromiseId} (hp : m.service.phase ≠ .ready)
      (hr : m.service.bootFlight.running? m.service.loop () = some op) :
      Stride w m { m with
        service := { m.service with
          bootFlight := m.service.bootFlight.join
          loop := (m.service.loop.shield op).2 }
        roles := Function.update m.roles m.service.loop.promises.size (.shield op) }
  | bootLaunched (hp : m.service.phase ≠ .ready)
      (hn : m.service.bootFlight.running? m.service.loop () = none) :
      Stride w m { m with
        service := { m.service with
          bootFlight := m.service.bootFlight.start () m.service.loop.promises.size
          loop := ((m.service.bootFlight.launch m.service.loop () (.boot .start) .boot).2.2.shield
            m.service.loop.promises.size).2 }
        roles := Function.update
          (Function.update m.roles m.service.loop.promises.size (.operation .boot))
          (m.service.loop.promises.size + 1) (.shield m.service.loop.promises.size) }
  | loadJoined (language : String) {op : PromiseId} (hp : w.SeesReady m.service)
      (hr : m.service.grammarFlight.running? m.service.loop language = some op) :
      Stride w m { m with
        service := { m.service with
          grammarFlight := m.service.grammarFlight.join
          loop := (m.service.loop.shield op).2 }
        roles := Function.update m.roles m.service.loop.promises.size (.shield op) }
  | loadLaunched (language : String) (hp : w.SeesReady m.service)
      (hn : m.service.grammarFlight.running? m.service.loop language = none) :
      Stride w m { m with
        service := { m.service with
          grammarFlight := m.service.grammarFlight.start language m.service.loop.promises.size
          loop := ((m.service.grammarFlight.launch m.service.loop language
            (.fetch (.start language)) (.grammar language)).2.2.shield
              m.service.loop.promises.size).2 }
        roles := Function.update
          (Function.update m.roles m.service.loop.promises.size (.operation (.grammar language)))
          (m.service.loop.promises.size + 1) (.shield m.service.loop.promises.size) }
  | submitted (crew : Crew) {job : Job} {grip : Grip}
      (hc : ¬ (crew = .own ∧ m.service.workers.dismissed = true))
      (hg : Submits w m.service m.grip job grip) :
      Stride w m {
        service := Work.handedIn m.service crew job
        roles := Function.update m.roles m.service.loop.promises.size (.job job)
        grip }
  | guarded {language : String} {job : PromiseId} (hg : m.grip = .job language job) :
      Stride w m { m with
        service := { m.service with loop := (m.service.loop.shield job).2 }
        roles := Function.update m.roles m.service.loop.promises.size (.shield job) }
  | waited {language : String} {job : PromiseId} (hg : m.grip = .job language job) :
      Stride w m { m with
        service := { m.service with loop := (m.service.loop.waiter job).2 }
        roles := Function.update m.roles m.service.loop.promises.size (.waiter job) }
  | unsubscribed {use : ParseUse} {language : String} {job waiter : PromiseId} {cancellation : Fault}
      (hs : w.stage = .parse use (.draining language job waiter cancellation)) :
      Stride w m { m with
        service := { m.service with loop := m.service.loop.unsubscribe job (.signal waiter) } }
  | bootBegun (hs : w.stage = .boot .start) (hg : m.grip = .free) :
      Stride w m { m with
        service := { m.service with
          phase := .initializing
          counts := { m.service.counts with
            boot := { m.service.counts.boot with
              operations := m.service.counts.boot.operations + 1 } } }
        grip := .boot }
  | bootTried (hg : m.grip = .boot) :
      Stride w m { m with
        service := { m.service with
          counts := { m.service.counts with
            boot := { m.service.counts.boot with
              attempts := m.service.counts.boot.attempts + 1 } } } }
  | bootTimed (seconds : Float) (hg : m.grip = .boot) :
      Stride w m { m with
        service := { m.service with loop := (m.service.loop.timer seconds).2 }
        roles := Function.update m.roles m.service.loop.promises.size .timer }
  | timerDropped {attempt : Nat} (p : PromiseId) (hs : w.stage = .boot (.pausing attempt (some p))) :
      Stride w m { m with service := { m.service with loop := m.service.loop.dropTimer p } }
  | bootFailed {f : Fault} (hf : w.given = .error f ∨ f = .poolClosed) (hg : m.grip = .boot) :
      Stride w m { m with
        service := { m.service with
          phase := .uninitialized
          counts := m.service.counts.bootFailed f }
        grip := .ended (.error (Boot.raised m.service.config.engineModule f)) }
  | bootReady {r : Reply} {attempt : Nat} (hs : w.stage = .boot (.importing attempt))
      (hr : w.given = .ok r) (hg : m.grip = .boot) :
      Stride w m { m with
        service := { m.service with
          engine := some m.service.config.engineModule
          phase := .ready }
        grip := .ended (.ok .nothing) }
  | bootAbandoned {f : Fault} (hs : w.stage = .boot .start) (hf : w.given = .error f)
      (hg : m.grip = .free) :
      Stride w m { m with grip := .ended (.error f) }
  | fetchKept {language : String} {g : Grammar} (hs : w.stage = .fetch (.start language))
      (hk : Grammars.kept? m.service language = some g) (hg : m.grip = .free) :
      Stride w m { m with grip := .ended (.ok (.grammar g)) }
  | fetchRefused {language : String} {f : Fault} (hs : w.stage = .fetch (.start language))
      (he : m.service.engine? = .error f) (hg : m.grip = .free) :
      Stride w m { m with grip := .ended (.error f) }
  | fetchAbandoned {language : String} {f : Fault} (hs : w.stage = .fetch (.start language))
      (hf : w.given = .error f) (hg : m.grip = .free) :
      Stride w m { m with grip := .ended (.error f) }
  | fetched {language locator : String} {r : Reply}
      (hs : w.stage = .fetch (.fetching language locator)) (hr : w.given = .ok r)
      (hg : m.grip = .fetch language) :
      Stride w m { m with
        service := { m.service with
          grammars := m.service.grammars.put language r.toGrammar
          counts := { m.service.counts with
            grammars := { m.service.counts.grammars with
              loaded := m.service.counts.grammars.loaded + 1 } } }
        grip := .ended (.ok (.grammar r.toGrammar)) }
  | fetchFailed {language locator : String} {f : Fault}
      (hs : w.stage = .fetch (.fetching language locator) ∧ w.given = .error f ∧
          m.grip = .fetch language ∨
        w.stage = .fetch (.start language) ∧ f = .poolClosed ∧ m.grip = .free) :
      Stride w m { m with
        service := { m.service with counts := m.service.counts.loadFailed f }
        grip := .ended (.error (Grammars.raised language locator f)) }
  | parserMade {language engine : String} {g : Grammar} {parser : Nat} {world : World}
      (hn : m.service.pool.contains language = false) (he : m.service.engine? = .ok engine)
      (hb : (Attempt.bindParser engine g).run m.service.world = (.ok parser, world))
      (hk : w.SeesGrammar m.service language g) :
      Stride w m { m with
        service := { m.service with
          world
          pool := m.service.pool.put language { parser }
          counts := { m.service.counts with
            parsers := { m.service.counts.parsers with
              created := m.service.counts.parsers.created + 1 } } } }
  | parserFailed {engine : String} {g : Grammar} {f : Fault} {world : World}
      (hb : (Attempt.bindParser engine g).run m.service.world = (.error f, world)) :
      Stride w m { m with service := { m.service with world } }
  | taken {language : String} {pooled : Pooled} (hg : m.grip = .free)
      (hp : m.service.pool.get? language = some pooled) (hheld : pooled.lock.held = false)
      (hall : ∀ k ∈ pooled.lock.tickets, m.service.loop.isCancelled k = true) :
      Stride w m { m with
        service := { m.service with
          pool := m.service.pool.put language
            { pooled with lock := { pooled.lock with held := true }, leases := pooled.leases + 1 } }
        grip := .lease language }
  | admitted {language : String} {pooled : Pooled} (hg : m.grip = .called language)
      (hp : m.service.pool.get? language = some pooled) :
      Stride w m { m with
        service := { m.service with
          pool := m.service.pool.put language
            { pooled with lock := { pooled.lock with held := true }, leases := pooled.leases + 1 } }
        grip := .lease language }
  | drawn {language : String} {pooled : Pooled} (hg : m.grip = .free)
      (hp : m.service.pool.get? language = some pooled) :
      Stride w m {
        service := { m.service with
          loop := m.service.loop.promise.2
          pool := m.service.pool.put language
            { pooled with
              lock := { pooled.lock with
                tickets := pooled.lock.tickets ++ [m.service.loop.promises.size] } } }
        roles := Function.update m.roles m.service.loop.promises.size (.ticket language)
        grip := .ticket language m.service.loop.promises.size }
  | withdrawn {language : String} {k : PromiseId} {pooled : Pooled}
      (hs : w.stage.rest = .ticket language k) (hg : m.grip = .ticket language k)
      (hp : m.service.pool.get? language = some pooled) :
      Stride w m { m with
        service := { m.service with
          pool := m.service.pool.put language
            { pooled with
              lock := { pooled.lock with tickets := pooled.lock.tickets.filter (· ≠ k) } } }
        grip := match w.given with
          | .ok _ => .called language
          | .error _ => .free }
  | calledNext {language : String} {pooled : Pooled} {k : PromiseId} {ks : List PromiseId}
      (hg : m.grip = .free) (hp : m.service.pool.get? language = some pooled)
      (hheld : pooled.lock.held = false) (hk : pooled.lock.tickets = k :: ks) :
      Stride w m { m with
        service := { m.service with loop := m.service.loop.settle k (.value .nothing) } }
  | released {language : String} {pooled : Pooled}
      (hp : m.service.pool.get? language = some pooled)
      (hg : m.grip = .lease language ∨
        ∃ job, m.grip = .job language job ∧ w.SeesDone m.service language job) :
      Stride w m { m with
        service := { m.service with
          pool := m.service.pool.put language
            { pooled with lock := { pooled.lock with held := false } } }
        grip := .free }
  | gateMade :
      Stride w m { m with
        service := { m.service with loop := m.service.loop.promise.2 }
        roles := Function.update m.roles m.service.loop.promises.size .gate }
  | spawned (call : Call) (hc : ∃ language, call = .getParser language) :
      Stride w m { m with
        service := { m.service with loop := (m.service.loop.spawn (.start call)).2 }
        roles := Function.update m.roles m.service.loop.promises.size .call }
  | grouped {members : List PromiseId} (hm : ∀ t ∈ members, m.roles t = .call) :
      Stride w m { m with
        service := { m.service with loop := (m.service.loop.group members).2 }
        roles := Function.update m.roles m.service.loop.promises.size .group }
  | dismissed :
      Stride w m { m with service := (Work.dismiss m.service).2 }
  | gaveUp :
      Stride w m { m with service := { m.service with holdsWorkers := false } }

/-- Strides one after the other. -/
abbrev Strides (w : Woken) : Midst → Midst → Prop := Relation.ReflTransGen (Stride w)

/-- The turn can end so. -/
def Ends (w : Woken) (m : Midst) : Turn Stage Reply → Prop
  | .rest on point => m.grip = point.grip ∧ point.role = w.stage.role ∧ point.Coherent ∧
      point.rest.Fits m.roles (some on) ∧ w.before.loop.promises.size ≤ on ∧
      on < m.service.loop.promises.size
  | .giveWay point => m.grip = point.grip ∧ point.role = w.stage.role ∧ point.Coherent ∧
      point.rest.Fits m.roles none
  | .finish result => m.grip = .free ∧ w.stage.role = .call ∨ m.grip = .ended result

/-- What a move does. -/
inductive Step (s : Service) (roles : Roles Hook Job) :
    Move → Service → Roles Hook Job → Prop
  | idle (m : Move) (hn : ∀ i, m = .serve i → s.loop.agenda[i]? = none) : Step s roles m s roles
  | carried {i : Nat} {e : Errand Reply Hook} (hi : s.loop.agenda[i]? = some e)
      (hw : e.woken? = none) (hk : ∀ k p, e ≠ .react (.hook k) p) :
      Step s roles (.serve i) { s with loop := Program.Errand.effect e (s.loop.pick i) } roles
  | forgotten {i : Nat} {hook : Hook} {op : PromiseId}
      (hi : s.loop.agenda[i]? = some (.react (.hook hook) op)) :
      Step s roles (.serve i) (Calls.react hook op { s with loop := s.loop.pick i }) roles
  | expired : Step s roles .expire { s with loop := s.loop.expireDue } roles
  | clocked (time : Float) :
      Step s roles (.clock time) { s with loop := { s.loop with now := time } } roles
  | spawned (call : Call) :
      Step s roles (.act (.spawn call)) { s with loop := (s.loop.spawn (.start call)).2 }
        (Function.update roles s.loop.promises.size .call)
  | workedOff {position : Int} {i : Nat} {t : Ticket} (hi : s.workers.queue[i]? = some t) :
      Step s roles (.act (.release position)) (Work.workOff i s).2 roles
  | cancelled {a : Action} (t : PromiseId)
      (ha : a = .cancel t ∨ a = .cancelBoot ∧ s.bootFlight.entries.get? () = some t ∨
        ∃ language, a = .cancelGrammar language ∧ s.grammarFlight.entries.get? language = some t) :
      Step s roles (.act a) { s with loop := s.loop.cancelTask t } roles
  | leaseEnded {t gate : PromiseId} (hg : s.gate? t = some gate) (fault : Option Fault) :
      Step s roles (.act (.endLease t fault))
        { s with
          loop := s.loop.settle gate
            (match fault with | some f => .failed f | none => .value .nothing) } roles
  | turn {i : Nat} {t : PromiseId} {task : Task Stage} {given : Except Fault Reply}
      {turn : Turn Stage Reply} {m : Midst} (hw : s.loop.Wakes i t task given)
      (hst : Strides ⟨t, task.point, Program.met task given, { s with loop := s.loop.pick i }⟩
        ⟨{ s with loop := s.loop.pick i }, roles, task.point.grip⟩ m)
      (hres : Calls.resume task.point (Program.met task given) { s with loop := s.loop.pick i } =
        (turn, m.service))
      (hend : Ends ⟨t, task.point, Program.met task given, { s with loop := s.loop.pick i }⟩ m turn) :
      Step s roles (.serve i)
        { m.service with loop := Program.conclude t turn m.service.loop } m.roles

end Service

end SourceTrees
