import SourceTrees.Proofs.Service.CallStages
import SourceTrees.Proofs.Service.Holders
import SourceTrees.Proofs.Service.ParseFaults
import SourceTrees.Proofs.Service.Underway

/-!
# No call waits in vain

Calls wait for shared operations, for locks that others hold while a job is at work, and for jobs.  Whatever
has come before, there is always something that can happen as long as a call is unfinished: the loop has an
errand to serve, a job waits for a worker, or a boot waits for its next attempt.

## Protocol

* A call is **plain** if it waits for nothing else.  A lease is ended from outside, and a warm-up waits for
  other calls; every other call is plain.
* Where there is no errand to serve, every promise is settled that could have been.  Then a task waits for
  an operation that is unfinished, for a job that is not done, or with a ticket for a lock that is held.

## Results

* `Service.Going` — the service can go on.
* `Service.Waiting.going` — where there is no errand to serve, an unfinished task waits for a job, or for
  the next attempt of a boot.
* **`Service.goes_on`** — in every run of plain calls, as long as a call is unfinished the service can go
  on.
-/

set_option autoImplicit false

namespace SourceTrees

open Loop

/-! ## Plain calls -/

/-- The call waits for nothing but shared operations, locks and jobs. -/
def Call.isPlain : Call → Bool
  | lease .. | warm _ | enter => false
  | _ => true

/-- Where plain calls and shared operations rest. -/
def Stage.isPlain : Stage → Bool
  | start call => call.isPlain
  | lease .. | holding .. | warm _ | enter _ => false
  | _ => true

namespace Stage

variable {stage : Stage} {language : String} {k job : PromiseId}

/-- A task that has a ticket in hand rests on it. -/
theorem rests_of_ticket (h : stage.grip = .ticket language k) : stage.rest = .ticket language k := by
  cases stage with
  | lease holder point =>
    cases point <;> cases h
    rfl
  | parse use point =>
    cases point with
    | leasing name source crew point =>
      cases point <;> cases h
      rfl
    | _ => cases h
  | boot point => cases point <;> cases h
  | fetch point => cases point <;> cases h
  | _ => cases h

/-- A task that rests on a ticket has it in hand. -/
theorem grip_of_ticket (h : stage.rest = .ticket language k) : stage.grip = .ticket language k := by
  cases stage with
  | lease holder point =>
    cases point <;> cases h
    rfl
  | parse use point =>
    cases point with
    | leasing name source crew point =>
      cases point <;> cases h
      rfl
    | _ => cases h
  | boot point =>
    cases point with
    | pausing attempt timer => cases timer <;> cases h
    | _ => cases h
  | fetch point => cases point <;> cases h
  | warm point | enter point => cases point <;> cases h
  | _ => cases h

/-- At a plain stage no task waits for the end of a lease, or for other calls. -/
theorem rest_of_isPlain (h : stage.isPlain = true) : stage.rest ≠ .gate ∧ stage.rest ≠ .group := by
  cases stage with
  | lease | holding | warm | enter => cases h
  | parse use point =>
    cases point with
    | leasing name source crew point => cases point <;> exact ⟨nofun, nofun⟩
    | _ => exact ⟨nofun, nofun⟩
  | boot point =>
    cases point with
    | pausing attempt timer => cases timer <;> exact ⟨nofun, nofun⟩
    | _ => exact ⟨nofun, nofun⟩
  | fetch point => cases point <;> exact ⟨nofun, nofun⟩
  | _ => exact ⟨nofun, nofun⟩

/-- Only the holder of a lease has a lock in hand for itself. -/
theorem holds_of_lease (h : stage.grip = .lease language) : ∃ parser, stage = .holding language parser := by
  cases stage with
  | holding l parser =>
    cases h
    exact ⟨parser, rfl⟩
  | lease holder point => cases point <;> cases h
  | parse use point =>
    cases point with
    | leasing name source crew point => cases point <;> cases h
    | _ => cases h
  | boot point => cases point <;> cases h
  | fetch point => cases point <;> cases h
  | _ => cases h

/-- A task that has a job in hand rests on a shield of it, or waits it out. -/
theorem rests_of_job (h : stage.grip = .job language job) :
    (∃ source, stage.rest = .parseJob job source) ∨ ∃ waiter, stage.rest = .drained job waiter := by
  cases stage with
  | lease holder point => cases point <;> cases h
  | parse use point =>
    cases point with
    | leasing name source crew point => cases point <;> cases h
    | running name source crew j =>
      cases h
      exact .inl ⟨source, rfl⟩
    | draining name j waiter cancellation =>
      cases h
      exact .inr ⟨waiter, rfl⟩
    | _ => cases h
  | boot point => cases point <;> cases h
  | fetch point => cases point <;> cases h
  | _ => cases h

end Stage

/-- Where plain calls may rest is plain. -/
theorem Stage.Suits.isPlain {call : Call} {stage : Stage} (h : stage.Suits call)
    (hc : call.isPlain = true) : stage.isPlain = true := by
  cases stage with
  | start call' =>
    obtain rfl : call' = call := h
    exact hc
  | lease | holding =>
    obtain ⟨_, _, rfl⟩ := h
    cases hc
  | warm =>
    obtain ⟨_, rfl⟩ := h
    cases hc
  | enter =>
    obtain rfl : call = .enter := h
    cases hc
  | _ => rfl

namespace Service

variable {s s' : Service} {roles roles' : Roles Hook Job} {w : Woken} {m m' : Midst} {mv : Service.Move}
  {ms : List Service.Move} {t c p op : PromiseId} {point : Stage} {on : Option PromiseId} {hook : Hook}
  {language : String}

/-! ## Runs of plain calls -/

/-- The move begins no call that is not plain. -/
def BeginsPlain (_ : Service) : Service.Move → Prop
  | .act (.spawn call) => call.isPlain = true
  | _ => True

instance (s : Service) : ∀ mv : Service.Move, Decidable (BeginsPlain s mv)
  | .act (.spawn call) => inferInstanceAs (Decidable (call.isPlain = true))
  | .act (.release _) | .act (.cancel _) | .act (.endLease ..) | .act .cancelBoot
  | .act (.cancelGrammar _) | .serve _ | .expire | .clock _ => isTrue trivial

/-- All unfinished tasks rest at plain stages. -/
def AllPlain (s : Service) : Prop :=
  ∀ t point on, s.loop.place? t = some (point, on) → point.isPlain = true

/-- In a run of plain calls all tasks rest at plain stages. -/
theorem CallsBegun.allPlain (h : CallsBegun s ms) (hplain : Along BeginsPlain s ms) :
    AllPlain (s.moves ms) := by
  intro t point on hp
  by_cases hr : point.role = .call
  · obtain ⟨call, hbegun | ⟨l, rfl⟩, hsuits⟩ := h.suits hp hr
    · obtain ⟨before, after, rfl, _⟩ := hbegun
      exact hsuits.isPlain ((along_append ..).1 hplain).2.1
    · exact hsuits.isPlain rfl
  · cases point with
    | boot | fetch => rfl
    | _ => exact absurd rfl hr

/-! ## What everybody waits for -/

/-- What is known of everybody who waits, and of what is waited for. -/
structure Waiting (s : Service) (roles : Roles Hook Job) : Prop where
  locked : Locked none s roles s.gripAt
  attributed : Attributed s s.gripAt
  hands : s.HandsOver
  underway : Underway s roles

namespace Waiting

theorem opened (config : Config) (world : World) (eager : Bool) (stuck : Option Fault)
    (log : List LogLine) : Waiting (Service.opened config world eager stuck log) fun _ => .unused where
  locked := by
    rw [gripAt_opened]
    exact .opened config world eager stuck log
  attributed := .opened config world eager stuck log
  hands := .opened config world eager stuck log
  underway := .opened config world eager stuck log

theorem step (h : Waiting s roles) (ho : AtRest s roles) (hst : Step s roles mv s' roles') :
    Waiting s' roles' where
  locked := h.locked.step ho hst
  attributed := h.attributed.step ho hst
  hands := h.hands.step ho hst
  underway := h.underway.step ho hst

end Waiting

/-- A boot waits for its next attempt. -/
def BootPauses (s : Service) : Prop :=
  ∃ timer ∈ s.loop.timers, ∃ t attempt,
    s.loop.place? t = some (.boot (.pausing attempt (some timer.promise)), some timer.promise)

/-- The service can go on: there is an errand to serve, a job waits for a worker, or a boot waits for its
    next attempt. -/
inductive Going (s : Service) : Prop
  | errand (h : s.loop.agenda ≠ [])
  | job (h : s.workers.queue ≠ [])
  | pause (h : s.BootPauses)

section

variable (h : Waiting s roles) (ho : AtRest s roles) (hagenda : s.loop.agenda = [])

include hagenda

/-- Where there is no errand to serve, a job that is not done waits for a worker. -/
theorem Waiting.queued (h : Waiting s roles) {j : Job} (hj : roles p = .job j)
    (hp : s.loop.isPending p = true) : ∃ k ∈ s.workers.queue, k.promise = p := by
  rcases h.underway.job hj hp with hk | ⟨x, hx⟩
  · exact hk
  · rw [hagenda] at hx
    cases hx

include ho

/-- Where there is no errand to serve, a task rests on a promise that is open. -/
theorem Ordered.rests_open (hp : s.loop.place? t = some (point, on)) :
    ∃ p, on = some p ∧ s.loop.isPending p = true ∧ point.rest.Fits roles (some p) := by
  cases on with
  | none =>
    obtain ⟨task, hget, _, hon⟩ := place?_eq_some_iff.1 hp
    have hstep := ho.sound.tended.ready nofun hget hon
    rw [hagenda] at hstep
    cases hstep
  | some p =>
    obtain ⟨task, hget, _, hon⟩ := place?_eq_some_iff.1 hp
    exact ⟨p, rfl, (ho.sound.tended.resting nofun hget hon).2.isPending hagenda, (ho.placed hp).rest⟩

include h

/-- An unfinished operation waits for a job, or for the next attempt. -/
theorem Waiting.operation (hop : roles op = .operation hook) (hp : s.loop.isPending op = true) :
    s.workers.queue ≠ [] ∨ s.BootPauses := by
  have hqueue : ∀ {p j}, roles p = .job j → s.loop.isPending p = true → s.workers.queue ≠ [] :=
    fun hj hp he => by
      obtain ⟨k, hk, _⟩ := h.queued hagenda hj hp
      rw [he] at hk
      cases hk
  obtain ⟨point, on, hplace⟩ := ho.exists_place? (by rw [hop]; rfl) hp
  obtain ⟨p, rfl, hopen, hfits⟩ := ho.rests_open hagenda hplace
  have hrole := (ho.placed hplace).role
  rw [hop] at hrole
  cases hook with
  | boot =>
    obtain ⟨point, rfl⟩ := Stage.exists_of_role_boot hrole.symm
    cases point with
    | start => cases hfits
    | importing attempt =>
      obtain ⟨p', engine, he, hj⟩ := hfits
      cases he
      exact .inl (hqueue hj hopen)
    | pausing attempt timer =>
      cases timer with
      | none => cases hfits
      | some p' =>
        obtain ⟨he, htimer⟩ := hfits
        cases he
        rcases h.underway.timer htimer hopen with ⟨x, hx, rfl⟩ | hx
        · exact .inr ⟨x, hx, op, attempt, hplace⟩
        · rw [hagenda] at hx
          cases hx
  | grammar language =>
    obtain ⟨point, rfl⟩ := Stage.exists_of_role_grammar hrole.symm
    cases point with
    | start l => cases hfits
    | fetching l locator =>
      obtain ⟨p', engine, he, hj⟩ := hfits
      cases he
      exact .inl (hqueue hj hopen)

/-- Who has a job in hand waits for a worker to do it. -/
theorem Waiting.inHand {job : PromiseId} (hg : s.gripAt t = .job language job) :
    ∃ k ∈ s.workers.queue, k.promise = job := by
  obtain ⟨point, on, hplace, hpoint⟩ := exists_place?_of_gripAt (t := t) (by rw [hg]; simp)
  obtain ⟨p, rfl, hopen, hfits⟩ := ho.rests_open hagenda hplace
  rcases point.rests_of_job (hpoint.symm.trans hg) with ⟨source, hr⟩ | ⟨waiter, hr⟩
  · rw [hr] at hfits
    obtain ⟨p', parser, he, hshield, hj⟩ := hfits
    cases he
    exact h.queued hagenda hj ((ho.sound.assigned.relayed hshield hopen).isPending hagenda)
  · rw [hr] at hfits
    obtain ⟨he, hwaiter, parser, source, hj⟩ := hfits
    cases he
    exact h.queued hagenda hj ((ho.sound.assigned.signalled hwaiter hopen).isPending hagenda)

/-- Who waits for a lock waits for somebody who holds it. -/
theorem Waiting.lockHeld {k : PromiseId} (hg : s.gripAt t = .ticket language k) :
    ∃ t', s.Inside t' language := by
  have hfits := ho.gripAt_fits t
  rw [hg] at hfits
  obtain ⟨pooled, hpool⟩ := exists_pooled hfits.2
  cases hheld : pooled.lock.held with
  | true =>
    obtain ⟨t', ht'⟩ := h.attributed.holder hpool hheld
    exact ⟨t', ht'⟩
  | false =>
    -- The first who waits has been called or cancelled, and would be woken.
    have hk := h.locked.waiting hg hpool
    obtain ⟨first, rest, htickets⟩ := List.exists_cons_of_ne_nil (List.ne_nil_of_mem hk)
    have hsettled := (h.hands.awake hpool).called hheld first (by rw [htickets]; rfl)
    obtain ⟨t', hg'⟩ := h.attributed.owner hpool (htickets ▸ List.mem_cons_self (a := first))
    obtain ⟨point, on, hplace, hpoint⟩ := exists_place?_of_gripAt (t := t') (by rw [hg']; simp)
    obtain ⟨p, rfl, hopen, hrest⟩ := ho.rests_open hagenda hplace
    rw [Stage.rests_of_ticket (hpoint.symm.trans hg')] at hrest
    cases hrest.1
    exact absurd (hopen.symm.trans hsettled) (by decide)

/-- **Where there is no errand to serve, an unfinished task waits for a job that is not done, or for the
    next attempt of a boot.** -/
theorem Waiting.going (hplain : s.AllPlain) (hp : s.loop.place? t = some (point, on)) :
    s.workers.queue ≠ [] ∨ s.BootPauses := by
  obtain ⟨p, rfl, hopen, hfits⟩ := ho.rests_open hagenda hp
  have hqueue : ∀ {p j}, roles p = .job j → s.loop.isPending p = true → s.workers.queue ≠ [] :=
    fun hj hp => by
      obtain ⟨k, hk, _⟩ := h.queued hagenda hj hp
      exact List.ne_nil_of_mem hk
  have hinHand : ∀ {t l j}, s.gripAt t = .job l j → s.workers.queue ≠ [] := fun hg => by
    obtain ⟨k, hk, _⟩ := h.inHand ho hagenda hg
    exact List.ne_nil_of_mem hk
  have hboot : ∀ {stage}, point = .boot stage → s.workers.queue ≠ [] ∨ s.BootPauses := by
    rintro stage rfl
    exact h.operation ho hagenda (ho.placed hp).role (ho.isPending_of_place? hp)
  cases hr : point.rest with
  | nothing =>
    rw [hr] at hfits
    cases hfits
  | shield hook =>
    rw [hr] at hfits
    obtain ⟨p', op, he, hshield, hop⟩ := hfits
    cases he
    exact h.operation ho hagenda hop ((ho.sound.assigned.relayed hshield hopen).isPending hagenda)
  | bootJob =>
    obtain ⟨stage, he⟩ := Stage.exists_boot (.inl hr)
    exact hboot he
  | timer q =>
    obtain ⟨stage, he⟩ := Stage.exists_boot (.inr ⟨q, hr⟩)
    exact hboot he
  | grammarJob locator =>
    rw [hr] at hfits
    obtain ⟨p', engine, he, hj⟩ := hfits
    cases he
    exact .inl (hqueue hj hopen)
  | ticket language k =>
    obtain ⟨t', hin⟩ := h.lockHeld ho hagenda ((gripAt_of_place? hp).trans (Stage.grip_of_ticket hr))
    refine .inl ?_
    cases hg : s.gripAt t' with
    | job l j => exact hinHand hg
    | lease l =>
      obtain ⟨point', on', hplace, hpoint⟩ := exists_place?_of_gripAt (t := t') (by rw [hg]; simp)
      obtain ⟨parser, rfl⟩ := Stage.holds_of_lease (hpoint.symm.trans hg)
      cases hplain t' _ on' hplace
    | _ => simp [Inside, hg, Grip.Holds] at hin
  | gate => exact absurd hr (Stage.rest_of_isPlain (hplain t point _ hp)).1
  | group => exact absurd hr (Stage.rest_of_isPlain (hplain t point _ hp)).2
  | parseJob job source =>
    rw [hr] at hfits
    obtain ⟨p', parser, he, hshield, hj⟩ := hfits
    cases he
    exact .inl (hqueue hj ((ho.sound.assigned.relayed hshield hopen).isPending hagenda))
  | drained job waiter =>
    rw [hr] at hfits
    obtain ⟨he, hwaiter, parser, source, hj⟩ := hfits
    cases he
    exact .inl (hqueue hj ((ho.sound.assigned.signalled hwaiter hopen).isPending hagenda))
  | copyJob =>
    rw [hr] at hfits
    obtain ⟨p', language, source, root, he, hj⟩ := hfits
    cases he
    exact .inl (hqueue hj hopen)

end

/-- Nothing is asked of a call but that it has begun: it rests somewhere until it has ended. -/
theorem keeps_waiting (c : PromiseId) :
    Keeps (fun _ _ => True) Waiting c (fun _ _ => True) fun _ _ => True where
  step ho _ _ h hst := h.step ho hst
  turn {_ _ _ _ _ turn} _ _ _ _ _ _ _ := by cases turn <;> trivial
  stay _ _ _ _ := id
  keep _ _ _ _ := id

/-- A plain call among plain calls has ended, or the service can go on. -/
theorem ended_or_going (config : Config) (world : World) (eager : Bool) (stuck : Option Fault)
    (log : List LogLine) {ms : List Service.Move} {call : Call} {c : PromiseId}
    (hplain : Along BeginsPlain (opened config world eager stuck log) ms)
    (hc : Began (opened config world eager stuck log) ms call c) :
    (∃ o, ((opened config world eager stuck log).moves ms).loop.outcome? c = some o) ∨
      Going ((opened config world eager stuck log).moves ms) := by
  have hrest : AtRest (opened config world eager stuck log) fun _ => .unused :=
    (Ordered.opened config world eager stuck log).rest
  have hallPlain := (CallsBegun.of_run config world eager stuck log ms).allPlain hplain
  obtain ⟨roles, ho, hwaiting, hbecomes⟩ :=
    exists_becomes (keeps_waiting c) (fun _ => trivial) hrest (along_of_forall (fun _ _ => trivial) ms)
      (.opened ..) hc
  rcases hbecomes with ⟨point, on, hp, _⟩ | ⟨o, hout, _⟩
  · right
    by_cases hagenda : ((opened config world eager stuck log).moves ms).loop.agenda = []
    · rcases hwaiting.going ho hagenda hallPlain hp with hqueue | hpauses
      · exact .job hqueue
      · exact .pause hpauses
    · exact .errand hagenda
  · exact .inl ⟨o, hout⟩

/-- **As long as a call is unfinished the service can go on.** -/
theorem goes_on (config : Config) (world : World) (eager : Bool) (stuck : Option Fault)
    (log : List LogLine) {ms : List Service.Move} {call : Call} {c : PromiseId}
    (hplain : Along BeginsPlain (opened config world eager stuck log) ms)
    (hc : Began (opened config world eager stuck log) ms call c)
    (hopen : ((opened config world eager stuck log).moves ms).isFinished c = false) :
    Going ((opened config world eager stuck log).moves ms) := by
  refine (ended_or_going config world eager stuck log hplain hc).resolve_left ?_
  rintro ⟨o, hout⟩
  rw [isFinished, isPending_of_outcome? hout] at hopen
  cases hopen

/-- A parse is cancelled while its job is with the workers; another one waits for the lock. -/
def cancelledWithLock : List Service.Move :=
  .act (.spawn (.parse (.text "x = 1") (.str "python"))) :: List.replicate 4 (.serve 0) ++
    .act (.release 0) :: List.replicate 8 (.serve 0) ++
    .act (.release 0) :: List.replicate 8 (.serve 0) ++
    .act (.spawn (.parse (.text "x = 1") (.str "python"))) :: List.replicate 4 (.serve 0) ++
    .act (.cancel 0) :: List.replicate 4 (.serve 0)

/-- The loop has nothing to serve, and neither parse has ended: the workers have a job to do. -/
theorem goes_on_cancelled_with_lock :
    ((opened {} singleLanguage false none []).moves cancelledWithLock).loop.agenda.isEmpty = true ∧
      ((opened {} singleLanguage false none []).moves cancelledWithLock).isFinished 0 = false ∧
      ((opened {} singleLanguage false none []).moves cancelledWithLock).isFinished 9 = false ∧
      Going ((opened {} singleLanguage false none []).moves cancelledWithLock) := by
  have hplain : Along BeginsPlain (opened {} singleLanguage false none []) cancelledWithLock := by
    decide +kernel
  have hc : Began (opened {} singleLanguage false none []) cancelledWithLock
      (.parse (.text "x = 1") (.str "python")) 9 :=
    ⟨cancelledWithLock.take 23, cancelledWithLock.drop 24, rfl, by decide +kernel⟩
  have hopen : ((opened {} singleLanguage false none []).moves cancelledWithLock).isFinished 9 = false := by
    decide +kernel
  exact ⟨by decide +kernel, by decide +kernel, hopen, goes_on {} singleLanguage false none [] hplain hc hopen⟩

end Service

end SourceTrees
