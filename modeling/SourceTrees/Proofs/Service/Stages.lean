import SourceTrees.Service.Calls
import SourceTrees.Proofs.Loop.Roles

/-!
# What the stages of a task say

A stage tells in whose place the task runs, what it rests on, and what it has in its hands.

## Protocol

* The **role** of a task is a call, or the shared operation of a hook.
* A task **rests** on a shield of an operation, on a job, on a ticket of a lock, and so on.
* A task's **grip** is what others have to wait for: the boot, a fetch, a place in the queue of a lock,
  the lock, or the lock with a job at work on the parser.  While a task has its turn its grip changes;
  at the end of the turn it is the grip of the stage where it then rests, or the task has ended.
* A stage is **coherent** if the calls within a call are about the same language.
-/

set_option autoImplicit false

namespace SourceTrees

/-- What a task rests on. -/
inductive Rest where
  | nothing
  | shield (hook : Hook)
  | bootJob
  | grammarJob (locator : String)
  | timer (p : PromiseId)
  | ticket (language : String) (ticket : PromiseId)
  | gate
  | parseJob (job : PromiseId) (source : List UInt8)
  | drained (job waiter : PromiseId)
  | copyJob
  | group

/-- The promise is one of that kind. -/
def Rest.Fits (roles : Roles Hook Job) : Rest → Option PromiseId → Prop
  | nothing, on => on = none
  | shield hook, on => ∃ p op, on = some p ∧ roles p = .shield op ∧ roles op = .operation hook
  | bootJob, on => ∃ p engine, on = some p ∧ roles p = .job (.boot engine)
  | grammarJob locator, on => ∃ p engine, on = some p ∧ roles p = .job (.grammar engine locator)
  | timer p, on => on = some p ∧ roles p = .timer
  | ticket language k, on => on = some k ∧ roles k = .ticket language
  | gate, on => ∃ p, on = some p ∧ roles p = .gate
  | parseJob job source, on => ∃ p parser, on = some p ∧ roles p = .shield job ∧
      roles job = .job (.parse parser source)
  | drained job waiter, on => on = some waiter ∧ roles waiter = .waiter job ∧
      ∃ parser source, roles job = .job (.parse parser source)
  | copyJob, on => ∃ p language source root, on = some p ∧
      roles p = .job (.copy language source root)
  | group, on => ∃ p, on = some p ∧ roles p = .group

theorem Rest.Fits.mono {roles roles' : Roles Hook Job} (hr : Extends roles roles') {rest : Rest}
    {on : Option PromiseId} (h : rest.Fits roles on) : rest.Fits roles' on := by
  cases rest with
  | nothing => exact h
  | shield hook =>
    obtain ⟨p, op, rfl, hp, ho⟩ := h
    exact ⟨p, op, rfl, hr.eq hp (by simp), hr.eq ho (by simp)⟩
  | bootJob =>
    obtain ⟨p, engine, rfl, hp⟩ := h
    exact ⟨p, engine, rfl, hr.eq hp (by simp)⟩
  | grammarJob locator =>
    obtain ⟨p, engine, rfl, hp⟩ := h
    exact ⟨p, engine, rfl, hr.eq hp (by simp)⟩
  | timer p => exact ⟨h.1, hr.eq h.2 (by simp)⟩
  | ticket language k => exact ⟨h.1, hr.eq h.2 (by simp)⟩
  | gate =>
    obtain ⟨p, rfl, hp⟩ := h
    exact ⟨p, rfl, hr.eq hp (by simp)⟩
  | parseJob job source =>
    obtain ⟨p, parser, rfl, hp, hj⟩ := h
    exact ⟨p, parser, rfl, hr.eq hp (by simp), hr.eq hj (by simp)⟩
  | drained job waiter =>
    obtain ⟨rfl, hw, parser, source, hj⟩ := h
    exact ⟨rfl, hr.eq hw (by simp), parser, source, hr.eq hj (by simp)⟩
  | copyJob =>
    obtain ⟨p, language, source, root, rfl, hp⟩ := h
    exact ⟨p, language, source, root, rfl, hr.eq hp (by simp)⟩
  | group =>
    obtain ⟨p, rfl, hp⟩ := h
    exact ⟨p, rfl, hr.eq hp (by simp)⟩

/-- What a task waits for that rests on a promise of the role.  No task rests on a task, and none on a
    parser's job itself. -/
def Rest.Awaits (rest : Rest) (p : PromiseId) : Role Hook Job → Prop
  | .timer => rest = .timer p
  | .job (.boot _) => rest = .bootJob
  | .job (.grammar _ locator) => rest = .grammarJob locator
  | .job (.parse ..) => False
  | .job (.copy ..) => rest = .copyJob
  | .call | .operation _ => False
  | _ => True

theorem Rest.Fits.awaits {roles : Roles Hook Job} {rest : Rest} {p : PromiseId}
    (h : rest.Fits roles (some p)) : rest.Awaits p (roles p) := by
  cases rest with
  | nothing => cases h
  | shield hook =>
    obtain ⟨q, op, he, hp, _⟩ := h
    cases he
    rw [hp]
    trivial
  | bootJob =>
    obtain ⟨q, _, he, hp⟩ := h
    cases he
    rw [hp]
    rfl
  | grammarJob locator =>
    obtain ⟨q, _, he, hp⟩ := h
    cases he
    rw [hp]
    rfl
  | timer q =>
    obtain ⟨he, hp⟩ := h
    cases he
    rw [hp]
    rfl
  | ticket language k =>
    obtain ⟨he, hp⟩ := h
    cases he
    rw [hp]
    trivial
  | gate =>
    obtain ⟨q, he, hp⟩ := h
    cases he
    rw [hp]
    trivial
  | parseJob job source =>
    obtain ⟨q, _, he, hp, _⟩ := h
    cases he
    rw [hp]
    trivial
  | drained job waiter =>
    obtain ⟨he, hp, _⟩ := h
    cases he
    rw [hp]
    trivial
  | copyJob =>
    obtain ⟨q, _, _, _, he, hp⟩ := h
    cases he
    rw [hp]
    rfl
  | group =>
    obtain ⟨q, he, hp⟩ := h
    cases he
    rw [hp]
    trivial

/-- No task rests on the promise of a task. -/
theorem Rest.Fits.isTask_eq_false {roles : Roles Hook Job} {rest : Rest} {p : PromiseId}
    (h : rest.Fits roles (some p)) : (roles p).isTask = false := by
  have ha := h.awaits
  cases hr : roles p <;> rw [hr] at ha <;> first | rfl | exact ha.elim

/-- What a task rests on that rests on a shield: a shared operation, or its parser's job. -/
theorem Rest.Fits.of_shield {roles : Roles Hook Job} {rest : Rest} {p q : PromiseId}
    (h : rest.Fits roles (some p)) (hp : roles p = .shield q) :
    (∃ hook, rest = .shield hook ∧ roles q = .operation hook) ∨
      ∃ parser source, rest = .parseJob q source ∧ roles q = .job (.parse parser source) := by
  have hne : ∀ {p' : PromiseId} {role : Role Hook Job}, some p = some p' → roles p' = role →
      role = .shield q := by
    rintro p' role ⟨⟩ hr
    exact hr.symm.trans hp
  cases rest with
  | nothing => cases h
  | shield hook =>
    obtain ⟨p', op, he, hr, ho⟩ := h
    cases hne he hr
    exact .inl ⟨hook, rfl, ho⟩
  | parseJob job source =>
    obtain ⟨p', parser, he, hr, hj⟩ := h
    cases hne he hr
    exact .inr ⟨parser, source, rfl, hj⟩
  | bootJob =>
    obtain ⟨p', _, he, hr⟩ := h
    cases hne he hr
  | grammarJob locator =>
    obtain ⟨p', _, he, hr⟩ := h
    cases hne he hr
  | timer p' => cases hne h.1 h.2
  | ticket language k => cases hne h.1 h.2
  | gate =>
    obtain ⟨p', he, hr⟩ := h
    cases hne he hr
  | drained job waiter => cases hne h.1 h.2.1
  | copyJob =>
    obtain ⟨p', _, _, _, he, hr⟩ := h
    cases hne he hr
  | group =>
    obtain ⟨p', he, hr⟩ := h
    cases hne he hr

/-- What a task has in its hands. -/
inductive Grip where
  | free
  | boot
  | fetch (language : String)
  | ticket (language : String) (ticket : PromiseId)
  | called (language : String)
  | lease (language : String)
  | job (language : String) (job : PromiseId)
  | ended (result : Except Fault Reply)

/-- What the task has in its hands is of the right kind, and the parser is in the pool. -/
def Grip.Fits (roles : Roles Hook Job) (pool : Keyed String Pooled) : Grip → Prop
  | ticket language k => roles k = .ticket language ∧ pool.contains language = true
  | called language | lease language => pool.contains language = true
  | job language j => (∃ parser source, roles j = .job (.parse parser source)) ∧
      pool.contains language = true
  | _ => True

theorem Grip.Fits.mono {roles roles' : Roles Hook Job} (hr : Extends roles roles')
    {pool pool' : Keyed String Pooled}
    (hp : ∀ language, pool.contains language = true → pool'.contains language = true) {g : Grip}
    (h : g.Fits roles pool) : g.Fits roles' pool' := by
  cases g with
  | ticket language k => exact ⟨hr.eq h.1 (by simp), hp _ h.2⟩
  | called language => exact hp _ h
  | lease language => exact hp _ h
  | job language j =>
    obtain ⟨⟨parser, source, hj⟩, hc⟩ := h
    exact ⟨⟨parser, source, hr.eq hj (by simp)⟩, hp _ hc⟩
  | _ => trivial

/-! ## Requests for grammars, parsers and leases -/

/-- The language of a request for a grammar. -/
def GrammarStage.language : GrammarStage → String
  | booting language | loading language => language

/-- What a request for a grammar waits for. -/
def GrammarStage.hook : GrammarStage → Hook
  | booting _ => .boot
  | loading language => .grammar language

/-- The language of a request for a parser. -/
def PoolStage.language : PoolStage → String
  | grammar language _ => language

/-- What a request for a parser waits for. -/
def PoolStage.hook : PoolStage → Hook
  | grammar _ point => point.hook

/-- The request for a parser asks for the grammar of its language. -/
def PoolStage.Coherent : PoolStage → Prop
  | grammar language point => point.language = language

/-- What a request for a lease rests on. -/
def LeaseStage.rest : LeaseStage → Rest
  | parser point => .shield point.hook
  | lock language k => .ticket language k

/-- What a request for a lease has in its hands. -/
def LeaseStage.grip : LeaseStage → Grip
  | parser _ => .free
  | lock language k => .ticket language k

/-- The request for a lease asks for the parser of its language. -/
def LeaseStage.Coherent : LeaseStage → Prop
  | parser point => point.Coherent
  | lock .. => True

/-! ## Calls -/

/-- What a parse rests on. -/
def ParseStage.rest : ParseStage → Rest
  | booting .. => .shield .boot
  | leasing _ _ _ point => point.rest
  | running _ source _ job => .parseJob job source
  | draining _ job waiter _ => .drained job waiter
  | copying _ => .copyJob

/-- What a parse has in its hands. -/
def ParseStage.grip : ParseStage → Grip
  | leasing _ _ _ point => point.grip
  | running language _ _ job | draining language job _ _ => .job language job
  | _ => .free

/-- The parse borrows the parser of its language. -/
def ParseStage.Coherent : ParseStage → Prop
  | leasing language _ _ point => point.Coherent ∧ Calls.leasedLanguage point = language
  | _ => True

/-- The cancellation that a parse keeps while it waits its job out. -/
def ParseStage.cancellation? : ParseStage → Option Fault
  | draining _ _ _ cancellation => some cancellation
  | _ => none

/-- What a warm-up rests on. -/
def WarmStage.rest : WarmStage → Rest
  | booting _ => .shield .boot
  | gathering .. => .group

/-- The tasks that a warm-up waits for. -/
def WarmStage.members : WarmStage → List PromiseId
  | booting _ => []
  | gathering _ members => members

namespace Stage

/-- The role of a task. -/
def role : Stage → Role Hook Job
  | boot _ => .operation .boot
  | fetch (.start language) | fetch (.fetching language _) => .operation (.grammar language)
  | _ => .call

/-- What a task rests on. -/
def rest : Stage → Rest
  | start _ | boot .start | boot (.pausing _ none) | fetch (.start _) => .nothing
  | boot (.importing _) => .bootJob
  | boot (.pausing _ (some p)) => .timer p
  | fetch (.fetching _ locator) => .grammarJob locator
  | init => .shield .boot
  | grammar point => .shield point.hook
  | parser point => .shield point.hook
  | lease _ point => point.rest
  | holding .. => .gate
  | parse _ point => point.rest
  | warm point | enter point => point.rest

/-- What a task has in its hands. -/
def grip : Stage → Grip
  | boot (.importing _) | boot (.pausing ..) => .boot
  | fetch (.fetching language _) => .fetch language
  | lease _ point => point.grip
  | holding language _ => .lease language
  | parse _ point => point.grip
  | _ => .free

/-- The calls within a call are about the same language. -/
def Coherent : Stage → Prop
  | parser point => point.Coherent
  | lease _ point => point.Coherent
  | parse _ point => point.Coherent
  | _ => True

/-- Only a boot waits for an engine, or for a while. -/
theorem exists_boot {stage : Stage} (h : stage.rest = .bootJob ∨ ∃ p, stage.rest = .timer p) :
    ∃ point, stage = .boot point := by
  rcases stage with call | point | (_ | _) | _ | (_ | _) | ⟨_, _ | _⟩ | ⟨_, ⟨_, _ | _⟩ | _⟩ | _ |
    ⟨_, _ | ⟨_, _, _, ⟨_, _ | _⟩ | _⟩ | _ | _ | _⟩ | (_ | _) | (_ | _)
  case boot => exact ⟨point, rfl⟩
  all_goals simp [rest, LeaseStage.rest, ParseStage.rest, WarmStage.rest, PoolStage.hook] at h

/-- Only a load waits for a grammar to be fetched. -/
theorem exists_fetch {stage : Stage} {locator : String} (h : stage.rest = .grammarJob locator) :
    ∃ language, stage = .fetch (.fetching language locator) := by
  rcases stage with call | (_ | _ | ⟨_, _ | _⟩) | (_ | _) | _ | (_ | _) | ⟨_, _ | _⟩ | ⟨_, ⟨_, _ | _⟩ | _⟩ | _ |
    ⟨_, _ | ⟨_, _, _, ⟨_, _ | _⟩ | _⟩ | _ | _ | _⟩ | (_ | _) | (_ | _)
  all_goals simp [rest, LeaseStage.rest, ParseStage.rest, WarmStage.rest, PoolStage.hook] at h
  case fetch.fetching language l => exact ⟨language, h ▸ rfl⟩

/-- Only a boot runs in the place of one. -/
theorem exists_of_role_boot {stage : Stage} (h : stage.role = .operation .boot) :
    ∃ point, stage = .boot point := by
  rcases stage with _ | point | (_ | _) | _ | _ | _ | _ | _ | _ | _ | _
  case boot => exact ⟨point, rfl⟩
  all_goals simp [role] at h

/-- Only a load runs in the place of one. -/
theorem exists_of_role_grammar {stage : Stage} {language : String}
    (h : stage.role = .operation (.grammar language)) : ∃ point, stage = .fetch point := by
  rcases stage with _ | _ | point | _ | _ | _ | _ | _ | _ | _ | _
  case fetch => exact ⟨point, rfl⟩
  all_goals simp [role] at h

theorem role_isTask (stage : Stage) : stage.role.isTask = true := by
  rcases stage with _ | _ | (_ | _) | _ | _ | _ | _ | _ | _ | _ | _ <;> rfl

end Stage

end SourceTrees
