import SourceTrees.Proofs.Engine.Worlds
import SourceTrees.Proofs.Service.Course

/-!
# What promises are settled with

In a world that raises ordinary faults only, every promise is settled as its role lets expect, as long as
shared operations are not cancelled: an operation with a value or a fault that it declares, a copy with a
tree, any other job with a value or an ordinary fault.

## Results

* `Service.leads_operation` — with which faults a shared operation ends.
* `Service.EndsWell`, `Service.EndsWell.step` — the invariant.
* `Service.WorksWell`, `Service.WorksWell.step` — what is left of it where operations are cancelled.
-/

set_option autoImplicit false

namespace SourceTrees

/-- The fault that a promise is settled with, if it is settled with one. -/
def Settled.fault? {V : Type} : Settled V → Option Fault
  | .failed f => some f
  | _ => none

theorem Settled.eq_failed_of_fault? {V : Type} {o : Settled V} {f : Fault} (h : o.fault? = some f) :
    o = .failed f := by
  cases o <;> cases h
  rfl

/-- A tree is returned. -/
def Settled.isTree : Settled Reply → Bool
  | .value (.tree _) => true
  | _ => false

theorem Settled.exists_tree {o : Settled Reply} (h : o.isTree = true) : ∃ t, o = .value (.tree t) := by
  cases o with
  | value v =>
    cases v with
    | tree t => exact ⟨t, rfl⟩
    | _ => cases h
  | _ => cases h

/-- A copy is a tree, and every other job raises ordinary faults only. -/
def Job.EndsWell : Job → Except Fault Reply → Prop
  | .copy .., x => ∃ t, x = .ok (.tree t)
  | _, x => ∀ f, x = .error f → f.kind.isOrdinary = true

/-- The kinds of fault with which the operation says that it ends. -/
def Hook.declares : Hook → Fault.Kind → Bool
  | .boot, k => k = .boot
  | .grammar _, k => k.isDeclared

theorem Hook.isDeclared_of_declares {hook : Hook} {k : Fault.Kind} (h : hook.declares k = true) :
    k.isDeclared = true := by
  cases hook with
  | boot =>
    obtain rfl := of_decide_eq_true h
    rfl
  | grammar language => exact h

/-- What a promise of the role is settled with.  What is not said here is said by `Service.Answered`, or
    follows from what the promise waits for. -/
def Role.EndsWell : Role Hook Job → Settled Reply → Prop
  | .operation k, o => (∃ v, o = .value v) ∨ ∃ f, o = .failed f ∧ k.declares f.kind = true
  | .job (.copy ..), o => o = .cancelled ∨ ∃ t, o = .value (.tree t)
  | .job _, o => (∃ v, o = .value v) ∨ ∃ f, o = .failed f ∧ f.kind.isOrdinary = true
  | .ticket _, o | .waiter _, o => o = .cancelled ∨ o = .value .nothing
  | .group, o => o = .cancelled ∨ o = .value .nothing ∨ o = .failed .cancellation
  | _, _ => True

/-- A fault of the service is no cancellation. -/
theorem Program.ended_of_isDeclared {V : Type} {f : Fault} (h : f.kind.isDeclared = true) :
    ended (.error f : Except Fault V) = .failed f := by
  have hne : f.kind ≠ .cancelled := fun hk => by
    rw [hk] at h
    cases h
  exact if_neg hne

/-- The outcome of a job settles its promise well. -/
theorem Job.EndsWell.settled {job : Job} {x : Except Fault Reply} (h : job.EndsWell x) :
    Role.EndsWell (.job job) (.ofResult x) := by
  have hplain : (∀ f, x = .error f → f.kind.isOrdinary = true) →
      (∃ v, Settled.ofResult x = .value v) ∨
        ∃ f, Settled.ofResult x = .failed f ∧ f.kind.isOrdinary = true := by
    intro h
    cases x with
    | ok v => exact .inl ⟨v, rfl⟩
    | error f => exact .inr ⟨f, rfl, h f rfl⟩
  cases job with
  | copy language source root =>
    obtain ⟨t, rfl⟩ := h
    exact .inr ⟨t, rfl⟩
  | boot engine => exact hplain h
  | grammar engine locator => exact hplain h
  | parse parser source => exact hplain h

namespace Service

open Loop

variable {s s' : Service} {roles roles' : Roles Hook Job} {w : Woken} {m : Midst} {mv : Service.Move}
  {p : PromiseId} {o : Settled Reply} {turn : Turn Stage Reply}

/-! ## Jobs -/

/-- In a world that raises ordinary faults only all jobs end well. -/
theorem sure_endsWell : Sure World.RaisesWell fun _ => Job.EndsWell where
  kept := ⟨_, _, World.RaisesWell.kept⟩
  lasting _ := id
  run job w hw := by
    have hreply : ∀ {α : Type} {a : Attempt α} {f : α → Reply} {Q : α → World → Prop},
        Attempt.Meets World.RaisesWell a Q (fun f w => f.kind.isOrdinary = true ∧ w.RaisesWell) →
        ∀ g, Work.reply f (a.run w).1 = .error g → g.kind.isOrdinary = true := by
      intro α a f Q hm g hg
      have hm := hm w hw
      generalize a.run w = y at hm hg
      obtain ⟨r, w'⟩ := y
      cases r with
      | ok x => cases hg
      | error f =>
        cases hg
        exact hm.1
    cases job with
    | boot engine =>
      exact hreply (Attempt.meets_loadEngine World.RaisesWell.keptByImports fun _ _ => trivial)
    | grammar engine locator =>
      exact hreply (Attempt.meets_fetchGrammar World.RaisesWell.kept.toKeptByFetches engine locator)
    | parse parser source => exact hreply (Attempt.meets_parse World.RaisesWell.keptByImports.noted (fun hw hg => hw.parsed hg)
        parser source)
    | copy language source root => exact ⟨_, rfl⟩

/-! ## Shared operations -/

/-- A shared operation that ends with a fault ends with one that it declares, or with one that it has met
    and that may not be caught, or has met at its start. -/
theorem leads_operation {k : Hook} (hr : w.stage.role = .operation k) :
    Leads w ⟨w.before, roles, w.stage.grip⟩ (Calls.resume w.stage w.given w.before)
      fun turn _ => ∀ f, turn = .finish (.error f) → k.declares f.kind = true ∨ w.Fails f := by
  cases hs : w.stage with
  | boot point =>
    rw [hs] at hr
    cases hr
    refine .bind ((leads_boot (m := ⟨w.before, roles, _⟩) hs rfl).mono fun turn m' h => ?_)
    cases turn with
    | rest on point' => exact .pure fun f hf => by cases hf
    | giveWay point' => exact .pure fun f hf => by cases hf
    | finish result =>
      refine .pure fun f hf => (h.2 f ?_).imp_left decide_eq_true
      cases result <;> cases hf
      rfl
  | fetch point =>
    have hk : ∀ {f : Fault}, f.kind.isDeclared = true → k.declares f.kind = true := by
      rw [hs] at hr
      cases point <;> cases hr <;> exact id
    refine .call (leads_fetch (m := ⟨w.before, roles, _⟩) hs rfl)
      (fun on point' m' h f hf => by cases hf) fun result m' h =>
        .pure fun f hf => (h.2 f ?_).imp_left hk
    cases result <;> cases hf
    rfl
  | _ => simp [hs, Stage.role] at hr

/-! ## All promises -/

/-- The world raises ordinary faults only, and promises are settled accordingly. -/
structure EndsWell (s : Service) (roles : Roles Hook Job) : Prop where
  world : s.world.RaisesWell
  answered : Answered (fun _ => Job.EndsWell) s roles
  settled : ∀ {p o}, s.loop.outcome? p = some o → (roles p).EndsWell o

/-- What shared operations meet in such a world. -/
theorem Answered.not_fails (h : Answered (fun _ => Job.EndsWell) s roles) (ht : HasTurn s roles w m turn)
    (hr : w.stage.role ≠ .call) (f : Fault) : ¬ w.Fails f := by
  rintro ⟨hf, hbad⟩
  have hg := h.given ht hr
  rw [hf] at hg
  rcases w with ⟨task, stage, given, before⟩
  dsimp only at hg hbad hr
  split at hg
  · have ho := hg f rfl
    rcases hbad with hn | hn
    · rw [ho] at hn
      cases hn
    · cases hn
  · obtain ⟨_, engine, _, hg⟩ := hg
    have ho := hg f rfl
    rcases hbad with hn | hn
    · rw [ho] at hn
      cases hn
    · cases hn
  · cases hg

namespace EndsWell

theorem opened {world : World} (hw : world.RaisesWell) (config : Config) (eager : Bool)
    (stuck : Option Fault) (log : List LogLine) :
    EndsWell (Service.opened config world eager stuck log) fun _ => .unused :=
  ⟨by rw [world_opened]; exact hw, .opened .., fun _ => trivial⟩

/-- A shared operation ends with a value, or with a fault that it declares. -/
theorem operation_step (h : EndsWell s roles) (ho : AtRest s roles) (hst : Step s roles mv s' roles')
    {k : Hook} (hp : roles' p = .operation k) (hout : s'.loop.outcome? p = some o) :
    Role.EndsWell (.operation k) o := by
  have hold : ∀ {now : Roles Hook Job}, Extends roles now → now p = .operation k →
      s.loop.outcome? p = some o → Role.EndsWell (.operation k) o := by
    intro now hext hnow hout
    have hwell := h.settled hout
    rw [← hext p (ho.sound.assigned.role_ne_unused (outcome?_lt hout)), hnow] at hwell
    exact hwell
  rcases hst.aside_or_turn ho with ha | ⟨w, m, turn, ht, rfl, rfl⟩
  · obtain ⟨_, _, he⟩ := ha.outcome?_operation ho hst hp
    exact hold (ho.step hst).2 hp (he.symm.trans hout)
  · rcases ht.outcome?_operation hp hout with hout | ⟨rfl, result, rfl, rfl, _⟩
    · rw [Strides.outcome?_eq ht.started ht.strides (by simp [hp])] at hout
      obtain ⟨i, hb⟩ := ht.before
      have hout' : w.before.loop.outcome? p = some o := hout
      rw [hb] at hout'
      exact hold ht.extends hp hout'
    · have hr : w.stage.role = .operation k := by rw [← ht.inTurn.unfinished.1, hp]
      obtain ⟨_, _, _, hfault⟩ := ht.of_leads (leads_operation hr)
      cases result with
      | ok v => exact .inl ⟨v, rfl⟩
      | error f =>
        have hown := (hfault f rfl).resolve_right (h.answered.not_fails ht (by simp [hr]) f)
        exact .inr ⟨f, Program.ended_of_isDeclared (Hook.isDeclared_of_declares hown), hown⟩

/-- What is not a task's is settled well. -/
theorem settles (h : EndsWell s roles) (ho : AtRest s roles) (hst : Step s roles mv s' roles')
    (hsp : SparesOperations s mv) (hs : s.Settles roles' mv p o) : (roles' p).EndsWell o := by
  have hext := (ho.step hst).2
  rcases hs with (⟨hr, _⟩ | ⟨hr, rfl⟩ | ⟨hr, _, rfl⟩ | ⟨hr, _⟩ | ⟨hm, rfl⟩) | ⟨hr, rfl⟩ | ⟨hr, _⟩ |
    @⟨t, point, hplace, hc, rfl⟩
  case errand.signalled =>
    rw [hr]
    exact .inr rfl
  case errand.tallied =>
    rw [hr]
    split
    · exact .inr (.inr rfl)
    · exact .inr (.inl rfl)
  case errand.delivered =>
    obtain ⟨job, hj⟩ := ho.sound.assigned.delivered hm
    rw [hext.eq hj (by simp)]
    exact (h.answered.delivered hm hj).settled
  case called =>
    rw [hr]
    exact .inr rfl
  case cancelled =>
    have hcall := (hc hsp).1
    have ha := ((ho.placed hplace).rest.mono hext).awaits
    cases hr : roles' p with
    | ticket language => exact .inl rfl
    | waiter q => exact .inl rfl
    | group => exact .inl rfl
    | operation k =>
      rw [hr] at ha
      exact ha.elim
    | job job =>
      rw [hr] at ha
      cases job with
      | copy language source root => exact .inl rfl
      | parse parser source => exact ha.elim
      | boot engine => exact absurd hcall (role_of_awaits ha (.inr ⟨_, rfl, rfl⟩))
      | grammar engine locator => exact absurd hcall (role_of_awaits ha (.inr ⟨_, rfl, rfl⟩))
    | _ => trivial
  all_goals
    rw [hr]
    trivial

/-- Every step that spares the operations keeps it. -/
theorem step (h : EndsWell s roles) (ho : AtRest s roles) (hst : Step s roles mv s' roles')
    (hsp : SparesOperations s mv) : EndsWell s' roles' := by
  refine ⟨hst.keeps World.RaisesWell.kept h.world, h.answered.step sure_endsWell ho hst hsp h.world,
    fun {p o} hout => ?_⟩
  cases htask : (roles' p).isTask with
  | false =>
    rcases hst.outcome?_cases ho htask hout with hold | hs
    · have hwell := h.settled hold
      rwa [← (ho.step hst).2 p (ho.sound.assigned.role_ne_unused (outcome?_lt hold))] at hwell
    · exact h.settles ho hst hsp hs
  | true =>
    cases hr : roles' p with
    | operation k => exact h.operation_step ho hst hr hout
    | call => trivial
    | _ =>
      rw [hr] at htask
      cases htask

end EndsWell

/-! ## The jobs of parses -/

/-- The jobs of parses are settled well, whoever is cancelled: the parser's by their outcomes, copies by
    their outcomes or by cancellations. -/
structure WorksWell (s : Service) (roles : Roles Hook Job) : Prop where
  world : s.world.RaisesWell
  delivers : Delivers (fun _ => Job.EndsWell) s roles
  settled : ∀ {p o job}, roles p = .job job → job.isShared = false → s.loop.outcome? p = some o →
    Role.EndsWell (.job job) o

namespace WorksWell

theorem opened {world : World} (hw : world.RaisesWell) (config : Config) (eager : Bool)
    (stuck : Option Fault) (log : List LogLine) :
    WorksWell (Service.opened config world eager stuck log) fun _ => .unused :=
  ⟨by rw [world_opened]; exact hw, .opened .., fun hp => by cases hp⟩

/-- Every step keeps it. -/
theorem step (h : WorksWell s roles) (ho : AtRest s roles) (hst : Step s roles mv s' roles') :
    WorksWell s' roles' := by
  obtain ⟨_, hext⟩ := ho.step hst
  refine ⟨hst.keeps World.RaisesWell.kept h.world, h.delivers.step sure_endsWell ho hst h.world,
    fun {p o job} hp hshared hout => ?_⟩
  rcases hst.outcome?_cases ho (by rw [hp]; rfl) hout with hold | hs
  · refine h.settled ?_ hshared hold
    rw [← hext p (ho.sound.assigned.role_ne_unused (outcome?_lt hold)), hp]
  · rcases hs with (⟨hr, _⟩ | ⟨hr, _⟩ | ⟨hr, _⟩ | ⟨hr, _⟩ | ⟨hm, rfl⟩) | ⟨hr, _⟩ | ⟨hr, _⟩ |
      ⟨hplace, _, rfl⟩
    case errand.delivered =>
      obtain ⟨job', hj⟩ := ho.sound.assigned.delivered hm
      cases (hext.eq hj (by simp)).symm.trans hp
      exact (h.delivers.delivered hm hj).settled
    case cancelled =>
      have ha := ((ho.placed hplace).rest.mono hext).awaits
      rw [hp] at ha
      cases job with
      | copy language source root => exact .inl rfl
      | parse parser source => exact ha.elim
      | boot | grammar => cases hshared
    all_goals cases hr.symm.trans hp

/-- A parse that waits for its parser's job meets an outcome of the job, or a cancellation. -/
theorem given_parse (h : WorksWell s roles) (ho : AtRest s roles) (ht : HasTurn s roles w m turn)
    {job : PromiseId} {source : List UInt8} (hs : w.stage.rest = .parseJob job source) {f : Fault}
    (hf : w.given = .error f) : f.kind = .cancelled ∨ f.kind.isOrdinary = true := by
  obtain ⟨task, given, _, _, hplaced, hgives, hmet⟩ := ht.woken
  rcases Program.met_eq_error (hmet.symm.trans hf) with ⟨rfl, _⟩ | rfl
  · exact .inl rfl
  have hrest := hplaced.rest
  rw [hs] at hrest
  obtain ⟨p, parser, hon, hshield, hjob⟩ := hrest
  unfold Loop.Gives at hgives
  rw [hon] at hgives
  obtain ⟨o, hout, hres⟩ := hgives
  rcases ho.sound.assigned.taken hshield hout with rfl | hend
  · cases hres
    exact .inl rfl
  · rcases h.settled hjob rfl hend with ⟨v, rfl⟩ | ⟨g, rfl, hord⟩
    · cases hres
    · cases hres
      exact .inr hord

/-- A parse that waits for its copy meets a tree, or a cancellation. -/
theorem given_copy (h : WorksWell s roles) (ht : HasTurn s roles w m turn)
    (hs : w.stage.rest = .copyJob) : (∃ t, w.given = .ok (.tree t)) ∨ w.given = .error .cancellation := by
  obtain ⟨task, given, _, _, hplaced, hgives, hmet⟩ := ht.woken
  have hrest := hplaced.rest
  rw [hs] at hrest
  obtain ⟨p, language, source, root, hon, hjob⟩ := hrest
  unfold Loop.Gives at hgives
  rw [hon] at hgives
  obtain ⟨o, hout, rfl⟩ := hgives
  cases hgiven : w.given with
  | ok r =>
    obtain ⟨_, he⟩ := Program.met_eq_ok (hmet.symm.trans hgiven)
    rcases h.settled hjob rfl hout with rfl | ⟨t, rfl⟩
    · cases he
    · cases he
      exact .inl ⟨t, rfl⟩
  | error f =>
    rcases Program.met_eq_error (hmet.symm.trans hgiven) with ⟨rfl, _⟩ | he
    · exact .inr rfl
    · rcases h.settled hjob rfl hout with rfl | ⟨t, rfl⟩
      · cases he
        exact .inr rfl
      · cases he

end WorksWell

end Service

end SourceTrees
