import SourceTrees.Proofs.Service.Outcomes

/-!
# Tasks that nobody cancels

A task that nobody cancels meets a fault only if what it waits for has brought one: a shared operation
one of the service, a job one of its own.

## Protocol

* A task is **undisturbed** if it is not marked, what it rests on was not cancelled, and no cancellation
  has come to the group that it may rest on.
* A step disturbs a task only by cancelling it.

## Results

* `Service.Undisturbed.step` — kept by every step that does not cancel the task.
* `Service.Undisturbed.given` — what an undisturbed call meets.
* `Service.Watched` — of a set of tasks that holds all who are cancelled, the others are undisturbed.
-/

set_option autoImplicit false

namespace SourceTrees.Service

open Loop

variable {s s' : Service} {roles roles' : Roles Hook Job} {w : Woken} {m : Midst} {mv : Service.Move}
  {c p t : PromiseId} {point : Stage} {turn : Turn Stage Reply}

/-- Nobody has cancelled the task. -/
structure Undisturbed (s : Service) (roles : Roles Hook Job) (c : PromiseId) : Prop where
  unmarked : ∀ {task}, s.loop.tasks.get? c = some task → task.marked = false
  rested : ∀ {point p}, s.loop.place? c = some (point, some p) → s.loop.outcome? p ≠ some .cancelled
  intact : ∀ {point p}, s.loop.place? c = some (point, some p) → s.loop.Intact p
  gathered : ∀ {point p}, s.loop.place? c = some (point, some p) → roles p = .group →
    ∀ f, s.loop.outcome? p ≠ some (.failed f)

/-- No shield on which a task rests takes over a cancellation. -/
theorem EndsWell.not_relayed (h : EndsWell s roles) (ho : AtRest s roles)
    (hp : s.loop.place? t = some (point, some p)) {q : PromiseId} (hr : roles p = .shield q) :
    s.loop.outcome? q ≠ some .cancelled := by
  intro hq
  have hwell := h.settled hq
  rcases (ho.placed hp).rest.of_shield hr with ⟨hook, _, hop⟩ | ⟨parser, source, _, hjob⟩
  · rw [hop] at hwell
    rcases hwell with ⟨_, hv⟩ | ⟨_, hf, _⟩
    · cases hv
    · cases hf
  · rw [hjob] at hwell
    rcases hwell with ⟨_, hv⟩ | ⟨_, hf, _⟩
    · cases hv
    · cases hf

namespace Undisturbed

/-- A task that has not begun yet is undisturbed. -/
theorem of_place? (h : s.loop.tasks.get? c = none) : Undisturbed s roles c := by
  have hp : s.loop.place? c = none := by rw [place?, h]; rfl
  refine ⟨fun hget => ?_, fun hplace => ?_, fun hplace => ?_, fun hplace => ?_⟩
  · rw [h] at hget
    cases hget
  all_goals
    rw [hp] at hplace
    cases hplace

/-- A step disturbs a task only by cancelling it, or if what it waits for has been cancelled. -/
theorem step_of_shields (h : Undisturbed s roles c) (ho : AtRest s roles)
    (hst : Step s roles mv s' roles') (hsp : SparesOperations s mv) (hc : ¬ s.Cancels c mv)
    (hshields : ∀ {point p q}, s'.loop.place? c = some (point, some p) → roles' p = .shield q →
      s'.loop.outcome? q ≠ some .cancelled) : Undisturbed s' roles' c := by
  obtain ⟨ho', hext⟩ := ho.step hst
  -- Whoever has rested on what the task rests on is the task itself, and it is not cancelled.
  have hspared : ∀ {point p t before}, s'.loop.place? c = some (point, some p) →
      s.loop.place? t = some (before, some p) → ¬ s.Cancels t mv := by
    intro point p t before hp ht
    rcases hst.rested_cases ho hp with ⟨_, hbefore⟩ | hnew
    · exact ho.place?_alone ht hbefore ▸ hc
    · exact absurd (ho.place?_lt ht) (Nat.not_lt.2 hnew)
  have hold : ∀ {point p o}, s'.loop.place? c = some (point, some p) → s.loop.outcome? p = some o →
      ∃ before, s.loop.place? c = some (before, some p) ∧ roles' p = roles p := by
    intro point p o hp hout
    have hlt := outcome?_lt hout
    rcases hst.rested_cases ho hp with ⟨before, hbefore⟩ | hnew
    · exact ⟨before, hbefore, hext p (ho.sound.assigned.role_ne_unused hlt)⟩
    · exact absurd hlt (Nat.not_lt.2 hnew)
  have htask : ∀ {point p}, s'.loop.place? c = some (point, some p) → (roles' p).isTask = false :=
    fun hp => (ho'.placed hp).rest.isTask_eq_false
  have hintact : ∀ {point p}, s'.loop.place? c = some (point, some p) → s.loop.Intact p := by
    intro point p hp
    rcases hst.rested_cases ho hp with ⟨_, hbefore⟩ | hnew
    · exact h.intact hbefore
    · intro group hg
      have hr := ho.sound.assigned.grouped (g := p) (by rw [hg]; rfl)
      rw [ho.sound.assigned.unused.2 hnew] at hr
      cases hr
  refine ⟨fun {task} hget => ?_, fun hp hout => ?_, fun hp => ?_, fun hp hr f hout => ?_⟩
  · rcases hst.task_cases ho hget with ⟨before, hbefore, _, hmark⟩ | ⟨hm, _⟩
    · by_contra hne
      rcases hmark (by simpa using hne) with hm | hcalled
      · rw [h.unmarked hbefore] at hm
        cases hm
      · exact hc (hcalled hsp).2
    · exact hm
  · rcases hst.outcome?_cases ho (htask hp) hout with hout | hs
    · obtain ⟨_, hbefore, _⟩ := hold hp hout
      exact h.rested hbefore hout
    · rcases hs with (⟨hr, hq⟩ | ⟨_, hx⟩ | ⟨_, _, hx⟩ | ⟨_, hx⟩ | @⟨x, _, hx⟩) | ⟨_, hx⟩ | ⟨_, hne⟩ |
        ⟨ht, hcalled, _⟩
      case errand.relayed =>
        exact hshields hp hr (hst.outcome?_of_some hq)
      case errand.tallied =>
        split at hx <;> cases hx
      case errand.delivered => cases x <;> cases hx
      case ended => exact hne rfl
      case cancelled => exact hspared hp ht (hcalled hsp).2
      all_goals cases hx
  · exact hst.intact hsp (hspared hp) (hintact hp)
  · rcases hst.outcome?_cases ho (htask hp) hout with hout | hs
    · obtain ⟨_, hbefore, hsame⟩ := hold hp hout
      exact h.gathered hbefore (hsame ▸ hr) f hout
    · rcases hs with (⟨hr', _⟩ | ⟨hr', _⟩ | ⟨_, hg, hx⟩ | ⟨hr', _⟩ | ⟨hm, _⟩) | ⟨hr', _⟩ | ⟨hr', _⟩ |
        ⟨_, _, hx⟩
      case errand.tallied =>
        rw [hintact hp _ hg] at hx
        cases hx
      case errand.delivered =>
        obtain ⟨job, hj⟩ := ho.sound.assigned.delivered hm
        cases hr.symm.trans (hext.eq hj (by simp))
      case cancelled => cases hx
      all_goals cases hr.symm.trans hr'

/-- **A step disturbs a task only by cancelling it.** -/
theorem step (h : Undisturbed s roles c) (he : EndsWell s roles) (ho : AtRest s roles)
    (hst : Step s roles mv s' roles') (hsp : SparesOperations s mv) (hc : ¬ s.Cancels c mv) :
    Undisturbed s' roles' c :=
  h.step_of_shields ho hst hsp hc fun hp hr =>
    (he.step ho hst hsp).not_relayed (ho.step hst).1 hp hr

end Undisturbed

/-! ## What calls meet -/

/-- **What a call meets.**  If it is a fault, it is one of the service that a shared operation has ended
    with, or an ordinary one that the parser has raised, or the call has been cancelled. -/
theorem EndsWell.given (h : EndsWell s roles) (ho : AtRest s roles) (ht : HasTurn s roles w m turn)
    (hcall : w.stage.role = .call) (hgate : w.stage.rest ≠ .gate) {f : Fault} (hf : w.given = .error f) :
    (∃ hook, w.stage.rest = .shield hook ∧ hook.declares f.kind = true) ∨
      f.kind.isOrdinary = true ∧ (∃ job source, w.stage.rest = .parseJob job source) ∨
      f = .cancellation ∧ ¬ Undisturbed s roles w.task := by
  obtain ⟨task, given, hget, hpoint, hplaced, hgives, hmet⟩ := ht.woken
  rcases Program.met_eq_error (hmet.symm.trans hf) with ⟨rfl, hmark⟩ | rfl
  · refine .inr (.inr ⟨rfl, fun hu => ?_⟩)
    rw [hu.unmarked hget] at hmark
    cases hmark
  have hplace := place?_of_get? hget
  unfold Loop.Gives at hgives
  cases hon : task.restsOn with
  | none =>
    rw [hon] at hgives
    cases hgives
  | some p =>
    rw [hon] at hgives hplace
    obtain ⟨o, hout, hres⟩ := hgives
    have hrest := hplaced.rest
    rw [hon] at hrest
    have hwell := h.settled hout
    have hcancelled : o = .cancelled → f = .cancellation ∧ ¬ Undisturbed s roles w.task := by
      rintro rfl
      cases hres
      exact ⟨rfl, fun hu => hu.rested hplace hout⟩
    have hvalue : ∀ {v}, o ≠ .value v := by
      rintro v rfl
      cases hres
    have hfailed : ∀ {g}, o = .failed g → g = f := by
      rintro g rfl
      cases hres
      rfl
    cases hkind : w.stage.rest with
    | nothing =>
      rw [hkind] at hrest
      cases hrest
    | gate => exact absurd hkind hgate
    | shield hook =>
      rw [hkind] at hrest
      obtain ⟨p', op, he, hshield, hop⟩ := hrest
      cases he
      rcases ho.sound.assigned.taken hshield hout with hc | hend
      · exact .inr (.inr (hcancelled hc))
      · have hwell := h.settled hend
        rw [hop] at hwell
        rcases hwell with ⟨v, hv⟩ | ⟨g, hg, hown⟩
        · exact absurd hv hvalue
        · exact .inl ⟨hook, rfl, hfailed hg ▸ hown⟩
    | parseJob job source =>
      rw [hkind] at hrest
      obtain ⟨p', parser, he, hshield, hjob⟩ := hrest
      cases he
      rcases ho.sound.assigned.taken hshield hout with hc | hend
      · exact .inr (.inr (hcancelled hc))
      · have hwell := h.settled hend
        rw [hjob] at hwell
        rcases hwell with ⟨v, hv⟩ | ⟨g, hg, hord⟩
        · exact absurd hv hvalue
        · exact .inr (.inl ⟨hfailed hg ▸ hord, job, source, rfl⟩)
    | bootJob =>
      obtain ⟨point, hp⟩ := Stage.exists_boot (.inl hkind)
      rw [hp] at hcall
      cases hcall
    | timer q =>
      obtain ⟨point, hp⟩ := Stage.exists_boot (.inr ⟨q, hkind⟩)
      rw [hp] at hcall
      cases hcall
    | grammarJob locator =>
      obtain ⟨language, hp⟩ := Stage.exists_fetch hkind
      rw [hp] at hcall
      cases hcall
    | ticket language k =>
      rw [hkind] at hrest
      obtain ⟨he, hticket⟩ := hrest
      cases he
      rw [hticket] at hwell
      exact .inr (.inr (hcancelled (hwell.resolve_right hvalue)))
    | drained job waiter =>
      rw [hkind] at hrest
      obtain ⟨he, hwaiter, _⟩ := hrest
      cases he
      rw [hwaiter] at hwell
      exact .inr (.inr (hcancelled (hwell.resolve_right hvalue)))
    | copyJob =>
      rw [hkind] at hrest
      obtain ⟨p', language, source, root, he, hjob⟩ := hrest
      cases he
      rw [hjob] at hwell
      exact .inr (.inr (hcancelled (hwell.resolve_right fun hv => hv.elim fun _ => hvalue)))
    | group =>
      rw [hkind] at hrest
      obtain ⟨p', he, hgroup⟩ := hrest
      cases he
      rw [hgroup] at hwell
      rcases hwell with hc | hv | hg
      · exact .inr (.inr (hcancelled hc))
      · exact absurd hv hvalue
      · refine .inr (.inr ⟨(hfailed hg).symm, fun hu => ?_⟩)
        exact hu.gathered hplace hgroup _ (hout.trans (congrArg some hg))

/-- A fault that callers are told of: one of the service, or the cancellation of the call. -/
def Told (X : Prop) (f : Fault) : Prop := f.kind.isDeclared = true ∨ f = .cancellation ∧ X

/-! ## Runs -/

/-- The move spares the operations, and whom it cancels is one of the tasks. -/
def Spares (X : PromiseId → Prop) (s : Service) (mv : Service.Move) : Prop :=
  SparesOperations s mv ∧ ∀ c, s.Cancels c mv → X c

/-- Promises are settled well, and all but the tasks are undisturbed. -/
structure Watched (X : PromiseId → Prop) (s : Service) (roles : Roles Hook Job) : Prop where
  settled : EndsWell s roles
  spared : ∀ c, X c ∨ Undisturbed s roles c

namespace Watched

variable {X : PromiseId → Prop}

theorem opened {world : World} (hw : world.RaisesWell) (config : Config) (eager : Bool)
    (stuck : Option Fault) (log : List LogLine) :
    Watched X (Service.opened config world eager stuck log) fun _ => .unused :=
  ⟨.opened hw .., fun c => .inr (.of_place? (by rw [loop_opened]; rfl))⟩

theorem step (h : Watched X s roles) (ho : AtRest s roles) (hst : Step s roles mv s' roles')
    (hmv : Spares X s mv) : Watched X s' roles' := by
  refine ⟨h.settled.step ho hst hmv.1, fun c => ?_⟩
  rcases h.spared c with hx | hu
  · exact .inl hx
  · by_cases hc : s.Cancels c mv
    · exact .inl (hmv.2 c hc)
    · exact .inr (hu.step h.settled ho hst hmv.1 hc)

/-- What a call meets that is in the watch of a run. -/
theorem given (h : Watched X s roles) (ho : AtRest s roles) (ht : HasTurn s roles w m turn)
    (hcall : w.stage.role = .call) (hgate : w.stage.rest ≠ .gate) {f : Fault} (hf : w.given = .error f) :
    (∃ hook, w.stage.rest = .shield hook ∧ hook.declares f.kind = true) ∨
      f.kind.isOrdinary = true ∧ (∃ job source, w.stage.rest = .parseJob job source) ∨
      f = .cancellation ∧ X w.task := by
  rcases h.settled.given ho ht hcall hgate hf with hown | hord | ⟨he, hn⟩
  · exact .inl hown
  · exact .inr (.inl hord)
  · exact .inr (.inr ⟨he, (h.spared w.task).resolve_right hn⟩)

/-- What a call meets that does not wait for its parser's job. -/
theorem told (h : Watched X s roles) (ho : AtRest s roles) (ht : HasTurn s roles w m turn)
    (hcall : w.stage.role = .call) (hgate : w.stage.rest ≠ .gate)
    (hjob : ∀ job source, w.stage.rest ≠ .parseJob job source) {f : Fault} (hf : w.given = .error f) :
    Told (X w.task) f := by
  rcases h.given ho ht hcall hgate hf with ⟨_, _, hown⟩ | ⟨_, job, source, hrest⟩ | hx
  · exact .inl (Hook.isDeclared_of_declares hown)
  · exact absurd hrest (hjob job source)
  · exact .inr hx

/-- With what a request ends that does not wait for its parser's job. -/
theorem told_of_blames (h : Watched X s roles) (ho : AtRest s roles) (ht : HasTurn s roles w m turn)
    (hcall : w.stage.role = .call) (hgate : w.stage.rest ≠ .gate)
    (hjob : ∀ job source, w.stage.rest ≠ .parseJob job source) {f : Fault} (hf : w.Blames f) :
    Told (X w.task) f := by
  rcases hf with hown | hmet | @⟨m, engine, g, hr, hb, hn⟩
  · exact .inl hown
  · exact h.told ho ht hcall hgate hjob hmet
  · exfalso
    obtain ⟨i, hbefore⟩ := ht.before
    obtain ⟨_, hst⟩ := hr.came
    have hworld : m.service.world.RaisesWell := by
      refine hst.keeps World.RaisesWell.kept ?_
      rw [hbefore]
      exact h.settled.world
    have hmeets := World.RaisesWell.bindParser engine g m.service.world hworld
    generalize (Attempt.bindParser engine g).run m.service.world = y at hmeets hb
    obtain ⟨r, world⟩ := y
    cases hb
    rw [hmeets.1] at hn
    cases hn

end Watched

/-- In the course of the run the call is cancelled, or the group that it is a member of. -/
def CancelledIn (s : Service) (ms : List Service.Move) (c : PromiseId) : Prop :=
  ∃ before mv after, ms = before ++ mv :: after ∧ (s.moves before).Cancels c mv

/-- Whom a run cancels is cancelled in it. -/
theorem along_spares {ms : List Service.Move} (h : Along SparesOperations s ms) :
    Along (Spares (CancelledIn s ms)) s ms :=
  h.and (along_of_split fun before mv after he _ hc => ⟨before, mv, after, he, hc⟩)

end SourceTrees.Service
