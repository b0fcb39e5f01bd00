import SourceTrees.Proofs.Service.Whole

/-!
# What tasks have in their hands

Between turns a task's grip is that of its stage.  During a turn the task that has it may change its
grip with every stride, while the others keep theirs; at the end the stage where it comes to rest tells
its grip again.

## Results

* `Service.gripAt`, `Woken.grips` — the grips between turns and during one.
* `Service.Step.aside_or_turn` — a step is made between turns, and no task changes its grip; or it is a
  turn, and only the task changes its grip that has it.
* `Service.exists_along`, `Service.exists_atRest` — a run keeps what every step keeps.
-/

set_option autoImplicit false

namespace SourceTrees.Service

open Loop

variable {w : Woken} {m m' : Midst} {s s' : Service} {roles roles' : Roles Hook Job}
  {t : PromiseId} {point : Stage} {on : Option PromiseId} {turn : Turn Stage Reply}

/-- What a task has in its hands between turns. -/
def gripAt (s : Service) (t : PromiseId) : Grip :=
  match s.loop.place? t with
  | some (point, _) => point.grip
  | none => .free

/-- What tasks have in their hands during a turn. -/
def Woken.grips (w : Woken) (grip : Grip) : PromiseId → Grip :=
  Function.update w.before.gripAt w.task grip

theorem gripAt_of_place? (h : s.loop.place? t = some (point, on)) : s.gripAt t = point.grip := by
  rw [gripAt, h]

theorem exists_place?_of_gripAt (h : s.gripAt t ≠ .free) :
    ∃ point on, s.loop.place? t = some (point, on) ∧ s.gripAt t = point.grip := by
  cases hp : s.loop.place? t with
  | none => exact absurd (by rw [gripAt, hp]) h
  | some p => exact ⟨p.1, p.2, rfl, gripAt_of_place? hp⟩

/-- What tasks have in their hands between turns is of the right kind. -/
theorem Ordered.gripAt_fits {busy : Option PromiseId} {base : Nat} (h : Ordered busy base s roles)
    (t : PromiseId) : (s.gripAt t).Fits roles s.pool := by
  unfold gripAt
  split
  · rename_i point on hp
    exact (h.placed hp).grip
  · trivial

theorem gripAt_congr (h : ∀ t, s'.loop.place? t = s.loop.place? t) : s'.gripAt = s.gripAt := by
  funext t
  rw [gripAt, h, gripAt]

/-- In a new service there is nobody to have anything in hand. -/
theorem gripAt_opened (config : Config) (world : World) (eager : Bool) (stuck : Option Fault)
    (log : List LogLine) : (opened config world eager stuck log).gripAt = fun _ => .free := by
  funext t
  simp [gripAt, place?, Keyed.get?, Keyed.empty, Keyed.lookIn]

/-- A task with nothing in hand more or less. -/
theorem gripAt_spawn {call : Call} (h : s.loop.tasks.get? s.loop.promises.size = none) :
    ({ s with loop := (s.loop.spawn (.start call)).2 } : Service).gripAt = s.gripAt := by
  funext t
  unfold gripAt
  dsimp only
  by_cases he : t = s.loop.promises.size
  · subst he
    rw [place?_spawn, if_pos rfl, place?, h]
    rfl
  · rw [place?_spawn, if_neg he]

@[simp] theorem grips_self {grip : Grip} : w.grips grip w.task = grip := Function.update_self ..

theorem grips_of_ne {grip : Grip} (h : t ≠ w.task) : w.grips grip t = w.before.gripAt t :=
  Function.update_of_ne h ..

/-! ## Turns -/

theorem gripAt_of_tasks (h : s'.loop.tasks = s.loop.tasks) : s'.gripAt = s.gripAt :=
  gripAt_congr fun _ => place?_congr h

theorem gripAt_launch {κ : Type} [DecidableEq κ] {f : Flight κ} {key : κ} {hook : Hook}
    (hg : point.grip = .free) (h : s.loop.tasks.get? s.loop.promises.size = none)
    (hs : s'.loop = ((f.launch s.loop key point hook).2.2.shield s.loop.promises.size).2) :
    s'.gripAt = s.gripAt := by
  funext t
  unfold gripAt
  by_cases he : t = s.loop.promises.size
  · subst he
    rw [hs, place?_shield, Flight.place?_launch, if_pos rfl, place?, h]
    exact hg
  · rw [hs, place?_shield, Flight.place?_launch, if_neg he]

/-- Only the task that has its turn changes its grip. -/
theorem Stride.gripAt_eq (h : InTurn w m) (hst : Stride w m m') :
    m'.service.gripAt = m.service.gripAt := by
  cases hst with
  | bootJoined hp hr => exact gripAt_of_tasks tasks_subscribe
  | bootLaunched hp hn => exact gripAt_launch rfl h.ordered.sound.get?_size rfl
  | loadJoined language hp hr => exact gripAt_of_tasks tasks_subscribe
  | loadLaunched language hp hn => exact gripAt_launch rfl h.ordered.sound.get?_size rfl
  | submitted crew hc hg => exact gripAt_of_tasks Work.tasks_handedIn
  | guarded hg => exact gripAt_of_tasks tasks_subscribe
  | waited hg => exact gripAt_of_tasks tasks_subscribe
  | unsubscribed hs => exact gripAt_of_tasks tasks_unsubscribe
  | calledNext hg hp hheld hk => exact gripAt_of_tasks tasks_settle
  | spawned call => exact gripAt_spawn h.ordered.sound.get?_size
  | grouped hm => exact gripAt_of_tasks tasks_group
  | dismissed => exact gripAt_of_tasks Work.tasks_dismiss
  | _ => exact gripAt_of_tasks rfl

theorem Strides.gripAt_eq (h : InTurn w m) (hst : Strides w m m') :
    m'.service.gripAt = m.service.gripAt := by
  induction hst with
  | refl => rfl
  | tail hst hstep ih => exact (hstep.gripAt_eq (h.strides hst)).trans ih

/-- What tasks have in their hands after a turn: nothing is left in the hands of a task that has ended. -/
def Woken.gripsAfter (w : Woken) (grip : Grip) : Turn Stage Reply → PromiseId → Grip
  | .finish _ => w.grips .free
  | _ => w.grips grip

theorem gripsAfter_of_ne {grip : Grip} (h : t ≠ w.task) :
    w.gripsAfter grip turn t = w.before.gripAt t := by
  cases turn <;> exact grips_of_ne h

/-- What a task has in its hands after the turn it had before the end. -/
theorem grips_of_gripsAfter {grip x : Grip} (h : w.gripsAfter grip turn t = x) (hx : x ≠ .free) :
    w.grips grip t = x := by
  by_cases ht : t = w.task
  · subst ht
    cases turn with
    | rest on point => exact h
    | giveWay point => exact h
    | finish result => exact absurd (h.symm.trans grips_self) hx
  · rw [gripsAfter_of_ne ht] at h
    exact (grips_of_ne ht).trans h

/-- A task that has something in its hands has it after the turn. -/
theorem Ends.gripsAfter_eq {x : Grip} (hend : Ends w m turn) (h : w.grips m.grip t = x) (hx : x ≠ .free)
    (he : ∀ result, x ≠ .ended result) : w.gripsAfter m.grip turn t = x := by
  by_cases ht : t = w.task
  · subst ht
    cases turn with
    | rest on point => exact h
    | giveWay point => exact h
    | finish result =>
      have hg : m.grip = x := grips_self.symm.trans h
      rcases hend with ⟨hend, _⟩ | hend
      · exact absurd (hg.symm.trans hend) hx
      · exact absurd (hg.symm.trans hend) (he result)
  · rw [gripsAfter_of_ne ht]
    exact (grips_of_ne ht).symm.trans h

/-- At the end of a turn the stage tells the grip again, unless the task has ended. -/
theorem gripAt_conclude (hw : m.service.gripAt = w.before.gripAt) (hend : Ends w m turn) :
    ({ m.service with loop := Program.conclude w.task turn m.service.loop } : Service).gripAt =
      w.gripsAfter m.grip turn := by
  have hplace : ∀ t ≠ w.task, ({ m.service with
      loop := Program.conclude w.task turn m.service.loop } : Service).gripAt t =
      w.before.gripAt t := by
    intro t ht
    rw [← hw]
    unfold gripAt
    dsimp only
    rw [place?_conclude, if_neg ht]
  funext t
  by_cases ht : t = w.task
  · subst ht
    unfold gripAt
    dsimp only
    rw [place?_conclude, if_pos rfl]
    cases turn with
    | rest on point => exact (hend.1.symm.trans grips_self.symm)
    | giveWay point => exact (hend.1.symm.trans grips_self.symm)
    | finish result => exact grips_self.symm
  · rw [hplace t ht]
    cases turn <;> exact (grips_of_ne ht).symm

/-! ## Steps -/

/-- What happens between turns: tasks stay where they are, a call may be started, and what the service
    has come to know stays. -/
structure Aside (s : Service) (roles : Roles Hook Job) (s' : Service) (roles' : Roles Hook Job) :
    Prop where
  config : s'.config = s.config
  phase : s'.phase = s.phase
  engine : s'.engine = s.engine
  grammars : s'.grammars = s.grammars
  pool : s'.pool = s.pool
  counts : s'.counts = s.counts
  parsers : s'.world.parsers = s.world.parsers
  stays : ∀ {t point on}, s.loop.place? t = some (point, on) → s'.loop.place? t = some (point, on)
  came : ∀ {t point on}, s'.loop.place? t = some (point, on) → s.loop.place? t = some (point, on) ∨
    ∃ call, point = .start call ∧ roles' t = .call
  role : ∀ {p role}, roles' p = role → role ≠ .call → roles p = role

/-- A task has its turn, from an errand that wakes it to the end of the turn. -/
structure HasTurn (s : Service) (roles : Roles Hook Job) (w : Woken) (m : Midst)
    (turn : Turn Stage Reply) : Prop where
  before : ∃ i, w.before = { s with loop := s.loop.pick i }
  place : ∃ on, s.loop.place? w.task = some (w.stage, on)
  started : InTurn w ⟨w.before, roles, w.stage.grip⟩
  strides : Strides w ⟨w.before, roles, w.stage.grip⟩ m
  resumed : Calls.resume w.stage w.given w.before = (turn, m.service)
  ends : Ends w m turn

namespace Aside

theorem of_tasks (hroles : roles' = roles) (hc : s'.config = s.config) (hp : s'.phase = s.phase)
    (he : s'.engine = s.engine) (hg : s'.grammars = s.grammars) (hpool : s'.pool = s.pool)
    (hn : s'.counts = s.counts) (hw : s'.world.parsers = s.world.parsers)
    (ht : ∀ t, s'.loop.place? t = s.loop.place? t) : Aside s roles s' roles' :=
  ⟨hc, hp, he, hg, hpool, hn, hw, fun h => (ht _).trans h, fun h => .inl ((ht _).symm.trans h),
    fun h _ => hroles ▸ h⟩

/-- No task changes its grip. -/
theorem gripAt_eq (h : Aside s roles s' roles') : s'.gripAt = s.gripAt := by
  funext t
  cases hp : s.loop.place? t with
  | some x => rw [gripAt_of_place? hp, gripAt_of_place? (h.stays hp)]
  | none =>
    cases hp' : s'.loop.place? t with
    | none => rw [gripAt, gripAt, hp, hp']
    | some x =>
      rcases h.came hp' with hs | ⟨call, hs, _⟩
      · rw [hp] at hs
        cases hs
      · rw [gripAt_of_place? hp', hs, gripAt, hp]
        rfl

end Aside

namespace HasTurn

theorem of_wakes {i : Nat} {task : Task Stage} {given : Except Fault Reply} (h : AtRest s roles)
    (hw : s.loop.Wakes i t task given)
    (hst : Strides ⟨t, task.point, Program.met task given, { s with loop := s.loop.pick i }⟩
      ⟨{ s with loop := s.loop.pick i }, roles, task.point.grip⟩ m)
    (hres : Calls.resume task.point (Program.met task given) { s with loop := s.loop.pick i } =
      (turn, m.service))
    (hend : Ends ⟨t, task.point, Program.met task given, { s with loop := s.loop.pick i }⟩ m turn) :
    HasTurn s roles ⟨t, task.point, Program.met task given, { s with loop := s.loop.pick i }⟩ m turn :=
  ⟨⟨i, rfl⟩, ⟨_, place?_of_get? hw.unfinished⟩, h.takeUp hw, hst, hres, hend⟩

theorem gripAt_eq (h : HasTurn s roles w m turn) : m.service.gripAt = w.before.gripAt :=
  h.strides.gripAt_eq h.started

theorem inTurn (h : HasTurn s roles w m turn) : InTurn w m := h.started.strides h.strides

/-- The task rests as its stage lets it rest, and meets what it is given there. -/
theorem woken (h : HasTurn s roles w m turn) : ∃ task given, s.loop.tasks.get? w.task = some task ∧
    task.point = w.stage ∧ Placed roles s.pool w.task w.stage task.restsOn ∧
      s.loop.Gives task given ∧ w.given = Program.met task given := by
  obtain ⟨i, hb⟩ := h.before
  obtain ⟨task, given, hget, hpoint, hgives, hmet⟩ := h.started.woken
  have hplaced := h.started.ordered.placed (place?_of_get? hget)
  rw [hpoint] at hplaced
  rw [hb] at hget hplaced hgives
  exact ⟨task, given, hget, hpoint, hplaced, hgives, hmet⟩

theorem coherent (h : HasTurn s roles w m turn) : w.stage.Coherent := by
  obtain ⟨_, _, _, _, hplaced, _⟩ := h.woken
  exact hplaced.coherent

/-- At the beginning the grips are those of the stages. -/
theorem grips_eq (h : HasTurn s roles w m turn) : w.grips w.stage.grip = s.gripAt := by
  obtain ⟨i, hb⟩ := h.before
  obtain ⟨on, hp⟩ := h.place
  have he : w.before.gripAt = s.gripAt := by rw [hb]; rfl
  rw [Woken.grips, he, ← gripAt_of_place? hp]
  exact Function.update_eq_self ..

theorem gripAt_conclude (h : HasTurn s roles w m turn) :
    ({ m.service with loop := Program.conclude w.task turn m.service.loop } : Service).gripAt =
      w.gripsAfter m.grip turn := Service.gripAt_conclude h.gripAt_eq h.ends

end HasTurn

theorem HasTurn.extends (h : HasTurn s roles w m turn) : Extends roles m.roles :=
  Strides.extends h.started h.strides

/-- The turn that the move gives a task, if it gives one. -/
def turnOf? (s : Service) : Service.Move → Option Woken
  | .serve i => do
    let e ← s.loop.agenda[i]?
    let t ← e.woken?
    let task ← s.loop.tasks.get? t
    let given ← match task.restsOn with
      | none => some (.ok default)
      | some p => (s.loop.outcome? p).map Settled.result
    return ⟨t, task.point, Program.met task given, { s with loop := s.loop.pick i }⟩
  | _ => none

theorem turnOf?_of_wakes {i : Nat} {task : Task Stage} {given : Except Fault Reply}
    (hw : s.loop.Wakes i t task given) : s.turnOf? (.serve i) =
      some ⟨t, task.point, Program.met task given, { s with loop := s.loop.pick i }⟩ := by
  obtain ⟨e, hi, hwoken⟩ := hw.errand
  have hgives := hw.gives
  unfold Loop.Gives at hgives
  simp only [turnOf?, hi, hwoken, hw.unfinished, Option.bind_eq_bind, Option.bind_some]
  cases hon : task.restsOn with
  | none =>
    rw [hon] at hgives
    rw [hgives]
    rfl
  | some p =>
    rw [hon] at hgives
    obtain ⟨o, hout, rfl⟩ := hgives
    simp only [hout]
    rfl

/-- A step is made between turns, or it is the turn that the move gives. -/
theorem Step.aside_or_given {mv : Service.Move} (h : AtRest s roles)
    (hst : Step s roles mv s' roles') :
    s.turnOf? mv = none ∧ Aside s roles s' roles' ∨ ∃ w m turn, s.turnOf? mv = some w ∧
      HasTurn s roles w m turn ∧
      s' = { m.service with loop := Program.conclude w.task turn m.service.loop } ∧
      roles' = m.roles := by
  cases hst with
  | idle mv hn =>
    refine .inl ⟨?_, .of_tasks rfl rfl rfl rfl rfl rfl rfl rfl fun _ => rfl⟩
    cases mv with
    | serve i => simp [turnOf?, hn i rfl]
    | _ => rfl
  | carried hi hw hk =>
    refine .inl ⟨by simp [turnOf?, hi, hw], ?_⟩
    exact .of_tasks rfl rfl rfl rfl rfl rfl rfl rfl fun _ => place?_congr (tasks_effect _)
  | @forgotten i hook op hi =>
    refine .inl ⟨by simp [turnOf?, hi, Errand.woken?], ?_⟩
    cases hook <;> exact .of_tasks rfl rfl rfl rfl rfl rfl rfl rfl fun _ => rfl
  | expired => exact .inl ⟨rfl, .of_tasks rfl rfl rfl rfl rfl rfl rfl rfl fun _ => rfl⟩
  | clocked time => exact .inl ⟨rfl, .of_tasks rfl rfl rfl rfl rfl rfl rfl rfl fun _ => rfl⟩
  | spawned call =>
    refine .inl ⟨rfl, rfl, rfl, rfl, rfl, rfl, rfl, rfl, fun {t point on} hp => ?_,
      fun {t point on} hp => ?_, fun {p role} hp hne => ?_⟩
    · rw [place?_spawn, if_neg]
      · exact hp
      · rintro rfl
        rw [place?, h.sound.get?_size] at hp
        cases hp
    · rw [place?_spawn] at hp
      split at hp
      · rename_i he
        cases hp
        exact .inr ⟨call, rfl, he ▸ Function.update_self ..⟩
      · exact .inl hp
    · rw [Function.update_apply] at hp
      split at hp
      · exact absurd hp.symm hne
      · exact hp
  | @workedOff position i ticket hi =>
    rw [Work.workOff_eq hi]
    have hw := ticket.job.keeps (Attempt.keptByFetches_parsers (· = s.world.parsers)) rfl
    exact .inl ⟨rfl, .of_tasks rfl rfl rfl rfl rfl rfl rfl hw fun _ => rfl⟩
  | cancelled t ha =>
    exact .inl ⟨rfl, .of_tasks rfl rfl rfl rfl rfl rfl rfl rfl fun _ => place?_cancelTask⟩
  | leaseEnded hg fault =>
    exact .inl ⟨rfl, .of_tasks rfl rfl rfl rfl rfl rfl rfl rfl fun _ => place?_congr tasks_settle⟩
  | turn hwakes hsts hres hend =>
    exact .inr ⟨_, _, _, turnOf?_of_wakes hwakes, .of_wakes h hwakes hsts hres hend, rfl, rfl⟩

/-- A step is made between turns, or it is a turn. -/
theorem Step.aside_or_turn {mv : Service.Move} (h : AtRest s roles)
    (hst : Step s roles mv s' roles') :
    Aside s roles s' roles' ∨ ∃ w m turn, HasTurn s roles w m turn ∧
      s' = { m.service with loop := Program.conclude w.task turn m.service.loop } ∧
      roles' = m.roles := by
  rcases hst.aside_or_given h with ⟨_, ha⟩ | ⟨w, m, turn, _, ht⟩
  · exact .inl ha
  · exact .inr ⟨w, m, turn, ht⟩

/-- Whatever every step of a kind keeps, a run of such steps keeps. -/
theorem exists_along {A : Service → Service.Move → Prop} {I : Service → Roles Hook Job → Prop}
    (hstep : ∀ {s s' roles roles' mv}, AtRest s roles → AtRest s' roles' → A s mv → I s roles →
      Step s roles mv s' roles' → I s' roles') :
    ∀ (ms : List Service.Move) {s : Service} {roles : Roles Hook Job}, AtRest s roles → Along A s ms →
      I s roles → ∃ roles', AtRest (s.moves ms) roles' ∧ Extends roles roles' ∧ I (s.moves ms) roles'
  | [], _, roles, h, _, hI => ⟨roles, h, .refl _, hI⟩
  | mv :: ms, s, roles, h, ⟨hA, hAs⟩, hI => by
    obtain ⟨roles₁, hst⟩ := exists_step h mv
    obtain ⟨h₁, hext⟩ := h.step hst
    obtain ⟨roles₂, h₂, hext', hI'⟩ := exists_along hstep ms h₁ hAs (hstep h h₁ hA hI hst)
    exact ⟨roles₂, h₂, hext.trans hext', hI'⟩

/-- Whatever every step keeps, a run keeps. -/
theorem exists_atRest {I : Service → Roles Hook Job → Prop}
    (hstep : ∀ {s s' roles roles' mv}, AtRest s roles → AtRest s' roles' → I s roles →
      Step s roles mv s' roles' → I s' roles')
    (ms : List Service.Move) {s : Service} {roles : Roles Hook Job} (h : AtRest s roles)
    (hI : I s roles) :
    ∃ roles', AtRest (s.moves ms) roles' ∧ Extends roles roles' ∧ I (s.moves ms) roles' := by
  exact exists_along (A := fun _ _ => True) (fun h h' _ => hstep h h') ms h
    (along_of_forall (fun _ _ => trivial) ms) hI

/-- Everything is in order, however the run goes. -/
theorem Ordered.atRest_moves (h : AtRest s roles) (ms : List Service.Move) :
    ∃ roles', AtRest (s.moves ms) roles' := by
  obtain ⟨roles', h', _⟩ := exists_atRest (I := fun _ _ => True) (fun _ _ _ _ => trivial) ms h trivial
  exact ⟨roles', h'⟩

end SourceTrees.Service
