import SourceTrees.Proofs.Service.Grips

/-!
# What settles the promise of a job

The promise of a job is settled when its outcome is delivered, or it is cancelled with the task that rests
on it.  The parser's jobs are behind shields, so that nothing but their outcome settles them.

## Results

* `Service.Strides.outcome?_cases`, `Service.Strides.outcome?_eq` — until it ends a turn settles tickets
  only.
* `Service.Cancels` — whom a cancellation from outside is meant for.
* `Service.Settles`, `Service.Step.outcome?_cases` — how a step can settle a promise that is not a task's.
* `Service.Step.outcome?_parse` — a parser's job is settled by its outcome only.
* `Service.Step.task_cases` — how a step can mark a task, or have it rest elsewhere;
  `Service.Step.intact` — how it can cancel a group.
-/

set_option autoImplicit false

namespace SourceTrees.Service

open Loop

variable {s s' : Service} {roles roles' : Roles Hook Job} {w : Woken} {m m' : Midst} {mv : Service.Move}
  {c p t : PromiseId} {point : Stage} {job : Job} {o : Settled Reply}

/-- The move cancels no shared operation, unless by cancelling who waits for it. -/
def SparesOperations (s : Service) : Service.Move → Prop
  | .act (.cancel t) => ∀ point on, s.loop.place? t = some (point, on) → point.role = .call
  | .act .cancelBoot | .act (.cancelGrammar _) => False
  | _ => True

instance (s : Service) : ∀ mv : Service.Move, Decidable (SparesOperations s mv)
  | .act (.cancel t) =>
    match h : s.loop.place? t with
    | none => isTrue fun _ _ hp => nomatch h.symm.trans hp
    | some (point, on) => decidable_of_iff (point.role = .call)
        ⟨fun hr _ _ hp => by cases h.symm.trans hp; exact hr, fun hs => hs point on h⟩
  | .act .cancelBoot | .act (.cancelGrammar _) => isFalse not_false
  | .act (.spawn _) | .act (.release _) | .act (.endLease ..) | .serve _ | .expire | .clock _ =>
    isTrue trivial

/-- The move cancels the call, or the group that it is a member of. -/
def Cancels (s : Service) (c : PromiseId) : Service.Move → Prop
  | .act (.cancel t) => t = c ∨ ∃ task g group, s.loop.tasks.get? t = some task ∧
      task.restsOn = some g ∧ s.loop.groups.get? g = some group ∧ c ∈ group.members
  | _ => False

/-- A stride calls tickets, and settles nothing else. -/
theorem Stride.outcome?_cases (ht : InTurn w m) (hst : Stride w m m')
    (ho : m'.service.loop.outcome? p = some o) :
    m.service.loop.outcome? p = some o ∨
      (∃ language, m.roles p = .ticket language) ∧ o = .value .nothing := by
  have hstill : m.service.loop.Still m'.service.loop → m.service.loop.outcome? p = some o :=
    fun hs => (hs.outcome p).symm.trans ho
  cases hst with
  | bootJoined hb hr => exact .inl (hstill (.shield _))
  | bootLaunched hb hn => exact .inl (hstill (((Still.spawn _).trans (.subscribe _ _)).trans (.shield _)))
  | loadJoined language hb hr => exact .inl (hstill (.shield _))
  | loadLaunched language hb hn =>
    exact .inl (hstill (((Still.spawn _).trans (.subscribe _ _)).trans (.shield _)))
  | submitted crew hc hg => exact .inl (Work.outcome?_handedIn.symm.trans ho)
  | guarded hg => exact .inl (hstill (.shield _))
  | waited hg => exact .inl (hstill (.waiter _))
  | unsubscribed hs => exact .inl (hstill (.unsubscribe _ _))
  | bootTimed seconds hg => exact .inl (hstill (.timer seconds))
  | drawn hg hpool => exact .inl (hstill .promise)
  | @calledNext language pooled k ks hg hpool hheld hk =>
    replace ho : (m.service.loop.settle k (.value .nothing)).outcome? p = some o := ho
    rw [outcome?_settle] at ho
    split at ho
    · rename_i hc
      cases ho
      exact .inr ⟨⟨language, hc.1 ▸ ht.tickets hpool k (hk ▸ List.mem_cons_self)⟩, rfl⟩
    · exact .inl ho
  | gateMade => exact .inl (hstill .promise)
  | spawned call => exact .inl (hstill (.spawn _))
  | grouped hm => exact .inl (hstill (.group _))
  | dismissed => exact .inl (Work.outcome?_dismiss.symm.trans ho)
  | _ => exact .inl ho

/-- A turn calls tickets, and settles nothing else until it ends. -/
theorem Strides.outcome?_cases (ht : InTurn w m) (hst : Strides w m m')
    (ho : m'.service.loop.outcome? p = some o) :
    m.service.loop.outcome? p = some o ∨
      (∃ language, m'.roles p = .ticket language) ∧ o = .value .nothing := by
  induction hst with
  | refl => exact .inl ho
  | tail hst hstep ih =>
    have ht₁ := ht.strides hst
    have hext := hstep.extends ht₁
    rcases hstep.outcome?_cases ht₁ ho with ho | ⟨⟨language, hl⟩, he⟩
    · exact (ih ho).imp_right fun h => h.imp_left fun hl => hl.imp fun _ hl => hext.eq hl (by simp)
    · exact .inr ⟨⟨language, hext.eq hl (by simp)⟩, he⟩

/-- Strides settle tickets only. -/
theorem Stride.outcome?_eq (ht : InTurn w m) (hst : Stride w m m')
    (hp : ∀ language, m.roles p ≠ .ticket language) :
    m'.service.loop.outcome? p = m.service.loop.outcome? p := by
  refine Option.ext fun o => ⟨fun ho => ?_, hst.later.outcome⟩
  exact (hst.outcome?_cases ht ho).resolve_right fun h => h.1.elim hp

/-- A turn settles tickets only, until it ends. -/
theorem Strides.outcome?_eq (ht : InTurn w m) (hst : Strides w m m')
    (hp : ∀ language, m'.roles p ≠ .ticket language) :
    m'.service.loop.outcome? p = m.service.loop.outcome? p := by
  refine Option.ext fun o => ⟨fun ho => ?_, hst.later.outcome⟩
  exact (hst.outcome?_cases ht ho).resolve_right fun h => h.1.elim hp

/-- The end of a turn settles the task only. -/
theorem InTurn.outcome?_conclude (ht : InTurn w m) (hp : (m.roles p).isTask = false)
    (turn : Turn Stage Reply) :
    (Program.conclude w.task turn m.service.loop).outcome? p = m.service.loop.outcome? p := by
  refine Loop.outcome?_conclude ?_
  rintro rfl
  obtain ⟨task, given, hget, _⟩ := ht.woken
  rw [ht.ordered.sound.isTask hget] at hp
  cases hp

/-- The tasks that a turn starts rest on nothing, and are not to meet a cancellation. -/
theorem Strides.started (hst : Strides w m m') {task : Task Stage}
    (hget : m'.service.loop.tasks.get? t = some task) :
    m.service.loop.tasks.get? t = some task ∨ task.restsOn = none ∧ task.marked = false := by
  induction hst generalizing task with
  | refl => exact .inl hget
  | tail hst hstep ih =>
    rcases hstep.tasks_cases with he | ⟨point, he⟩
    · rw [he] at hget
      exact ih hget
    · rw [he, Keyed.get?_put] at hget
      split at hget
      · cases hget
        exact .inr ⟨rfl, rfl⟩
      · exact ih hget

/-- Steps keep what has been settled. -/
theorem Step.outcome?_of_some (hst : Step s roles mv s' roles') (ho : s.loop.outcome? p = some o) :
    s'.loop.outcome? p = some o := by
  cases hst with
  | idle => exact ho
  | carried hi hw hk => exact (Later.effect _).outcome (l := s.loop.pick _) ho
  | @forgotten i hook op hi => cases hook <;> exact ho
  | expired => exact Later.expireDue.outcome ho
  | clocked time => exact ho
  | spawned call => exact (Later.spawn _).outcome ho
  | workedOff hi =>
    rw [Work.workOff_eq hi]
    exact ho
  | cancelled t ha => exact (Later.cancelTask t).outcome ho
  | leaseEnded hg fault => exact (Later.settle _ _).outcome ho
  | turn hwakes hsts hres hend =>
    exact (hsts.later.trans (.conclude _ _)).outcome (l := s.loop.pick _) ho

/-- Whom a cancellation from outside is meant for: calls only, if the operations are spared. -/
theorem Ordered.struck {busy : Option PromiseId} {base : Nat} (h : Ordered busy base s roles)
    {a : Service.Action}
    (ha : a = .cancel t ∨ a = .cancelBoot ∧ s.bootFlight.entries.get? () = some t ∨
      ∃ language, a = .cancelGrammar language ∧ s.grammarFlight.entries.get? language = some t) :
    s.loop.Struck (fun t => SparesOperations s (.act a) → roles t = .call ∧ s.Cancels t (.act a))
      (s.loop.cancelTask t) := by
  cases hg : s.loop.tasks.get? t with
  | none =>
    have he : s.loop.cancelTask t = s.loop := by
      unfold Loop.cancelTask Loop.cancelMember
      simp only [hg]
      rfl
    rw [he]
    exact .refl _
  | some task =>
    have hplace := place?_of_get? hg
    rcases ha with rfl | ⟨rfl, _⟩ | ⟨language, rfl, _⟩
    · refine .cancelTask (fun hsp => ⟨(h.placed hplace).role.trans (hsp _ _ hplace), .inl rfl⟩) ?_
      intro task g group hget hon hgroup t' ht' _
      exact ⟨h.members _ _ hgroup t' ht', .inr ⟨task, g, group, hget, hon, hgroup, ht'⟩⟩
    · exact .cancelTask (fun hsp => hsp.elim) fun _ _ _ _ _ hsp => hsp.elim
    · exact .cancelTask (fun hsp => hsp.elim) fun _ _ _ _ _ hsp => hsp.elim

/-- What a step can settle a promise with that is not a task's: what an errand yields, the call of a
    ticket, what ends a lease from outside, or a cancellation of the task that rests on it. -/
inductive Settles (s : Service) (roles : Roles Hook Job) (mv : Service.Move) (p : PromiseId)
    (o : Settled Reply) : Prop
  | errand (h : s.loop.Yields roles p o)
  | called {language : String} (hp : roles p = .ticket language) (ho : o = .value .nothing)
  | ended (hp : roles p = .gate) (ho : o ≠ .cancelled)
  | cancelled {t : PromiseId} {point : Stage} (hplace : s.loop.place? t = some (point, some p))
      (hc : SparesOperations s mv → point.role = .call ∧ s.Cancels t mv) (ho : o = .cancelled)

/-- How a step settles a promise that is not a task's. -/
theorem Step.outcome?_cases (h : AtRest s roles) (hst : Step s roles mv s' roles')
    (hp : (roles' p).isTask = false) (ho : s'.loop.outcome? p = some o) :
    s.loop.outcome? p = some o ∨ s.Settles roles' mv p o := by
  cases hst with
  | idle => exact .inl ho
  | @carried i e hi hw hk => exact (outcome?_effect h.sound hi ho).imp_right .errand
  | @forgotten i hook op hi => cases hook <;> exact .inl ho
  | expired => exact .inl ((Still.expireDue.outcome p).symm.trans ho)
  | clocked time => exact .inl ho
  | spawned call => exact .inl (((Still.spawn _).outcome p).symm.trans ho)
  | workedOff hi =>
    rw [Work.workOff_eq hi] at ho
    exact .inl ho
  | cancelled t ha =>
    rcases (h.struck ha).outcome ho with ho | ⟨rfl, t', task, hcall, hget, hr⟩
    · exact .inl ho
    · have hplace := place?_of_get? hget
      refine .inr (.cancelled (hr ▸ hplace) (fun hsp => ?_) rfl)
      exact ⟨(h.placed hplace).role.symm.trans (hcall hsp).1, (hcall hsp).2⟩
  | leaseEnded hg fault =>
    rw [outcome?_settle] at ho
    split at ho
    · rename_i hc
      refine .inr (.ended (hc.1 ▸ h.gate hg) ?_)
      cases ho
      cases fault <;> simp
    · exact .inl ho
  | @turn i t task given turn m hwakes hsts hres hend =>
    have ht := h.takeUp hwakes
    rw [(ht.strides hsts).outcome?_conclude hp] at ho
    exact (hsts.outcome?_cases ht ho).imp_right fun h => h.1.elim fun _ hl => .called hl h.2

/-- A parser's job is settled by its outcome only. -/
theorem Step.outcome?_parse (h : AtRest s roles) (hst : Step s roles mv s' roles') {parser : Nat}
    {source : List UInt8} (hp : roles' p = .job (.parse parser source))
    (ho : s'.loop.outcome? p = some o) :
    s.loop.outcome? p = some o ∨ ∃ x, .deliver p x ∈ s.loop.agenda ∧ o = .ofResult x := by
  refine (hst.outcome?_cases h (by rw [hp]; rfl) ho).imp_right fun hs => ?_
  rcases hs with (⟨hr, _⟩ | ⟨hr, _⟩ | ⟨hr, _, _⟩ | ⟨hr, _⟩ | ⟨hm, hx⟩) | ⟨hr, _⟩ | ⟨hr, _⟩ | ⟨hplace, _, _⟩
  case errand.delivered => exact ⟨_, hm, hx⟩
  case cancelled =>
    have ha := ((h.placed hplace).rest.mono (h.step hst).2).awaits
    rw [hp] at ha
    exact ha.elim
  all_goals simp [hp] at hr

/-- What a step makes of a task.  It rests as before, and is marked only if the step cancels it; or it has
    come to rest on nothing, or on a new promise, and is not marked. -/
theorem Step.task_cases (h : AtRest s roles) (hst : Step s roles mv s' roles') {task : Task Stage}
    (hget : s'.loop.tasks.get? t = some task) :
    (∃ before, s.loop.tasks.get? t = some before ∧ task.restsOn = before.restsOn ∧
      (task.marked = true → before.marked = true ∨
        (SparesOperations s mv → roles t = .call ∧ s.Cancels t mv))) ∨
    task.marked = false ∧ ∀ p, task.restsOn = some p → s.loop.promises.size ≤ p := by
  cases hst with
  | idle => exact .inl ⟨task, hget, rfl, .inl⟩
  | @carried i e hi hw hk =>
    have he := congrArg (·.get? t) (tasks_effect (l := s.loop.pick i) e)
    exact .inl ⟨task, he.symm.trans hget, rfl, .inl⟩
  | @forgotten i hook op hi => cases hook <;> exact .inl ⟨task, hget, rfl, .inl⟩
  | expired => exact .inl ⟨task, hget, rfl, .inl⟩
  | clocked time => exact .inl ⟨task, hget, rfl, .inl⟩
  | spawned call =>
    rw [get?_tasks_spawn] at hget
    split at hget
    · cases hget
      exact .inr ⟨rfl, by simp⟩
    · exact .inl ⟨task, hget, rfl, .inl⟩
  | workedOff hi =>
    rw [Work.workOff_eq hi] at hget
    exact .inl ⟨task, hget, rfl, .inl⟩
  | cancelled t' ha =>
    obtain ⟨before, hget', _, hon, hmark⟩ := (h.struck ha).task hget
    exact .inl ⟨before, hget', hon, hmark⟩
  | leaseEnded hg fault =>
    rw [tasks_settle] at hget
    exact .inl ⟨task, hget, rfl, .inl⟩
  | @turn i t' before given turn m hwakes hsts hres hend =>
    by_cases he : t = t'
    · subst he
      unfold Program.conclude at hget
      cases turn with
      | rest on point =>
        obtain ⟨_, _, _, _, hle, _⟩ := hend
        rw [tasks_subscribe, Keyed.get?_put, if_pos rfl] at hget
        cases hget
        exact .inr ⟨rfl, by rintro p ⟨⟩; exact hle⟩
      | giveWay point =>
        simp only [enqueue, Keyed.get?_put, if_pos] at hget
        cases hget
        exact .inr ⟨rfl, by simp⟩
      | finish result =>
        rw [tasks_settle, Keyed.get?_erase, if_pos rfl] at hget
        cases hget
    · rw [get?_tasks_conclude he] at hget
      rcases Strides.started hsts hget with hget | ⟨hon, hm⟩
      · exact .inl ⟨task, hget, rfl, .inl⟩
      · exact .inr ⟨hm, by simp [hon]⟩

/-- A task has rested on the promise before, or the promise is new. -/
theorem Step.rested_cases (h : AtRest s roles) (hst : Step s roles mv s' roles')
    (hp : s'.loop.place? t = some (point, some p)) :
    (∃ before, s.loop.place? t = some (before, some p)) ∨ s.loop.promises.size ≤ p := by
  obtain ⟨task, hget, _, hon⟩ := place?_eq_some_iff.1 hp
  rcases hst.task_cases h hget with ⟨before, hbefore, hsame, _⟩ | ⟨_, hnew⟩
  · refine .inl ⟨before.point, ?_⟩
    rw [place?_of_get? hbefore, ← hsame, hon]
  · exact .inr (hnew p hon)

/-- Tasks rest on promises that there are, each on its own. -/
theorem Ordered.place?_lt (h : AtRest s roles) (hp : s.loop.place? t = some (point, some p)) :
    p < s.loop.promises.size := by
  obtain ⟨task, hget, _, hon⟩ := place?_eq_some_iff.1 hp
  exact (h.sound.tended.resting (by simp) hget hon).1

theorem Ordered.place?_alone (h : AtRest s roles) {point' : Stage}
    (hp : s.loop.place? t = some (point, some p)) (hp' : s.loop.place? c = some (point', some p)) :
    t = c := by
  obtain ⟨task, hget, _, hon⟩ := place?_eq_some_iff.1 hp
  obtain ⟨task', hget', _, hon'⟩ := place?_eq_some_iff.1 hp'
  exact h.sound.tended.alone (by simp) (by simp) hget hget' hon hon'

/-! ## Groups -/

/-- Strides bring no cancellation to a group. -/
theorem Stride.intact (hst : Stride w m m') (h : m.service.loop.Intact p) : m'.service.loop.Intact p := by
  cases hst with
  | bootJoined hb hr => exact h.congr groups_subscribe
  | bootLaunched hb hn => exact h.congr (groups_subscribe.trans groups_subscribe)
  | loadJoined language hb hr => exact h.congr groups_subscribe
  | loadLaunched language hb hn => exact h.congr (groups_subscribe.trans groups_subscribe)
  | submitted crew hc hg => exact h.congr Work.groups_handedIn
  | guarded hg => exact h.congr groups_subscribe
  | waited hg => exact h.congr groups_subscribe
  | unsubscribed hs => exact h.congr groups_unsubscribe
  | calledNext hg hp hheld hk => exact h.congr groups_settle
  | grouped hm => exact h.group _
  | dismissed => exact h.congr Work.groups_dismiss
  | _ => exact h

theorem Strides.intact (hst : Strides w m m') (h : m.service.loop.Intact p) :
    m'.service.loop.Intact p := by
  induction hst with
  | refl => exact h
  | tail _ hstep ih => exact hstep.intact ih

/-- A step that spares the operations brings a cancellation to a group only by cancelling the task that
    rests on it. -/
theorem Step.intact (hst : Step s roles mv s' roles') (hsp : SparesOperations s mv)
    (hn : ∀ {t point}, s.loop.place? t = some (point, some p) → ¬ s.Cancels t mv)
    (h : s.loop.Intact p) : s'.loop.Intact p := by
  cases hst with
  | idle => exact h
  | carried hi hw hk => exact Intact.effect (l := s.loop.pick _) h _
  | @forgotten i hook op hi => cases hook <;> exact h
  | expired => exact h
  | clocked time => exact h
  | spawned call => exact h
  | workedOff hi =>
    rw [Work.workOff_eq hi]
    exact h
  | @cancelled a t ha =>
    refine h.cancelTask fun task hget hon => ?_
    have hplace := place?_of_get? hget
    rw [hon] at hplace
    rcases ha with rfl | ⟨rfl, _⟩ | ⟨language, rfl, _⟩
    · exact hn hplace (.inl rfl)
    · exact hsp
    · exact hsp
  | leaseEnded hg fault => exact h.congr groups_settle
  | turn hwakes hsts hres hend => exact (Strides.intact hsts h).congr groups_conclude

/-! ## What becomes of the world -/

variable {F : Fault → Prop} {G : Grammar → Prop} {P : World → Prop}

theorem Stride.keeps (h : Attempt.KeptByWork F G P) (hst : Stride w m m') (hw : P m.service.world) :
    P m'.service.world := by
  cases hst with
  | probed table => exact (Attempt.keeps_availability h.toKeptByImports table).world hw
  | leaseNoted holder parser => exact h.noted _ hw
  | submitted crew hc hg => exact Work.keeps_handedIn h.toKeptByFetches hw
  | @parserMade language engine g parser world hn he hb =>
    have hk := (h.bound engine g).world hw
    rwa [hb] at hk
  | @parserFailed engine g f world hb =>
    have hk := (h.bound engine g).world hw
    rwa [hb] at hk
  | dismissed => exact Work.keeps_dismiss h.toKeptByFetches hw
  | _ => exact hw

theorem Strides.keeps (h : Attempt.KeptByWork F G P) (hst : Strides w m m') (hw : P m.service.world) :
    P m'.service.world := by
  induction hst with
  | refl => exact hw
  | tail _ hstep ih => exact hstep.keeps h ih

/-- Every step keeps what all work keeps. -/
theorem Step.keeps (h : Attempt.KeptByWork F G P) (hst : Step s roles mv s' roles') (hw : P s.world) :
    P s'.world := by
  cases hst with
  | @forgotten i hook op hi => cases hook <;> exact hw
  | workedOff hi =>
    rw [Work.workOff_eq hi]
    exact Job.keeps h.toKeptByFetches _ hw
  | turn hwakes hsts hres hend => exact Strides.keeps h hsts hw
  | _ => exact hw

end SourceTrees.Service
