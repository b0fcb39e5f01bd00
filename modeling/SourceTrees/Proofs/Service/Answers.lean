import SourceTrees.Proofs.Service.Queue

/-!
# What shared operations are given

In a world whose jobs have outcomes of some kind only, a shared operation is given nothing else: the jobs
it waits for are not cancelled as long as the operation is not, and its timers run out.

## Results

* `Service.Answered` — the invariant: outcomes on their way and outcomes that have come are of the kind,
  and operations are not marked.
* `Service.Answered.step` — kept by every step that spares the operations.
* `Service.Answered.given` — what an operation meets when it has its turn.
-/

set_option autoImplicit false

namespace SourceTrees

/-- The jobs of shared operations. -/
def Job.isShared : Job → Bool
  | boot _ | grammar .. => true
  | _ => false

/-- What settles a promise from outside is what those get who rest on it. -/
theorem Settled.result_ofResult {V : Type} (x : Except Fault V) : (Settled.ofResult x).result = x := by
  cases x <;> rfl

theorem Program.met_of_not_marked {P V : Type} {task : Task P} (h : task.marked = false)
    (given : Except Fault V) : Program.met task given = given := by
  cases given <;> simp [Program.met, h]

namespace Service

open Loop

variable {C : World → Job → Except Fault Reply → Prop} {W : World → Prop} {s s' : Service}
  {roles roles' : Roles Hook Job} {w : Woken} {m m' : Midst} {mv : Service.Move} {p t : PromiseId}
  {turn : Turn Stage Reply}

/-- Jobs that are done in worlds of the kind have outcomes of the kind.  What the kind is may depend on
    what has been compiled in the world, and goes on when more is. -/
structure Sure (W : World → Prop) (C : World → Job → Except Fault Reply → Prop) : Prop where
  kept : ∃ F G, Attempt.KeptByWork F G W
  run : ∀ (job : Job) {w : World}, W w → C (job.run w).2 job (job.run w).1
  lasting : ∀ {w w' : World} {job : Job} {x : Except Fault Reply}, w.pointers <+: w'.pointers →
    C w job x → C w' job x

/-- What is delivered is of the kind. -/
structure Delivers (C : World → Job → Except Fault Reply → Prop) (s : Service)
    (roles : Roles Hook Job) : Prop where
  delivered : ∀ {p x job}, .deliver p x ∈ s.loop.agenda → roles p = .job job → C s.world job x

/-- What is delivered, and what shared operations wait for, is of the kind. -/
structure Answered (C : World → Job → Except Fault Reply → Prop) (s : Service)
    (roles : Roles Hook Job) : Prop extends Delivers C s roles where
  settled : ∀ {p o job}, roles p = .job job → job.isShared = true → s.loop.outcome? p = some o →
    ∃ x, C s.world job x ∧ o = .ofResult x
  expired : ∀ {p o}, roles p = .timer → s.loop.outcome? p = some o → o = .value default
  unmarked : ∀ {t task}, s.loop.tasks.get? t = some task → roles t ≠ .call → task.marked = false
  named : ∀ {p engine}, roles p = .job (.boot engine) → engine = s.config.engineModule

/-- What is delivered in the course of a turn is of the kind. -/
theorem Strides.delivered (hs : Sure W C) (ht : InTurn w m) (hst : Strides w m m')
    (hw : W m.service.world)
    (hd : ∀ {x job}, .deliver p x ∈ m.service.loop.agenda → m.roles p = .job job →
      C m.service.world job x)
    {x : Except Fault Reply} {job : Job} (hm : .deliver p x ∈ m'.service.loop.agenda)
    (hp : m'.roles p = .job job) : C m'.service.world job x := by
  obtain ⟨F, G, hkept⟩ := hs.kept
  induction hst generalizing x job with
  | refl => exact hd hm hp
  | @tail m₁ m₂ hst hstep ih =>
    have ht₁ := ht.strides hst
    have hext := hstep.extends ht₁
    have hold : .deliver p x ∈ m₁.service.loop.agenda → C m₂.service.world job x := by
      intro hm₁
      obtain ⟨job', hj⟩ := ht₁.ordered.sound.assigned.delivered hm₁
      have he := hext.eq hj (by simp)
      rw [hp] at he
      cases he
      exact hs.lasting (hstep.keeps (Attempt.keptByWork_pointers _) (List.prefix_refl _)) (ih hm₁ hj)
    have hlast := hstep.keeps (Attempt.keptByWork_pointers m₁.service.world.pointers) (List.prefix_refl _)
    rcases hstep.delivers with ⟨crew, job', he, hroles⟩ | ⟨he, hroles⟩ | hi
    · rw [he] at hm hold ⊢
      rw [hroles] at hp
      unfold Work.handedIn at hm hold ⊢
      split at hm
      · rename_i heager
        rw [if_pos heager] at hold ⊢
        rcases List.mem_append.1 hm with hm | hm
        · exact hold hm
        · injection List.mem_singleton.1 hm with hq hx
          subst hq hx
          cases (Function.update_self ..).symm.trans hp
          exact hs.run job (Strides.keeps hkept hst hw)
      · rename_i heager
        rw [if_neg heager] at hold ⊢
        exact hold hm
    · rw [he, Work.dismiss_eq] at hm hold ⊢
      rw [hroles] at hp
      cases hstuck : m₁.service.workers.stuck with
      | some f =>
        rw [hstuck] at hm hold
        exact hold hm
      | none =>
        rw [hstuck] at hm hold
        rcases List.mem_append.1 hm with hm | hm
        · exact hold hm
        · obtain ⟨k, hk, w', hx, hworld⟩ := Ticket.mem_runAll hm
          injection hx with hq hx
          subst hq hx
          have hj := ht₁.ordered.queued (List.mem_filter.1 hk).1
          rw [hp] at hj
          cases hj
          refine hs.lasting ?_
            (hs.run _ ((hworld hkept.toKeptByFetches).1 (Strides.keeps hkept hst hw)))
          exact (hworld (Attempt.keptByWork_pointers _).toKeptByFetches).2 (List.prefix_refl _)
    · exact hold (hi.delivered hm)

/-- What is delivered after a step is of the kind, if it was before. -/
theorem Step.delivered (hs : Sure W C) (ho : AtRest s roles) (hst : Step s roles mv s' roles')
    (hw : W s.world)
    (h : ∀ {x job}, .deliver p x ∈ s.loop.agenda → roles p = .job job → C s.world job x)
    {x : Except Fault Reply} {job : Job} (hm : .deliver p x ∈ s'.loop.agenda)
    (hp : roles' p = .job job) : C s'.world job x := by
  have hext := (ho.step hst).2
  have hold : .deliver p x ∈ s.loop.agenda → C s'.world job x := by
    intro hm
    obtain ⟨job', hj⟩ := ho.sound.assigned.delivered hm
    have he := hext.eq hj (by simp)
    rw [hp] at he
    cases he
    exact hs.lasting (hst.keeps (Attempt.keptByWork_pointers _) (List.prefix_refl _)) (h hm hj)
  rcases hst.idles ho with ⟨i, k, hi, rfl⟩ | hi | ⟨w, m, turn, ht, rfl, rfl⟩
  · rw [Work.workOff_eq hi] at hm hold ⊢
    rcases List.mem_append.1 hm with hm | hm
    · exact hold hm
    · injection List.mem_singleton.1 hm with hq hx
      subst hq hx
      have hj := hext.eq (ho.queued (List.mem_of_getElem? hi)) (by simp)
      rw [hp] at hj
      cases hj
      exact hs.run _ hw
  · exact hold (hi.delivered hm)
  · obtain ⟨i, hb⟩ := ht.before
    refine Strides.delivered hs ht.started ht.strides ?_ (fun hm hp => ?_) (delivered_conclude hm) hp
    · show W w.before.world
      rw [hb]
      exact hw
    · have hm' : _ ∈ w.before.loop.agenda := hm
      show C w.before.world _ _
      rw [hb] at hm' ⊢
      exact h (mem_agenda_of_mem_pick hm') hp

/-- A job that a promise has come to stand for has just been handed in. -/
theorem Stride.job_cases (hst : Stride w m m') {job : Job} (hp : m'.roles p = .job job) :
    m.roles p = .job job ∨ ∃ grip, Submits w m.service m.grip job grip := by
  have hnew : ∀ {role : Role Hook Job}, role ≠ .job job →
      Function.update m.roles m.service.loop.promises.size role p = .job job →
      m.roles p = .job job := by
    intro role hne hp
    rw [Function.update_apply] at hp
    split at hp
    · exact absurd hp hne
    · exact hp
  have hlaunch : ∀ {hook : Hook}, Function.update
      (Function.update m.roles m.service.loop.promises.size (.operation hook))
      (m.service.loop.promises.size + 1) (.shield m.service.loop.promises.size) p = .job job →
      m.roles p = .job job := by
    intro hook hp
    rw [Function.update_apply] at hp
    split at hp
    · cases hp
    · exact hnew (by simp) hp
  cases hst with
  | bootJoined hb hr => exact .inl (hnew (by simp) hp)
  | bootLaunched hb hn => exact .inl (hlaunch hp)
  | loadJoined language hb hr => exact .inl (hnew (by simp) hp)
  | loadLaunched language hb hn => exact .inl (hlaunch hp)
  | @submitted crew job' grip hc hg =>
    replace hp : Function.update m.roles m.service.loop.promises.size (.job job') p = .job job := hp
    rw [Function.update_apply] at hp
    split at hp
    · cases hp
      exact .inr ⟨grip, hg⟩
    · exact .inl hp
  | guarded hg => exact .inl (hnew (by simp) hp)
  | waited hg => exact .inl (hnew (by simp) hp)
  | bootTimed seconds hg => exact .inl (hnew (by simp) hp)
  | drawn hg hpool => exact .inl (hnew (by simp) hp)
  | gateMade => exact .inl (hnew (by simp) hp)
  | spawned call => exact .inl (hnew (by simp) hp)
  | grouped hm => exact .inl (hnew (by simp) hp)
  | _ => exact .inl hp

/-- Only the configured engine is imported, and the configuration stays. -/
theorem Stride.engine_named (hst : Stride w m m') :
    m'.service.config = m.service.config ∧ ∀ {p engine}, m'.roles p = .job (.boot engine) →
      m.roles p = .job (.boot engine) ∨ engine = m.service.config.engineModule := by
  refine ⟨?_, fun hp => (hst.job_cases hp).imp_right fun ⟨grip, hg⟩ => ?_⟩
  · cases hst with
    | submitted crew hc hg => exact Work.known_handedIn.1
    | dismissed => exact Work.known_dismiss.1
    | _ => rfl
  · generalize m.grip = before at hg
    cases hg
    rfl

theorem Strides.engine_named (hst : Strides w m m') :
    m'.service.config = m.service.config ∧ ∀ {p engine}, m'.roles p = .job (.boot engine) →
      m.roles p = .job (.boot engine) ∨ engine = m.service.config.engineModule := by
  induction hst with
  | refl => exact ⟨rfl, .inl⟩
  | tail hst hstep ih =>
    obtain ⟨hc, hn⟩ := hstep.engine_named
    refine ⟨hc.trans ih.1, fun hp => ?_⟩
    rcases hn hp with hp | he
    · exact ih.2 hp
    · exact .inr (ih.1 ▸ he)

theorem Step.engine_named (h : AtRest s roles) (hst : Step s roles mv s' roles') :
    s'.config = s.config ∧ ∀ {p engine}, roles' p = .job (.boot engine) →
      roles p = .job (.boot engine) ∨ engine = s.config.engineModule := by
  rcases hst.aside_or_turn h with ha | ⟨w, m, turn, ht, rfl, rfl⟩
  · exact ⟨ha.config, fun hp => .inl (ha.role hp (by simp))⟩
  · obtain ⟨hc, hn⟩ := Strides.engine_named ht.strides
    obtain ⟨i, hb⟩ := ht.before
    have he : w.before.config = s.config := by rw [hb]
    exact ⟨hc.trans he, fun hp => (hn hp).imp_right fun hx => he ▸ hx⟩

/-- Nobody but the operation waits for what it waits for. -/
theorem role_of_awaits {point : Stage} {role : Role Hook Job} (h : point.rest.Awaits p role)
    (hrole : role = .timer ∨ ∃ job : Job, role = .job job ∧ job.isShared = true) :
    point.role ≠ .call := by
  have hstage : (∃ q, point = .boot q) ∨ ∃ q, point = .fetch q := by
    rcases hrole with rfl | ⟨job, rfl, hs⟩
    · exact .inl (Stage.exists_boot (.inr ⟨p, h⟩))
    · cases job with
      | boot engine => exact .inl (Stage.exists_boot (.inl h))
      | grammar engine locator =>
        obtain ⟨language, he⟩ := Stage.exists_fetch h
        exact .inr ⟨_, he⟩
      | parse parser source => cases hs
      | copy language source root => cases hs
  rcases hstage with ⟨q, rfl⟩ | ⟨q, rfl⟩
  · simp [Stage.role]
  · cases q <;> simp [Stage.role]

namespace Delivers

theorem opened (config : Config) (world : World) (eager : Bool) (stuck : Option Fault)
    (log : List LogLine) : Delivers C (Service.opened config world eager stuck log) fun _ => .unused :=
  ⟨fun h => by simp at h⟩

/-- Every step keeps it. -/
theorem step (hs : Sure W C) (h : Delivers C s roles) (ho : AtRest s roles)
    (hst : Step s roles mv s' roles') (hw : W s.world) : Delivers C s' roles' :=
  ⟨hst.delivered hs ho hw h.delivered⟩

end Delivers

namespace Answered

theorem opened (config : Config) (world : World) (eager : Bool) (stuck : Option Fault)
    (log : List LogLine) :
    Answered C (Service.opened config world eager stuck log) fun _ => .unused := by
  refine ⟨.opened .., fun h => ?_, fun h => ?_, fun h => ?_, fun h => ?_⟩
  · cases h
  · cases h
  · simp [Keyed.get?, Keyed.empty, Keyed.lookIn] at h
  · cases h

/-- Marks of operations do not come. -/
theorem unmarked_step (h : Answered C s roles) (ho : AtRest s roles)
    (hst : Step s roles mv s' roles') (hsp : SparesOperations s mv) {task : Task Stage}
    (hget : s'.loop.tasks.get? t = some task) (hcall : roles' t ≠ .call) : task.marked = false := by
  have hcall' : roles t ≠ .call := fun hc => hcall ((ho.step hst).2.eq hc (by simp))
  rcases hst.task_cases ho hget with ⟨before, hbefore, _, hmark⟩ | ⟨hm, _⟩
  · by_contra hne
    rcases hmark (by simpa using hne) with hm | hc
    · rw [h.unmarked hbefore hcall'] at hm
      cases hm
    · exact hcall' (hc hsp).1
  · exact hm

/-- What a step settles a job or a timer of an operation with. -/
theorem settles_shared (ho : AtRest s roles) (hst : Step s roles mv s' roles')
    (hsp : SparesOperations s mv) {o : Settled Reply}
    (hp : roles' p = .timer ∨ ∃ job : Job, roles' p = .job job ∧ job.isShared = true)
    (hs : s.Settles roles' mv p o) :
    (∃ x, .deliver p x ∈ s.loop.agenda ∧ o = .ofResult x) ∨ roles' p = .timer ∧ o = .value default := by
  rcases hs with (⟨hr, _⟩ | ⟨hr, _⟩ | ⟨hr, _, _⟩ | ⟨hr, he⟩ | ⟨hm, hx⟩) | ⟨hr, _⟩ | ⟨hr, _⟩ |
    ⟨hplace, hc, _⟩
  case errand.expired => exact .inr ⟨hr, he⟩
  case errand.delivered => exact .inl ⟨_, hm, hx⟩
  case cancelled =>
    have ha := ((ho.placed hplace).rest.mono (ho.step hst).2).awaits
    exact absurd (hc hsp).1 (role_of_awaits ha hp)
  all_goals simp [hr] at hp

/-- Every step that spares the operations keeps the answers. -/
theorem step (hs : Sure W C) (h : Answered C s roles) (ho : AtRest s roles)
    (hst : Step s roles mv s' roles') (hsp : SparesOperations s mv) (hw : W s.world) :
    Answered C s' roles' := by
  obtain ⟨ho', hext⟩ := ho.step hst
  have hrole : ∀ {q role o}, s.loop.outcome? q = some o → roles' q = role → roles q = role := by
    intro q role o hout hq
    rw [← hext q (ho.sound.assigned.role_ne_unused (outcome?_lt hout)), hq]
  have hlast : ∀ {job x}, C s.world job x → C s'.world job x := fun hc =>
    hs.lasting (hst.keeps (Attempt.keptByWork_pointers _) (List.prefix_refl _)) hc
  refine ⟨h.toDelivers.step hs ho hst hw, fun {p o job} hp hj hout => ?_,
    fun {p o} hp hout => ?_, fun hget hcall => h.unmarked_step ho hst hsp hget hcall, fun hp => ?_⟩
  · rcases hst.outcome?_cases ho (by rw [hp]; rfl) hout with hout | hset
    · obtain ⟨x, hx, he⟩ := h.settled (hrole hout hp) hj hout
      exact ⟨x, hlast hx, he⟩
    · rcases settles_shared ho hst hsp (.inr ⟨job, hp, hj⟩) hset with ⟨x, hm, rfl⟩ | ⟨ht, _⟩
      · obtain ⟨job', hj'⟩ := ho.sound.assigned.delivered hm
        cases hp.symm.trans (hext.eq hj' (by simp))
        exact ⟨x, hlast (h.delivered hm hj'), rfl⟩
      · simp [hp] at ht
  · rcases hst.outcome?_cases ho (by rw [hp]; rfl) hout with hout | hset
    · exact h.expired (hrole hout hp) hout
    · rcases settles_shared ho hst hsp (.inl hp) hset with ⟨x, hm, rfl⟩ | ⟨_, he⟩
      · obtain ⟨job', hj'⟩ := ho.sound.assigned.delivered hm
        cases hp.symm.trans (hext.eq hj' (by simp))
      · exact he
  · obtain ⟨hc, hn⟩ := hst.engine_named ho
    rw [hc]
    exact (hn hp).elim h.named id

/-- What a shared operation meets when it has its turn. -/
theorem given (h : Answered C s roles) (ht : HasTurn s roles w m turn) (hr : w.stage.role ≠ .call) :
    match w.stage with
    | .boot (.importing _) => C s.world (.boot s.config.engineModule) w.given
    | .fetch (.fetching _ locator) => ∃ p engine, roles p = .job (.grammar engine locator) ∧
        C s.world (.grammar engine locator) w.given
    | _ => w.given = .ok default := by
  obtain ⟨task, given, hget, _, hplaced, hgives, hmet⟩ := ht.woken
  have hrest := hplaced.rest
  have hunmarked := h.unmarked hget fun hc => hr (hplaced.role.symm.trans hc)
  rw [Program.met_of_not_marked hunmarked] at hmet
  -- What a promise of the operation gives is what it was settled with before the turn.
  have hsettled : ∀ {p}, task.restsOn = some p → ∃ o, s.loop.outcome? p = some o ∧
      w.given = o.result := by
    intro p hon
    unfold Loop.Gives at hgives
    rw [hon] at hgives
    obtain ⟨o, hout, rfl⟩ := hgives
    exact ⟨o, hout, hmet⟩
  have hready : task.restsOn = none → w.given = .ok default := by
    intro hon
    unfold Loop.Gives at hgives
    rw [hon] at hgives
    exact hmet.trans hgives
  cases hs : w.stage with
  | boot point =>
    rw [hs] at hrest
    cases point with
    | start => exact hready hrest
    | importing attempt =>
      obtain ⟨p, engine, hon, hp⟩ := hrest
      obtain ⟨o, hout, hgiven⟩ := hsettled hon
      obtain ⟨x, hx, rfl⟩ := h.settled hp rfl hout
      rw [h.named hp] at hx
      exact (hgiven.trans (Settled.result_ofResult x)) ▸ hx
    | pausing attempt timer =>
      cases timer with
      | none => exact hready hrest
      | some p =>
        obtain ⟨hon, hp⟩ := hrest
        obtain ⟨o, hout, hgiven⟩ := hsettled hon
        rw [h.expired hp hout] at hgiven
        exact hgiven
  | fetch point =>
    rw [hs] at hrest
    cases point with
    | start language => exact hready hrest
    | fetching language locator =>
      obtain ⟨p, engine, hon, hp⟩ := hrest
      obtain ⟨o, hout, hgiven⟩ := hsettled hon
      obtain ⟨x, hx, rfl⟩ := h.settled hp rfl hout
      exact ⟨p, engine, hp, (hgiven.trans (Settled.result_ofResult x)) ▸ hx⟩
  | _ => simp [hs, Stage.role] at hr

end Answered

end Service

end SourceTrees
