import SourceTrees.Proofs.Flight.RunOnce
import SourceTrees.Proofs.Loop.Alike

/-!
# Callers put aside

A set of callers is put **aside**: once one of them rests on a shield of its operation, nobody else is to
see whether it goes on resting there, is cancelled, or has ended.  Aside are such a caller and the
shield on which it rests.

## Protocol

* The errands that continue callers aside are their own; all others see the rest of the agenda, each
  errand in its place there.
* What happens aside is not seen; what is seen does the same to two states that look alike.

## Results

* `Callers.Aside` — what is aside is never seen; kept by every step, `Callers.Aside.step`.
* `Callers.Aside.quiet` — a move that is not seen changes nothing that is.
* `Callers.Alike.move` — a move that is seen does the same to two states that look alike.
-/

set_option autoImplicit false

namespace SourceTrees.Flight.Callers

open Loop

variable {C : Finset PromiseId} {H H' : PromiseId → Prop} {roles roles' : Roles String Empty}
  {s s' s₁ s₁' : Callers} {m m' : Move} {t c p : PromiseId}

/-- The caller rests on a shield: it has started or joined an operation, and has not received the
    outcome. -/
def Waits (s : Callers) (c : PromiseId) : Prop :=
  ∃ outer, s.loop.place? c = some (.attached, some outer)

/-- A caller of the set that waits, or the shield on which it rests. -/
def Sheltered (C : Finset PromiseId) (s : Callers) (p : PromiseId) : Prop :=
  ∃ c ∈ C, ∃ outer, s.loop.place? c = some (.attached, some outer) ∧ (p = c ∨ p = outer)

/-- Nobody in the set is an operation. -/
def NoOperation (C : Finset PromiseId) (s : Callers) : Prop :=
  ∀ c ∈ C, ∀ point on, s.loop.place? c = some (point, on) → point.isOperation = false

/-- The role is that of a caller, an operation, a shield of an operation, or a gate. -/
def PlainRole (roles : Roles String Empty) : Role String Empty → Prop
  | .unused | .call | .operation _ | .gate => True
  | .shield q => ∃ key, roles q = .operation key
  | _ => False

/-- The promises are those of callers and operations, shields of operations, and gates. -/
def Plain (roles : Roles String Empty) : Prop := ∀ p, PlainRole roles (roles p)

/-- What is aside, and that it is not seen. -/
structure Aside (C : Finset PromiseId) (H : PromiseId → Prop) (roles : Roles String Empty)
    (s : Callers) : Prop where
  sheltered : ∀ {p}, Sheltered C s p → H p
  role : ∀ {p}, H p → p ∈ C ∧ roles p = .call ∨ ∃ op, roles p = .shield op
  seen : ∀ {t point p}, t ∉ C → s.loop.place? t = some (point, some p) → ¬ H p
  attached : ∀ {c point on}, H c → s.loop.place? c = some (point, on) → point = .attached
  callers : NoOperation C s
  plain : Plain roles

/-! ## What a step does to tasks -/

/-- Where the task of a later state comes from. -/
inductive Comes (s : Callers) (t : PromiseId) (task' : Task CallerPoint) : Prop
  | same (h : s.loop.tasks.get? t = some task')
  | marked {task : Task CallerPoint} (h : s.loop.tasks.get? t = some task)
      (he : task' = { task with marked := true })
  | fresh (h : s.loop.promises.size ≤ t) (hon : task'.restsOn = none)
  | attached {task : Task CallerPoint} {name key : String} {work : Work} {outer : PromiseId}
      (h : s.loop.tasks.get? t = some task) (hp : task.point = .arriving name key work)
      (hm : task.marked = false) (ho : s.loop.promises.size ≤ outer)
      (he : task' = { point := .attached, restsOn := some outer })
  | gated {task : Task CallerPoint} {name : String} {gate : PromiseId}
      (h : s.loop.tasks.get? t = some task) (hp : task.point = .beginning name .gate)
      (hg : s.loop.promises.size ≤ gate) (he : task' = { point := .gated, restsOn := some gate })

theorem get?_tasks_cancelMember {l : Loop Json CallerPoint String} {task' : Task CallerPoint}
    (h : (l.cancelMember t).2.tasks.get? c = some task') :
    l.tasks.get? c = some task' ∨
      ∃ task, l.tasks.get? c = some task ∧ task' = { task with marked := true } := by
  have hmark : (l.mark t).tasks.get? c = some task' → l.tasks.get? c = some task' ∨
      ∃ task, l.tasks.get? c = some task ∧ task' = { task with marked := true } := by
    intro h
    rw [get?_tasks_mark] at h
    obtain ⟨task, hg, rfl⟩ := Option.map_eq_some_iff.1 h
    split
    · exact .inr ⟨task, hg, rfl⟩
    · exact .inl hg
  unfold Loop.cancelMember at h
  split at h
  · exact .inl h
  · split at h
    · split at h
      · rw [tasks_settle] at h
        exact .inl h
      · exact hmark h
    · exact hmark h

/-- Every task after a step is one of before, or comes from it in one of these ways. -/
theorem Comes.of_step (h : Ordered roles s) (hstep : Step roles s m roles' s')
    {task' : Task CallerPoint} (ht : s'.loop.tasks.get? t = some task') : Comes s t task' := by
  cases hstep with
  | idle _ => exact .same ht
  | carried hi hw hk =>
    rw [tasks_effect] at ht
    exact .same ht
  | forgotten hi => exact .same ht
  | called name key work =>
    rw [get?_tasks_spawn] at ht
    split at ht
    · rename_i he
      cases ht
      exact .fresh (Nat.le_of_eq he.symm) rfl
    · exact .same ht
  | cancelled t' _ =>
    rw [cancelTask_eq h.alone] at ht
    rcases get?_tasks_cancelMember ht with ht | ⟨task, ht, he⟩
    · exact .same ht
    · exact .marked ht he
  | opened hg outcome =>
    rw [tasks_settle] at ht
    exact .same ht
  | @ended _ t' _ _ _ begun hw hr =>
    by_cases he : t = t'
    · subst he
      simp [Program.conclude] at ht
    · rw [get?_tasks_conclude he] at ht
      exact .same ht
  | @joined i t' op task given name key work hw hp hm hr =>
    by_cases he : t = t'
    · subst he
      rw [get?_tasks_rest] at ht
      cases ht
      exact .attached hw.unfinished hp hm (Nat.le_refl _) rfl
    · rw [get?_tasks_conclude he, Loop.shield, tasks_subscribe] at ht
      exact .same ht
  | @launched i t' task given name key work hw hp hm hn hwork =>
    by_cases he : t = t'
    · subst he
      rw [get?_tasks_rest] at ht
      cases ht
      exact .attached hw.unfinished hp hm (Nat.le_succ _) rfl
    · rw [get?_tasks_conclude he, Loop.shield, tasks_subscribe, tasks_promise, launch,
        tasks_subscribe, get?_tasks_spawn] at ht
      split at ht
      · rename_i he
        cases ht
        exact .fresh (Nat.le_of_eq he.symm) rfl
      · exact .same ht
  | @gated i t' task given name hw hp =>
    by_cases he : t = t'
    · subst he
      rw [get?_tasks_rest] at ht
      cases ht
      exact .gated hw.unfinished hp (Nat.le_refl _) rfl
    · rw [get?_tasks_conclude he] at ht
      exact .same ht

/-- A task that is gone has ended, in its turn. -/
theorem ended_of_gone (h : Ordered roles s) (hstep : Step roles s m roles' s')
    {task : Task CallerPoint} (ht : s.loop.tasks.get? t = some task)
    (hn : s'.loop.tasks.get? t = none) :
    ∃ i given result, s.loop.Wakes i t task given ∧
      (resume task.point (Program.met task given) { s with loop := s.loop.pick i }).1 =
        .finish result ∧ s'.loop.outcome? t = some (Program.ended result) := by
  have hlt := h.sound.known ht
  have hgone : ∀ {l : Loop Json CallerPoint String} {task' : Task CallerPoint},
      l.tasks.get? t = some task' → l.tasks.get? t = none → False := by
    intro l task' h h'
    rw [h] at h'
    cases h'
  have hother : ∀ {l : Loop Json CallerPoint String} {t' on : PromiseId} {point : CallerPoint},
      l.tasks.get? t = some task →
        (Program.conclude t' (.rest on point : Turn CallerPoint Json) l).tasks.get? t = none →
          False := by
    intro l t' on point hl hn
    by_cases he : t = t'
    · subst he
      exact hgone get?_tasks_rest hn
    · exact hgone hl ((get?_tasks_conclude he).symm.trans hn)
  cases hstep with
  | idle _ => exact (hgone ht hn).elim
  | carried hi hw hk =>
    rw [tasks_effect] at hn
    exact (hgone ht hn).elim
  | forgotten hi => exact (hgone ht hn).elim
  | called name key work =>
    rw [get?_tasks_spawn, if_neg (Nat.ne_of_lt hlt)] at hn
    exact (hgone ht hn).elim
  | cancelled t' _ =>
    have hplace := place?_of_get? ht
    rw [← place?_cancelTask (q := t')] at hplace
    obtain ⟨task', ht', _⟩ := place?_eq_some_iff.1 hplace
    exact (hgone ht' hn).elim
  | opened hg outcome =>
    rw [tasks_settle] at hn
    exact (hgone ht hn).elim
  | @ended i t' task' given result begun hw hr =>
    by_cases he : t = t'
    · subst he
      have htask := hw.unfinished
      rw [ht] at htask
      cases htask
      exact ⟨i, given, result, hw, hr, outcome?_finish (l := s.loop.pick i) (h.sound.isPending ht) _⟩
    · rw [get?_tasks_conclude he] at hn
      exact (hgone ht hn).elim
  | @joined i t' op task' given name key work hw hp hm hr =>
    refine (hother ?_ hn).elim
    rw [Loop.shield, tasks_subscribe]
    exact ht
  | @launched i t' task' given name key work hw hp hm hn' hwork =>
    have hne : t ≠ (s.loop.pick i).promises.size := Nat.ne_of_lt hlt
    refine (hother ?_ hn).elim
    rw [Loop.shield, tasks_subscribe, tasks_promise, launch, tasks_subscribe, get?_tasks_spawn,
      if_neg hne]
    exact ht
  | @gated i t' task' given name hw hp =>
    have hold : (s.loop.pick i).promise.2.tasks.get? t = some task := ht
    exact (hother hold hn).elim

/-! ## Roles -/

theorem Plain.init : Plain (fun _ => .unused) := fun _ => trivial

theorem Plain.update (h : Plain roles) {l : Loop Json CallerPoint String} (ha : l.Assigned roles)
    {role : Role String Empty} (hrole : PlainRole roles role) :
    Plain (Function.update roles l.promises.size role) := by
  have hkept : ∀ role', PlainRole roles role' →
      PlainRole (Function.update roles l.promises.size role) role' := by
    intro role' hr
    cases role' with
    | shield q =>
      obtain ⟨key, hq⟩ := hr
      exact ⟨key, ha.update_eq hq (by simp)⟩
    | unused | call | operation _ | gate => trivial
    | waiter _ | group | timer | ticket _ | job _ => exact hr.elim
  intro p
  refine hkept _ ?_
  rw [Function.update_apply]
  split
  · exact hrole
  · exact h p

theorem Plain.step (hp : Plain roles) (h : Ordered roles s) (hstep : Step roles s m roles' s') :
    Plain roles' := by
  have ha := h.sound.assigned
  cases hstep with
  | called name key work => exact hp.update ha trivial
  | joined hw hpt hm hr => exact hp.update ha ⟨_, (h.kept.running?_iff.1 hr).1⟩
  | @launched i t task given name key work hw hpt hm hn hwork =>
    have hs : Sound (Function.update roles s.loop.promises.size (.operation key)) (some t)
        s.loop.promises.size (s.flight.launch (s.loop.pick i) key (.beginning name work) key).2.2 :=
      sound_launch (hw.takeUp h.sound) _ _
    have hsize : (s.flight.launch (s.loop.pick i) key (.beginning name work) key).2.2.promises.size =
        s.loop.promises.size + 1 := size_launch ..
    have h₁ : Plain (Function.update roles s.loop.promises.size (.operation key)) :=
      hp.update ha trivial
    have h₂ : Plain (Function.update (Function.update roles s.loop.promises.size (.operation key)) _
        (.shield s.loop.promises.size)) := h₁.update hs.assigned ⟨key, Function.update_self ..⟩
    rw [hsize] at h₂
    exact h₂
  | gated hw hpt => exact hp.update ha trivial
  | _ => exact hp

/-- A promise aside is followed only by callers of the set. -/
theorem Aside.follower (ha : Aside C H roles s) (h : Ordered roles s) (hp : H p)
    {r : Reaction String} (hd : s.loop.Due p r) : ∃ c ∈ C, r = .wake c := by
  have hfits := h.sound.assigned.fits hd
  have hnot : ∀ key, roles p ≠ .operation key := by
    intro key hk
    rcases ha.role hp with ⟨_, hr⟩ | ⟨op, hr⟩
    · rw [hk] at hr
      cases hr
    · rw [hk] at hr
      cases hr
  cases r with
  | wake t =>
    obtain ⟨_, task, ht, hon⟩ := h.sound.tended.woken hd
    have hplace := place?_of_get? ht
    rw [hon] at hplace
    refine ⟨t, Decidable.byContradiction fun hc => ?_, rfl⟩
    exact ha.seen hc hplace hp
  | relay q =>
    have hq := ha.plain q
    rw [show roles q = .shield p from hfits] at hq
    obtain ⟨key, hk⟩ := hq
    exact absurd hk (hnot key)
  | signal w =>
    have hw := ha.plain w
    rw [show roles w = .waiter p from hfits] at hw
    exact hw.elim
  | tally g =>
    have hg := ha.plain g
    rw [show roles g = .group from hfits] at hg
    exact hg.elim
  | hook k => exact absurd hfits (hnot k)

theorem Aside.lt_size (ha : Aside C H roles s) (h : Ordered roles s) (hp : H p) :
    p < s.loop.promises.size := by
  refine h.sound.assigned.lt_size fun hu => ?_
  rcases ha.role hp with ⟨_, hr⟩ | ⟨op, hr⟩
  · rw [hu] at hr
    cases hr
  · rw [hu] at hr
    cases hr

/-- A caller of the set that rests is aside, and so is the promise on which it rests. -/
theorem Aside.of_rests (ha : Aside C H roles s) (h : Ordered roles s) (hc : c ∈ C)
    {task : Task CallerPoint} (hg : s.loop.tasks.get? c = some task) (hon : task.restsOn = some p) :
    task.point = .attached ∧ H c ∧ H p := by
  have hplace := place?_of_get? hg
  rw [hon] at hplace
  have hplaced := h.placed hplace
  cases hpoint : task.point with
  | arriving name key work =>
    rw [hpoint] at hplaced
    cases hplaced.2
  | attached =>
    rw [hpoint] at hplace
    exact ⟨rfl, ha.sheltered ⟨c, hc, p, hplace, .inl rfl⟩, ha.sheltered ⟨c, hc, p, hplace, .inr rfl⟩⟩
  | beginning name work =>
    rw [hpoint] at hplaced
    cases hplaced.2
  | gated =>
    have hno := ha.callers c hc _ _ hplace
    rw [hpoint] at hno
    cases hno

/-- A task that is seen rests on a promise that is seen. -/
theorem Aside.not_rests (ha : Aside C H roles s) (h : Ordered roles s) (ht : ¬ H t)
    {task : Task CallerPoint} (hg : s.loop.tasks.get? t = some task) (hon : task.restsOn = some p) :
    ¬ H p := by
  by_cases hc : t ∈ C
  · exact absurd (ha.of_rests h hc hg hon).2.1 ht
  · have hplace := place?_of_get? hg
    rw [hon] at hplace
    exact ha.seen hc hplace

/-- A task is a caller of the set if it is aside. -/
theorem Aside.mem_of_task (ha : Aside C H roles s) (h : Ordered roles s) (ht : H t)
    {task : Task CallerPoint} (hg : s.loop.tasks.get? t = some task) :
    t ∈ C ∧ task.point = .attached ∧ ∃ outer, task.restsOn = some outer := by
  have htask := h.sound.isTask hg
  have hplace := place?_of_get? hg
  have hpoint := ha.attached ht hplace
  rw [hpoint] at hplace
  rcases ha.role ht with ⟨hc, _⟩ | ⟨op, hr⟩
  · obtain ⟨_, outer, _, _, hon, _⟩ := h.placed hplace
    exact ⟨hc, hpoint, outer, hon⟩
  · rw [hr] at htask
    cases htask

theorem not_aside_operation (ha : Aside C H roles s) {key : String} (hr : roles p = .operation key) :
    ¬ H p := by
  intro hp
  rcases ha.role hp with ⟨_, hc⟩ | ⟨op, hc⟩
  · rw [hr] at hc
    cases hc
  · rw [hr] at hc
    cases hc

/-! ## Steps keep things aside -/

/-- A caller aside rests where it rested. -/
theorem Aside.held (ha : Aside C H roles s) (h : Ordered roles s) (hstep : Step roles s m roles' s')
    {point : CallerPoint} {on : Option PromiseId} (hc : H c)
    (hp : s'.loop.place? c = some (point, on)) : s.loop.place? c = some (point, on) := by
  obtain ⟨task', ht', rfl, rfl⟩ := place?_eq_some_iff.1 hp
  have hold : ∀ {task : Task CallerPoint}, s.loop.tasks.get? c = some task →
      task.point = .attached := fun ht => ha.attached hc (place?_of_get? ht)
  cases Comes.of_step h hstep ht' with
  | same ht => exact place?_of_get? ht
  | @marked task ht he =>
    have hplace := place?_of_get? ht
    rw [he]
    exact hplace
  | fresh hle _ => exact absurd (ha.lt_size h hc) (Nat.not_lt.2 hle)
  | attached ht hpoint _ _ _ =>
    rw [hold ht] at hpoint
    cases hpoint
  | gated ht hpoint _ _ =>
    rw [hold ht] at hpoint
    cases hpoint

/-- **A step keeps what is aside from being seen**; the callers of the set that wait after it are put
    aside too. -/
theorem Aside.step (ha : Aside C H roles s) (h : Ordered roles s) (hstep : Step roles s m roles' s')
    (hc : NoOperation C s') (hH : ∀ p, H' p ↔ H p ∨ Sheltered C s' p) : Aside C H' roles' s' := by
  obtain ⟨h', hr⟩ := h.step hstep
  have hplaced : ∀ {c outer}, s'.loop.place? c = some (.attached, some outer) →
      roles' c = .call ∧ ∃ op, roles' outer = .shield op := by
    intro c outer hp
    obtain ⟨hcall, q, op, key, hq, hs, _⟩ := h'.placed hp
    cases hq
    exact ⟨hcall, op, hs⟩
  refine ⟨fun hp => (hH _).2 (.inr hp), fun {p} hp => ?_, fun {t point p} ht hp hp' => ?_,
    fun {c point on} hc hp => ?_, hc, ha.plain.step h hstep⟩
  · rcases (hH p).1 hp with hp | ⟨c, hc, outer, hplace, rfl | rfl⟩
    · refine (ha.role hp).imp (fun hp => ⟨hp.1, hr.eq hp.2 (by simp)⟩) ?_
      rintro ⟨op, hop⟩
      exact ⟨op, hr.eq hop (by simp)⟩
    · exact .inl ⟨hc, (hplaced hplace).1⟩
    · exact .inr (hplaced hplace).2
  · rcases (hH p).1 hp' with hp' | ⟨c, hc, outer, hplace, rfl | rfl⟩
    · have hlt := ha.lt_size h hp'
      obtain ⟨task', ht', rfl, hon⟩ := place?_eq_some_iff.1 hp
      cases Comes.of_step h hstep ht' with
      | same hg => exact ha.seen ht (hon ▸ place?_of_get? hg) hp'
      | @marked task hg he =>
        have hon' : task.restsOn = some p := by rw [← hon, he]
        exact ha.seen ht (hon' ▸ place?_of_get? hg) hp'
      | fresh _ hno =>
        rw [hon] at hno
        cases hno
      | attached _ _ _ hle he =>
        rw [he] at hon
        cases hon
        exact absurd hlt (Nat.not_lt.2 hle)
      | gated _ _ hle he =>
        rw [he] at hon
        cases hon
        exact absurd hlt (Nat.not_lt.2 hle)
    · obtain ⟨task, hg, _, hon⟩ := place?_eq_some_iff.1 hp
      have hrest := (h'.sound.assigned.rests hg hon).2
      rw [(hplaced hplace).1] at hrest
      cases hrest
    · obtain ⟨task, hg, _, hon⟩ := place?_eq_some_iff.1 hp
      obtain ⟨task', hg', _, hon'⟩ := place?_eq_some_iff.1 hplace
      have he := h'.sound.tended.alone (by simp) (by simp) hg hg' hon hon'
      exact ht (he ▸ hc)
  · rcases (hH c).1 hc with hc | ⟨c', hc', outer, hplace, rfl | rfl⟩
    · exact ha.attached hc (ha.held h hstep hc hp)
    · rw [hp] at hplace
      cases hplace
      rfl
    · obtain ⟨task, hg, _⟩ := place?_eq_some_iff.1 hp
      have htask := h'.sound.isTask hg
      obtain ⟨op, hs⟩ := (hplaced hplace).2
      rw [hs] at htask
      cases htask

/-! ## What is not seen -/

/-- A move as those outside of the set see it: an errand in its place among the errands of others, and
    no cancellation of the set. -/
def seen? (C : Finset PromiseId) (s : Callers) : Move → Option Move
  | .serve i =>
    match s.loop.agenda[i]? with
    | some e => if e.continues C then none else some (.serve (s.loop.rank C i))
    | none => none
  | .cancel t => if t ∈ C then none else some (.cancel t)
  | m => some m

theorem seen?_eq_some {d : Move} (h : seen? C s m = some d) :
    (∃ i e, m = .serve i ∧ s.loop.agenda[i]? = some e ∧ e.continues C = false ∧
      d = .serve (s.loop.rank C i)) ∨
    d = m ∧ (∀ i, m ≠ .serve i) ∧ ∀ c ∈ C, m ≠ .cancel c := by
  cases m with
  | serve i =>
    left
    cases hi : s.loop.agenda[i]? with
    | none => simp [seen?, hi] at h
    | some e =>
      cases he : e.continues C with
      | true => simp [seen?, hi, he] at h
      | false => exact ⟨i, e, rfl, hi, he, by simpa [seen?, hi, he] using h.symm⟩
  | cancel t =>
    right
    by_cases ht : t ∈ C
    · simp [seen?, ht] at h
    · refine ⟨by simpa [seen?, ht] using h.symm, by simp, ?_⟩
      rintro c hc ⟨⟩
      exact ht hc
  | call name key work => exact .inr ⟨(Option.some.inj h).symm, by simp, by simp⟩
  | cancelShared key => exact .inr ⟨(Option.some.inj h).symm, by simp, by simp⟩
  | finish name outcome => exact .inr ⟨(Option.some.inj h).symm, by simp, by simp⟩

theorem seen?_eq_none (h : seen? C s m = none) :
    (∃ i, m = .serve i ∧ s.loop.agenda[i]? = none) ∨
    (∃ i, ∃ c ∈ C, ∃ p, m = .serve i ∧ s.loop.agenda[i]? = some (.react (.wake c) p)) ∨
    ∃ c ∈ C, m = .cancel c := by
  cases m with
  | serve i =>
    cases hi : s.loop.agenda[i]? with
    | none => exact .inl ⟨i, rfl, hi⟩
    | some e =>
      cases he : e.continues C with
      | true =>
        obtain ⟨c, hc, p, rfl⟩ := Errand.continues_iff.1 he
        exact .inr (.inl ⟨i, c, hc, p, rfl, hi⟩)
      | false => simp [seen?, hi, he] at h
  | cancel t =>
    by_cases ht : t ∈ C
    · exact .inr (.inr ⟨t, ht, rfl⟩)
    · simp [seen?, ht] at h
  | call name key work => cases h
  | cancelShared key => cases h
  | finish name outcome => cases h

/-- There is no difference but in what is aside. -/
structure Alike (C : Finset PromiseId) (H : PromiseId → Prop) (s s' : Callers) : Prop where
  flight : s'.flight = s.flight
  begun : s'.begun = s.begun
  gates : s'.gates = s.gates
  loop : s.loop.Alike C H s'.loop

namespace Alike

theorem refl (s : Callers) : s.Alike C H s := ⟨rfl, rfl, rfl, .refl _⟩

theorem symm (h : s.Alike C H s') : s'.Alike C H s :=
  ⟨h.flight.symm, h.begun.symm, h.gates.symm, h.loop.symm⟩

theorem trans {s'' : Callers} (h : s.Alike C H s') (h' : s'.Alike C H s'') : s.Alike C H s'' :=
  ⟨h'.flight.trans h.flight, h'.begun.trans h.begun, h'.gates.trans h.gates, h.loop.trans h'.loop⟩

theorem mono (h : s.Alike C H s') (hH : ∀ p, H p → H' p) : s.Alike C H' s' :=
  ⟨h.flight, h.begun, h.gates, h.loop.mono hH⟩

end Alike

/-- A turn of a caller of the set is its last. -/
theorem move_aside (h : Ordered roles s) (ha : Aside C H roles s) {i : Nat} (hc : c ∈ C)
    (hi : s.loop.agenda[i]? = some (.react (.wake c) p)) :
    H c ∧ ∃ result, s.move (.serve i) =
      { s with loop := Program.conclude c (.finish result) (s.loop.pick i) } := by
  obtain ⟨_, task', hg', hon⟩ := h.sound.tended.woken (.inr (List.mem_of_getElem? hi))
  obtain ⟨hpoint, hH, _⟩ := ha.of_rests h hc hg' hon
  obtain ⟨task, given, hw, hs⟩ := Program.serveAt_turn program lawful h.sound hi rfl
  have htask : s.loop.tasks.get? c = some task := hw.unfinished
  rw [hg'] at htask
  cases htask
  refine ⟨hH, Program.met task' given, ?_⟩
  have hres : ∀ s : Callers, resume task'.point (Program.met task' given) s =
      (.finish (Program.met task' given), s) := by
    intro s
    rw [hpoint]
    cases Program.met task' given <;> rfl
  have hs' : program.resume c task'.point (Program.met task' given)
      (program.change s (·.pick i)) = (.finish (Program.met task' given),
        program.change s (·.pick i)) := hres _
  rw [hs'] at hs
  exact hs

/-- **A move that is not seen changes nothing that is**, and moves nobody. -/
theorem Aside.quiet (ha : Aside C H roles s) (h : Ordered roles s) (hq : seen? C s m = none)
    (hm : ∀ c ∈ C, m = .cancel c →
      ∀ name key work on, s.loop.place? c ≠ some (.arriving name key work, on)) :
    s.Alike C H (s.move m) ∧ ∀ t point on,
      (s.move m).loop.place? t = some (point, on) → s.loop.place? t = some (point, on) := by
  rcases seen?_eq_none hq with ⟨i, rfl, hi⟩ | ⟨i, c, hc, p, rfl, hi⟩ | ⟨c, hc, rfl⟩
  · have hs : s.move (.serve i) = s := Program.serveAt_none program hi
    rw [hs]
    exact ⟨.refl s, fun _ _ _ hp => hp⟩
  · obtain ⟨hH, result, hs⟩ := move_aside h ha hc hi
    have hcont : (Errand.react (.wake c) p : Errand Json String).continues C = true :=
      Errand.continues_iff.2 ⟨c, hc, p, rfl⟩
    rw [hs]
    refine ⟨⟨rfl, rfl, rfl, ?_⟩, fun t point on hp => ?_⟩
    · have hpick : s.loop.Alike C H (s.loop.pick i) := .pick_aside hi hcont
      have herase : (s.loop.pick i).Alike C H
          { s.loop.pick i with tasks := (s.loop.pick i).tasks.erase c } := .eraseTask_aside hH
      refine (hpick.trans herase).trans (.settle_aside hH (fun r hs => ?_) _)
      exact ha.follower h hH (.inl hs)
    · rw [place?_conclude] at hp
      split at hp
      · cases hp
      · exact hp
  · have hs : s.move (.cancel c) = { s with loop := (s.loop.cancelMember c).2 } := by
      simp [move, apply, cancelTask_eq h.alone]
    rw [hs]
    refine ⟨⟨rfl, rfl, rfl, ?_⟩, fun t point on hp => ?_⟩
    · show s.loop.Alike C H (s.loop.cancelMember c).2
      cases hg : s.loop.tasks.get? c with
      | none =>
        simp only [Loop.cancelMember, hg]
        exact .refl _
      | some task =>
        cases hon : task.restsOn with
        | none =>
          have hplace := place?_of_get? hg
          rw [hon] at hplace
          have hplaced := h.placed hplace
          exfalso
          cases hpoint : task.point with
          | arriving name key work =>
            rw [hpoint] at hplace
            exact hm c hc rfl _ _ _ _ hplace
          | attached =>
            rw [hpoint] at hplaced
            obtain ⟨_, _, _, _, ho, _⟩ := hplaced
            cases ho
          | beginning name work =>
            have hno := ha.callers c hc _ _ hplace
            rw [hpoint] at hno
            cases hno
          | gated =>
            have hno := ha.callers c hc _ _ hplace
            rw [hpoint] at hno
            cases hno
        | some p =>
          obtain ⟨_, hH, hp⟩ := ha.of_rests h hc hg hon
          simp only [Loop.cancelMember, hg, hon]
          split
          · exact .settle_aside hp (fun r hs => ha.follower h hp (.inl hs)) _
          · exact .mark_aside hH
    · have hp : (s.loop.cancelMember c).2.place? t = some (point, on) := hp
      rw [place?_cancelMember] at hp
      exact hp

/-! ## What is seen -/

section Requests

variable {name key : String} {work : Work}

theorem request_running {op : PromiseId} (h : s.flight.running? s.loop key = some op) :
    request name key work s = (.rest s.loop.promises.size .attached,
      { s with flight := s.flight.join, loop := (s.loop.shield op).2 }) := by
  simp only [request, h, attach_running h]

theorem request_refused {f : Fault} (h : s.flight.running? s.loop key = none) :
    request name key (.refused f) s = (.finish (.error f), s) := by
  simp only [request, h]

theorem request_idle (h : s.flight.running? s.loop key = none) (hw : ∀ f, work ≠ .refused f) :
    request name key work s = (.rest (s.loop.promises.size + 1) .attached,
      { s with
        flight := s.flight.start key s.loop.promises.size
        loop := ((s.flight.launch s.loop key (.beginning name work) key).2.2.shield
          s.loop.promises.size).2 }) := by
  cases work with
  | refused f => exact absurd rfl (hw f)
  | gate => simp only [request, h, attach_idle h]
  | now outcome => simp only [request, h, attach_idle h]

end Requests

/-- Two turns end alike. -/
structure TurnsAlike (C : Finset PromiseId) (H : PromiseId → Prop)
    (x x' : Turn CallerPoint Json × Callers) : Prop where
  turn : x'.1 = x.1
  state : x.2.Alike C H x'.2
  rests : ∀ {on point}, x.1 = .rest on point → ¬ H on

theorem TurnsAlike.finish (h : s.Alike C H s') (x : Except Fault Json) :
    TurnsAlike C H (.finish x, s) (.finish x, s') := ⟨rfl, h, nofun⟩

/-- A caller that is seen asks. -/
theorem request_alike (hs : s.Alike C H s') (hlt : ∀ p, H p → p < s.loop.promises.size)
    (hop : ∀ {key op}, s.flight.entries.get? key = some op → ¬ H op) (name key : String)
    (work : Work) : TurnsAlike C H (request name key work s) (request name key work s') := by
  have hnew : ∀ {p}, s.loop.promises.size ≤ p → ¬ H p := by
    intro p hle hp
    exact absurd (hlt p hp) (Nat.not_lt.2 hle)
  have hrun : s'.flight.running? s'.loop key = s.flight.running? s.loop key := by
    unfold running?
    rw [hs.flight]
    cases he : s.flight.entries.get? key with
    | none => rfl
    | some op => simp [Option.filter, hs.loop.isPending (hop he)]
  cases hr : s.flight.running? s.loop key with
  | some op =>
    have hno : ¬ H op := hop (running?_eq_some_iff.1 hr).1
    rw [request_running hr, request_running (hrun.trans hr)]
    refine ⟨?_, ⟨?_, hs.begun, hs.gates, hs.loop.shield hno⟩, ?_⟩
    · rw [hs.loop.size]
    · rw [hs.flight]
    · rintro on point ⟨⟩
      exact hnew (Nat.le_refl _)
  | none =>
    by_cases hw : ∃ f, work = .refused f
    · obtain ⟨f, rfl⟩ := hw
      rw [request_refused hr, request_refused (hrun.trans hr)]
      exact .finish hs _
    · have hw' : ∀ f, work ≠ .refused f := fun f hf => hw ⟨f, hf⟩
      have hlaunch : (s.flight.launch s.loop key (.beginning name work) key).2.2.Alike C H
          (s'.flight.launch s'.loop key (.beginning name work) key).2.2 := by
        have h := (hs.loop.spawn (.beginning name work)).subscribe (p := s.loop.promises.size)
          (hnew (Nat.le_refl _)) (.hook key)
        unfold Flight.launch
        dsimp only [spawn_fst]
        rw [hs.loop.size]
        exact h
      rw [request_idle hr hw', request_idle (hrun.trans hr) hw', hs.loop.size]
      refine ⟨rfl, ⟨?_, hs.begun, hs.gates, ?_⟩, ?_⟩
      · rw [hs.flight]
      · exact hlaunch.shield (hnew (Nat.le_refl _))
      · rintro on point ⟨⟩
        exact hnew (Nat.le_succ _)

/-- A turn of a task that is seen. -/
theorem resume_alike (hs : s.Alike C H s') (hlt : ∀ p, H p → p < s.loop.promises.size)
    (hop : ∀ {key op}, s.flight.entries.get? key = some op → ¬ H op) (point : CallerPoint)
    (given : Except Fault Json) :
    TurnsAlike C H (resume point given s) (resume point given s') := by
  cases given with
  | error f => cases point <;> exact .finish hs _
  | ok v =>
    cases point with
    | attached => exact .finish hs _
    | gated => exact .finish hs _
    | arriving name key work => exact request_alike hs hlt hop name key work
    | beginning name work =>
      have hbegun : Callers.Alike C H { s with begun := s.begun ++ [name] }
          { s' with begun := s'.begun ++ [name] } :=
        ⟨hs.flight, by rw [hs.begun], hs.gates, hs.loop⟩
      cases work with
      | gate =>
        refine ⟨?_, ⟨hs.flight, ?_, ?_, hs.loop.newPromise⟩, ?_⟩
        · simp [resume, hs.loop.size]
        · simp [resume, hs.begun]
        · simp [resume, hs.gates, hs.loop.size]
        · rintro on point ⟨⟩ hp
          exact absurd (hlt _ hp) (Nat.lt_irrefl _)
      | now outcome => exact .finish hbegun _
      | refused f => exact .finish hbegun _

/-- An errand that is seen, in the same place among those that are. -/
theorem Alike.serve (hs : s.Alike C H s') (h : Ordered roles s) (ha : Aside C H roles s)
    (h' : Ordered roles' s') (ha' : Aside C H roles' s') {i j : Nat} {e e' : Errand Json String}
    (hi : s.loop.agenda[i]? = some e) (he : e.continues C = false)
    (hj : s'.loop.agenda[j]? = some e') (he' : e'.continues C = false)
    (hr : s'.loop.rank C j = s.loop.rank C i) :
    (s.move (.serve i)).Alike C H (s'.move (.serve j)) := by
  obtain ⟨rfl, hpick⟩ := hs.loop.pick hi he hj he' hr
  have hm := List.mem_of_getElem? hi
  cases hw : e'.woken? with
  | some t =>
    have hnot : ¬ H t := by
      intro ht
      rcases Errand.woken?_eq_some_iff.1 hw with rfl | ⟨p, rfl⟩
      · obtain ⟨_, task, hg, hon⟩ := h.sound.tended.stepped hm
        obtain ⟨_, _, outer, ho⟩ := ha.mem_of_task h ht hg
        rw [hon] at ho
        cases ho
      · obtain ⟨_, task, hg, _⟩ := h.sound.tended.woken (.inr hm)
        have hc := (ha.mem_of_task h ht hg).1
        rw [Errand.continues_iff.2 ⟨t, hc, p, rfl⟩] at he
        cases he
    obtain ⟨task, given, htask, hmove⟩ := Program.serveAt_turn program lawful h.sound hi hw
    obtain ⟨task', given', htask', hmove'⟩ := Program.serveAt_turn program lawful h'.sound hj hw
    have hsame : task' = task := by
      have hg := hs.loop.task hnot
      rw [show s'.loop.tasks.get? t = some task' from htask'.unfinished,
        show s.loop.tasks.get? t = some task from htask.unfinished] at hg
      exact Option.some.inj hg
    subst hsame
    have hgiven : given' = given := by
      have hg := htask.gives
      have hg' := htask'.gives
      unfold Gives at hg hg'
      cases hon : task'.restsOn with
      | none =>
        simp only [hon] at hg hg'
        rw [hg, hg']
      | some p =>
        simp only [hon] at hg hg'
        obtain ⟨o, ho, rfl⟩ := hg
        obtain ⟨o', ho', rfl⟩ := hg'
        have hp : ¬ H p := ha.not_rests h hnot htask.unfinished hon
        have hsame : s'.loop.outcome? p = s.loop.outcome? p := hs.loop.outcome? hp
        rw [show s'.loop.outcome? p = some o' from ho', show s.loop.outcome? p = some o from ho]
          at hsame
        rw [Option.some.inj hsame]
    subst hgiven
    have hpicked : Callers.Alike C H { s with loop := s.loop.pick i }
        { s' with loop := s'.loop.pick j } := ⟨hs.flight, hs.begun, hs.gates, hpick⟩
    have hres := resume_alike hpicked (fun p hp => ha.lt_size h hp)
      (fun {_ _} hop => not_aside_operation ha (h.kept.entry hop).1) task'.point
      (Program.met task' given')
    have hend := hres.state.loop.conclude hnot _ fun _ _ => hres.rests
    have hmove : s.move (.serve i) = program.change _ (Program.conclude t _) := hmove
    have hmove' : s'.move (.serve j) = program.change _ (Program.conclude t _) := hmove'
    rw [← hres.turn] at hend
    rw [hmove, hmove']
    refine ⟨hres.state.flight, hres.state.begun, hres.state.gates, ?_⟩
    rw [hres.turn] at hend
    have hturn := hres.turn
    show Loop.Alike C H (Program.conclude t (resume task'.point (Program.met task' given')
      { s with loop := s.loop.pick i }).1 _) (Program.conclude t (resume task'.point
        (Program.met task' given') { s' with loop := s'.loop.pick j }).1 _)
    rw [hturn]
    exact hend
  | none =>
    by_cases hk : ∃ k p, e' = .react (.hook k) p
    · obtain ⟨key, op, rfl⟩ := hk
      have hmove : s.move (.serve i) =
          { s with loop := s.loop.pick i, flight := s.flight.forget key op } :=
        Program.serveAt_hook program hi
      have hmove' : s'.move (.serve j) =
          { s' with loop := s'.loop.pick j, flight := s'.flight.forget key op } :=
        Program.serveAt_hook program hj
      rw [hmove, hmove']
      exact ⟨by rw [hs.flight], hs.begun, hs.gates, hpick⟩
    · have hk' : ∀ k p, e' ≠ .react (.hook k) p := fun k p he => hk ⟨k, p, he⟩
      have hmove : s.move (.serve i) =
          { s with loop := Program.Errand.effect e' (s.loop.pick i) } :=
        Program.serveAt_other program lawful hi hw hk'
      have hmove' : s'.move (.serve j) =
          { s' with loop := Program.Errand.effect e' (s'.loop.pick j) } :=
        Program.serveAt_other program lawful hj hw hk'
      rw [hmove, hmove']
      refine ⟨hs.flight, hs.begun, hs.gates, ?_⟩
      show Loop.Alike C H (Program.Errand.effect e' (s.loop.pick i))
        (Program.Errand.effect e' (s'.loop.pick j))
      have hplain := ha.plain
      rcases e' with t | ⟨r, p⟩ | ⟨p, x⟩ | p
      · cases hw
      · have hfits := h.sound.assigned.fits (.inr hm)
        cases r with
        | wake t => cases hw
        | relay q =>
          have hq := hplain q
          rw [show roles q = .shield p from hfits] at hq
          obtain ⟨key, hop⟩ := hq
          have hsame : (s'.loop.pick j).outcome? p = (s.loop.pick i).outcome? p :=
            hpick.outcome? (not_aside_operation ha hop)
          unfold Program.Errand.effect
          simp only [hsame]
          cases (s.loop.pick i).outcome? p with
          | none => exact hpick
          | some o =>
            by_cases hq : H q
            · have hleft : ∀ r, (s.loop.pick i).Subscribed q r → ∃ c ∈ C, r = .wake c :=
                fun r hs => ha.follower h hq (.inl hs)
              have hright : ∀ r, (s'.loop.pick j).Subscribed q r → ∃ c ∈ C, r = .wake c :=
                fun r hs => ha'.follower h' hq (.inl hs)
              exact ((Loop.Alike.settle_aside hq hleft o).symm.trans hpick).trans
                (.settle_aside hq hright o)
            · exact hpick.settle hq o
        | signal w =>
          have hw := hplain w
          rw [show roles w = .waiter p from hfits] at hw
          exact hw.elim
        | tally g =>
          have hg := hplain g
          rw [show roles g = .group from hfits] at hg
          exact hg.elim
        | hook k => exact absurd rfl (hk' k p)
      · obtain ⟨job, hj⟩ := h.sound.assigned.delivered hm
        exact job.elim
      · have hp := hplain p
        rw [h.sound.assigned.expired hm] at hp
        exact hp.elim

/-- **A move that is seen does the same to two states that look alike.** -/
theorem Alike.move (hs : s.Alike C H s') (h : Ordered roles s) (ha : Aside C H roles s)
    (h' : Ordered roles' s') (ha' : Aside C H roles' s') {d : Move} (hm : seen? C s m = some d)
    (hm' : seen? C s' m' = some d) : (s.move m).Alike C H (s'.move m') := by
  rcases seen?_eq_some hm with ⟨i, e, rfl, hi, he, rfl⟩ | ⟨rfl, hserve, hcancel⟩
  · rcases seen?_eq_some hm' with ⟨j, e', rfl, hj, he', hr⟩ | ⟨rfl, hserve, _⟩
    · exact hs.serve h ha h' ha' hi he hj he' (Move.serve.inj hr).symm
    · exact absurd rfl (hserve _)
  · rcases seen?_eq_some hm' with ⟨j, e', rfl, _, _, rfl⟩ | ⟨rfl, _, _⟩
    · exact absurd rfl (hserve _)
    · -- something done from outside
      have hcancel' : ∀ t, t ∉ C ∨ ¬ H t → (s.loop.cancelTask t).Alike C H (s'.loop.cancelTask t) := by
        intro t ht
        rw [cancelTask_eq h.alone, cancelTask_eq h'.alone]
        have hnone : H t → s.loop.tasks.get? t = none ∧ s'.loop.tasks.get? t = none := by
          intro hH
          have ht := ht.resolve_right (not_not_intro hH)
          constructor
          · cases hg : s.loop.tasks.get? t with
            | none => rfl
            | some task => exact absurd (ha.mem_of_task h hH hg).1 ht
          · cases hg : s'.loop.tasks.get? t with
            | none => rfl
            | some task => exact absurd (ha'.mem_of_task h' hH hg).1 ht
        unfold Loop.cancelMember
        by_cases hH : H t
        · rw [(hnone hH).1, (hnone hH).2]
          exact hs.loop
        · rw [hs.loop.task hH]
          cases hg : s.loop.tasks.get? t with
          | none => exact hs.loop
          | some task =>
            cases hon : task.restsOn with
            | none => simpa only [hon] using hs.loop.mark t
            | some p =>
              have hp := ha.not_rests h hH hg hon
              simp only [hon, hs.loop.isPending hp]
              split
              · exact hs.loop.settle hp _
              · exact hs.loop.mark t
      cases d with
      | serve i => exact absurd rfl (hserve i)
      | call name key work =>
        exact ⟨hs.flight, hs.begun, hs.gates, hs.loop.spawn _⟩
      | cancel t =>
        have ht : t ∉ C := fun hc => hcancel t hc rfl
        exact ⟨hs.flight, hs.begun, hs.gates, hcancel' t (.inl ht)⟩
      | cancelShared key =>
        cases he : s.flight.entries.get? key with
        | none => simpa [Callers.move, apply, hs.flight, he] using hs
        | some op =>
          have hop : ¬ H op := not_aside_operation ha (h.kept.entry he).1
          have hend : Callers.Alike C H { s with loop := s.loop.cancelTask op }
              { s' with loop := s'.loop.cancelTask op } :=
            ⟨hs.flight, hs.begun, hs.gates, hcancel' op (.inr hop)⟩
          simpa [Callers.move, apply, hs.flight, he] using hend
      | finish name outcome =>
        cases hg : s.gates.get? name with
        | none => simpa [Callers.move, apply, hs.gates, hg] using hs
        | some gate =>
          have hgate : ¬ H gate := by
            intro hp
            rcases ha.role hp with ⟨_, hc⟩ | ⟨op, hc⟩
            · rw [h.gates hg] at hc
              cases hc
            · rw [h.gates hg] at hc
              cases hc
          have hend : Callers.Alike C H { s with loop := s.loop.settle gate (.ofResult outcome) }
              { s' with loop := s'.loop.settle gate (.ofResult outcome) } :=
            ⟨hs.flight, hs.begun, hs.gates, hs.loop.settle hgate _⟩
          simpa [Callers.move, apply, hs.gates, hg] using hend

end SourceTrees.Flight.Callers
