import SourceTrees.Proofs.Loop.Cancels
import SourceTrees.Proofs.Service.Steps

/-!
# The order of a service

A service is in **order** if its loop is sound under the roles of the promises, both flights are kept,
every task rests as its stage lets it rest, and the tickets of locks and of queued jobs have the roles
of tickets and of jobs.

## Results

* `Service.Ordered`, `Service.InTurn` — the order between turns and during a turn.
* `Service.InTurn.stride`, `Service.Ordered.step` — every stride and every step keep it.
-/

set_option autoImplicit false

namespace SourceTrees.Service

open Loop

/-- The task rests as its stage lets it rest. -/
structure Placed (roles : Roles Hook Job) (pool : Keyed String Pooled) (t : PromiseId)
    (point : Stage) (on : Option PromiseId) : Prop where
  role : roles t = point.role
  rest : point.rest.Fits roles on
  coherent : point.Coherent
  grip : point.grip.Fits roles pool

/-- Everything is in order, while at most one task has its turn. -/
structure Ordered (busy : Option PromiseId) (base : Nat) (s : Service) (roles : Roles Hook Job) :
    Prop where
  sound : s.loop.Sound roles busy base
  boot : s.bootFlight.Kept roles (fun _ => Hook.boot) s.loop
  load : s.grammarFlight.Kept roles Hook.grammar s.loop
  placed : ∀ {t point on}, s.loop.place? t = some (point, on) → Placed roles s.pool t point on
  members : s.loop.Members fun t => roles t = .call
  tickets : ∀ {language pooled k}, s.pool.get? language = some pooled → k ∈ pooled.lock.tickets →
    roles k = .ticket language
  queued : ∀ {t}, t ∈ s.workers.queue → roles t.promise = .job t.job

/-- Everything is in order during a turn, and the task meets what it was given. -/
structure InTurn (w : Woken) (m : Midst) : Prop where
  ordered : Ordered (some w.task) w.before.loop.promises.size m.service m.roles
  base_le : w.before.loop.promises.size ≤ m.service.loop.promises.size
  woken : ∃ task given, m.service.loop.tasks.get? w.task = some task ∧ task.point = w.stage ∧
    m.service.loop.Gives task given ∧ w.given = Program.met task given
  grip : m.grip.Fits m.roles m.service.pool

variable {s s' : Service} {roles roles' : Roles Hook Job} {busy busy' : Option PromiseId}
  {base base' : Nat} {w : Woken} {m m' : Midst} {mv : Move} {t : PromiseId} {point : Stage}
  {on : Option PromiseId}

theorem Placed.mono (h : Placed roles s.pool t point on) (hr : Extends roles roles')
    (hp : ∀ language, s.pool.contains language = true → s'.pool.contains language = true) :
    Placed roles' s'.pool t point on where
  role := by
    refine hr.eq h.role ?_
    intro hu
    have := point.role_isTask
    rw [hu] at this
    cases this
  rest := h.rest.mono hr
  coherent := h.coherent
  grip := h.grip.mono hr hp

namespace Ordered

theorem opened (config : Config) (world : World) (eager : Bool) (stuck : Option Fault)
    (log : List LogLine) :
    Ordered none 0 (Service.opened config world eager stuck log) fun _ => .unused := by
  refine ⟨?_, ?_, ?_, fun h => ?_, ?_, fun h => ?_, fun h => ?_⟩
  · simpa using Sound.init
  · simpa using Flight.Kept.init
  · simpa using Flight.Kept.init
  · simp [place?, Keyed.get?, Keyed.empty, Keyed.lookIn] at h
  · simpa using Members.init
  · simp at h
  · simp at h

/-- Everything moves on. -/
theorem next (h : Ordered busy base s roles) (hr : Extends roles roles')
    (hs : s'.loop.Sound roles' busy' base')
    (hb : s'.bootFlight.Kept roles' (fun _ => Hook.boot) s'.loop)
    (hl : s'.grammarFlight.Kept roles' Hook.grammar s'.loop)
    (hplace : ∀ t point on, s'.loop.place? t = some (point, on) →
      s.loop.place? t = some (point, on) ∨ Placed roles' s'.pool t point on)
    (hm : s'.loop.Members fun t => roles' t = .call)
    (hc : ∀ language, s.pool.contains language = true → s'.pool.contains language = true)
    (ht : ∀ language pooled k, s'.pool.get? language = some pooled → k ∈ pooled.lock.tickets →
      roles' k = .ticket language)
    (hq : ∀ t ∈ s'.workers.queue, roles' t.promise = .job t.job) :
    Ordered busy' base' s' roles' where
  sound := hs
  boot := hb
  load := hl
  placed hp := (hplace _ _ _ hp).elim (fun hp => (h.placed hp).mono hr hc) id
  members := hm
  tickets := ht _ _ _
  queued := hq _

/-- A change that leaves the loop and the flights alone. -/
theorem data (h : Ordered busy base s roles) (hl : s'.loop = s.loop)
    (hb : s'.bootFlight = s.bootFlight) (hg : s'.grammarFlight = s.grammarFlight)
    (hp : s'.pool = s.pool) (hq : s'.workers = s.workers) : Ordered busy base s' roles := by
  refine h.next (.refl _) (hl ▸ h.sound) (by rw [hl, hb]; exact h.boot)
    (by rw [hl, hg]; exact h.load) (fun t point on ht => .inl (hl ▸ ht)) (hl ▸ h.members)
    (fun _ hc => hp ▸ hc) (fun language pooled k hk => h.tickets (hp ▸ hk)) fun t ht => ?_
  exact h.queued (hq ▸ ht)

/-- A pooled parser is changed, or a new one is put into the pool. -/
theorem putPooled (h : Ordered busy base s roles) {language : String} {pooled : Pooled}
    (ht : ∀ k ∈ pooled.lock.tickets, roles k = .ticket language) :
    Ordered busy base { s with pool := s.pool.put language pooled } roles := by
  refine h.next (.refl _) h.sound h.boot h.load (fun _ _ _ hp => .inl hp) h.members
    (fun language' hc => ?_) (fun language' pooled' k hk hmem => ?_) fun t ht => h.queued ht
  · unfold Keyed.contains at hc ⊢
    rw [Keyed.get?_put]
    split
    · rfl
    · exact hc
  · rw [Keyed.get?_put] at hk
    split at hk
    · rename_i he
      cases hk
      exact he ▸ ht k hmem
    · exact h.tickets hk hmem

/-- The loop moves on without a new promise. -/
theorem loop (h : Ordered busy base s roles) {l : Loop Reply Stage Hook}
    (hs : l.Sound roles busy' base') (hl : s.loop.Later l)
    (hm : l.Members fun t => roles t = .call)
    (hp : ∀ t point on, l.place? t = some (point, on) → s.loop.place? t = some (point, on)) :
    Ordered busy' base' { s with loop := l } roles :=
  h.next (.refl _) hs (h.boot.later h.sound.assigned hl) (h.load.later h.sound.assigned hl)
    (fun t point on ht => .inl (hp t point on ht)) hm (fun _ hc => hc)
    (fun _ _ _ hk hmem => h.tickets hk hmem) fun _ ht => h.queued ht

/-- The loop moves on with a new promise, which is not of a shared operation. -/
theorem grow (h : Ordered busy base s roles) {l : Loop Reply Stage Hook} {role : Role Hook Job}
    (hs : l.Sound (Function.update roles s.loop.promises.size role) busy base)
    (hl : s.loop.Later l) (hrole : ∀ k, role ≠ .operation k)
    (hm : l.Members fun t => Function.update roles s.loop.promises.size role t = .call)
    (hp : ∀ t point on, l.place? t = some (point, on) → s.loop.place? t = some (point, on) ∨
      Placed (Function.update roles s.loop.promises.size role) s.pool t point on) :
    Ordered busy base { s with loop := l }
      (Function.update roles s.loop.promises.size role) := by
  have hr := h.sound.assigned.extends_update role
  refine h.next hr hs (h.boot.grow h.sound.assigned hl fun _ => hrole _)
    (h.load.grow h.sound.assigned hl fun _ => hrole _) hp hm (fun _ hc => hc)
    (fun _ _ _ hk hmem => hr.eq (h.tickets hk hmem) (by simp))
    fun _ ht => hr.eq (h.queued ht) (by simp)

theorem members_update (h : Ordered busy base s roles) (role : Role Hook Job) :
    s.loop.Members fun t => Function.update roles s.loop.promises.size role t = .call :=
  h.members.mono fun _ ht => h.sound.assigned.update_eq ht (by simp)

/-- A promise is made that is not of a task, with reactions perhaps. -/
theorem follow (h : Ordered busy base s roles) {l : Loop Reply Stage Hook} {role : Role Hook Job}
    (hs : l.Sound (Function.update roles s.loop.promises.size role) busy base)
    (hl : s.loop.Later l) (hrole : ∀ k, role ≠ .operation k) (htasks : l.tasks = s.loop.tasks)
    (hgroups : l.groups = s.loop.groups) :
    Ordered busy base { s with loop := l }
      (Function.update roles s.loop.promises.size role) :=
  h.grow hs hl hrole ((h.members_update role).congr hgroups) fun _ _ _ hp =>
    .inl (place?_congr htasks ▸ hp)

theorem shield (h : Ordered busy base s roles) {p : PromiseId} (hp : p < s.loop.promises.size) :
    Ordered busy base { s with loop := (s.loop.shield p).2 }
      (Function.update roles s.loop.promises.size (.shield p)) :=
  h.follow (h.sound.shield hp) (.shield p) (by simp) tasks_subscribe groups_subscribe

theorem waiter (h : Ordered busy base s roles) {p : PromiseId} (hp : p < s.loop.promises.size) :
    Ordered busy base { s with loop := (s.loop.waiter p).2 }
      (Function.update roles s.loop.promises.size (.waiter p)) :=
  h.follow (h.sound.waiter hp) (.waiter p) (by simp) tasks_subscribe groups_subscribe

theorem promise (h : Ordered busy base s roles) (role : Role Hook Job) (ho : role.isOuter = true) :
    Ordered busy base { s with loop := s.loop.promise.2 }
      (Function.update roles s.loop.promises.size role) := by
  refine h.follow (h.sound.promise ho) .promise (fun k hk => ?_) rfl rfl
  subst hk
  cases ho

theorem timer (h : Ordered busy base s roles) (seconds : Float) :
    Ordered busy base { s with loop := (s.loop.timer seconds).2 }
      (Function.update roles s.loop.promises.size .timer) :=
  h.follow (h.sound.timer seconds) (.timer seconds) (by simp) rfl rfl

theorem spawn (h : Ordered busy base s roles) (call : Call) :
    Ordered busy base { s with loop := (s.loop.spawn (.start call)).2 }
      (Function.update roles s.loop.promises.size .call) := by
  refine h.grow (h.sound.spawn _ rfl) (.spawn _) (by simp)
    ((h.members_update .call).congr rfl) fun t point on hp => ?_
  rw [place?_spawn] at hp
  split at hp
  · rename_i he
    cases hp
    subst he
    exact .inr ⟨Function.update_self .., rfl, trivial, trivial⟩
  · exact .inl hp

/-- Outcomes are put on the agenda. -/
theorem deliverAll (h : Ordered busy base s roles) (es : List (Errand Reply Hook))
    (he : ∀ e ∈ es, ∃ p o j, e = .deliver p o ∧ roles p = .job j) :
    Ordered busy base { s with loop := { s.loop with agenda := s.loop.agenda ++ es } } roles :=
  h.loop (h.sound.enqueueAll fun e hm => .inl (he e hm)) (.enqueueAll es) h.members
    fun _ _ _ hp => hp

/-- The queue is shortened. -/
theorem withWorkers (h : Ordered busy base s roles) (workers : Workers)
    (hq : ∀ t ∈ workers.queue, t ∈ s.workers.queue) :
    Ordered busy base { s with workers } roles :=
  h.next (.refl _) h.sound h.boot h.load (fun _ _ _ hp => .inl hp) h.members (fun _ hc => hc)
    (fun _ _ _ hk hmem => h.tickets hk hmem) fun t ht => h.queued (hq t ht)

theorem handedIn (h : Ordered busy base s roles) (crew : Crew) (job : Job) :
    Ordered busy base (Work.handedIn s crew job)
      (Function.update roles s.loop.promises.size (.job job)) := by
  have hp := h.promise (.job job) rfl
  unfold Work.handedIn
  split
  · have hd := hp.deliverAll [.deliver s.loop.promises.size (job.run s.world).1] fun e he =>
      ⟨_, _, job, List.mem_singleton.1 he, Function.update_self ..⟩
    exact hd.data rfl rfl rfl rfl rfl
  · refine hp.next (.refl _) hp.sound hp.boot hp.load (fun _ _ _ ht => .inl ht) hp.members
      (fun _ hc => hc) (fun _ _ _ hk hmem => hp.tickets hk hmem) fun t ht => ?_
    rcases List.mem_append.1 ht with ht | ht
    · exact hp.queued ht
    · rw [List.mem_singleton.1 ht]
      exact Function.update_self ..

theorem dismiss (h : Ordered busy base s roles) : Ordered busy base (Work.dismiss s).2 roles := by
  rw [Work.dismiss_eq]
  cases s.workers.stuck with
  | some f => exact h.withWorkers _ fun t ht => ht
  | none =>
    have hd := h.deliverAll
      (Ticket.runAll (s.workers.queue.filter fun t => t.crew = .own) s.world).1
      fun e he => by
        obtain ⟨t, ht, w', rfl, _⟩ := Ticket.mem_runAll he
        exact ⟨_, _, t.job, rfl, h.queued (List.mem_filter.1 ht).1⟩
    have hw := hd.withWorkers { s.workers with
      dismissals := s.workers.dismissals + 1
      queue := s.workers.queue.filter fun t => !decide (t.crew = .own)
      dismissed := true } fun t ht => (List.mem_filter.1 ht).1
    exact hw.data rfl rfl rfl rfl rfl

theorem workedOff (h : Ordered busy base s roles) {i : Nat} {t : Ticket}
    (hi : s.workers.queue[i]? = some t) : Ordered busy base (Work.workOff i s).2 roles := by
  rw [Work.workOff_eq hi]
  have hd := h.deliverAll [.deliver t.promise (t.job.run s.world).1] fun e he =>
    ⟨_, _, t.job, List.mem_singleton.1 he, h.queued (List.mem_of_getElem? hi)⟩
  have hw := hd.withWorkers { s.workers with queue := s.workers.queue.eraseIdx i }
    fun t ht => List.mem_of_mem_eraseIdx ht
  exact hw.data rfl rfl rfl rfl rfl

theorem withBoot (h : Ordered busy base s roles) {f : Flight Unit}
    (hf : f.Kept roles (fun _ => Hook.boot) s.loop) :
    Ordered busy base { s with bootFlight := f } roles :=
  ⟨h.sound, hf, h.load, h.placed, h.members, h.tickets, h.queued⟩

theorem withLoad (h : Ordered busy base s roles) {f : Flight String}
    (hf : f.Kept roles Hook.grammar s.loop) :
    Ordered busy base { s with grammarFlight := f } roles :=
  ⟨h.sound, h.boot, hf, h.placed, h.members, h.tickets, h.queued⟩

/-- A shared operation is started. -/
theorem launch (h : Ordered busy base s roles) {κ : Type} [DecidableEq κ] {f : Flight κ} {key : κ}
    {hook : Hook} (point : Stage) (hrole : point.role = .operation hook) (hrest : point.rest = .nothing)
    (hc : point.Coherent) (hgrip : point.grip = .free) {fb : Flight Unit} {fl : Flight String}
    (hb : fb.Kept (Function.update roles s.loop.promises.size (.operation hook))
      (fun _ => Hook.boot) (f.launch s.loop key point hook).2.2)
    (hl : fl.Kept (Function.update roles s.loop.promises.size (.operation hook)) Hook.grammar
      (f.launch s.loop key point hook).2.2) :
    Ordered busy base { s with
        loop := (f.launch s.loop key point hook).2.2
        bootFlight := fb
        grammarFlight := fl }
      (Function.update roles s.loop.promises.size (.operation hook)) := by
  have hr := h.sound.assigned.extends_update (.operation hook)
  have hs : (f.launch s.loop key point hook).2.2.Sound
      (Function.update roles s.loop.promises.size (.operation hook)) busy base :=
    Flight.sound_launch h.sound point hook
  have hg : (f.launch s.loop key point hook).2.2.groups = s.loop.groups :=
    Flight.groups_launch point hook
  refine h.next hr hs hb hl (fun t point' on hp => ?_) ((h.members_update _).congr hg) (fun _ hc => hc)
    (fun _ _ _ hk hmem => hr.eq (h.tickets hk hmem) (by simp))
    fun _ ht => hr.eq (h.queued ht) (by simp)
  replace hp : (f.launch s.loop key point hook).2.2.place? t = some (point', on) := hp
  rw [Flight.place?_launch] at hp
  split at hp
  · rename_i he
    cases hp
    subst he
    refine .inr ⟨?_, ?_, hc, ?_⟩
    · rw [hrole]
      exact Function.update_self ..
    · rw [hrest]
      rfl
    · rw [hgrip]
      trivial
  · exact .inl hp

end Ordered

/-! ## Strides -/

@[simp] theorem contains_put {ν : Type} (t : Keyed String ν) (k k' : String) (v : ν) :
    (t.put k v).contains k' = (decide (k' = k) || t.contains k') := by
  unfold Keyed.contains
  rw [Keyed.get?_put]
  split
  · rename_i h
    simp [h]
  · rename_i h
    simp [h]

theorem contains_of_get? {ν : Type} {t : Keyed String ν} {k : String} {v : ν}
    (h : t.get? k = some v) : t.contains k = true := by
  rw [Keyed.contains, h]
  rfl

theorem later_handedIn (crew : Crew) (job : Job) :
    s.loop.Later (Work.handedIn s crew job).loop := by
  unfold Work.handedIn
  split
  · exact Later.promise.trans (.enqueueAll _)
  · exact .promise

theorem later_dismiss : s.loop.Later (Work.dismiss s).2.loop := by
  rw [Work.dismiss_eq]
  split
  · exact .refl _
  · exact .enqueueAll _

namespace InTurn

/-- Everything moves on, and the task stays where it is. -/
theorem next (h : InTurn w m)
    (ho : Ordered (some w.task) w.before.loop.promises.size m'.service m'.roles)
    (hl : m.service.loop.Later m'.service.loop)
    (ht : m'.service.loop.tasks.get? w.task = m.service.loop.tasks.get? w.task)
    (hg : m'.grip.Fits m'.roles m'.service.pool) : InTurn w m' := by
  refine ⟨ho, Nat.le_trans h.base_le hl.size_le, ?_, hg⟩
  obtain ⟨task, given, hget, hp, hgives, hmet⟩ := h.woken
  exact ⟨task, given, ht.trans hget, hp, hgives.later hl, hmet⟩

/-- The task still rests as its stage lets it rest. -/
theorem placed (h : InTurn w m) : ∃ task given,
    Placed m.roles m.service.pool w.task w.stage task.restsOn ∧
      m.service.loop.Gives task given ∧ w.given = Program.met task given := by
  obtain ⟨task, given, hget, hp, hgives, hmet⟩ := h.woken
  have hplaced := h.ordered.placed (place?_of_get? hget)
  rw [hp] at hplaced
  exact ⟨task, given, hplaced, hgives, hmet⟩

theorem task_lt (h : InTurn w m) : w.task < m.service.loop.promises.size :=
  h.ordered.sound.busy_lt rfl

/-- A change that leaves the loop, the flights, the pool and the workers alone. -/
theorem data (h : InTurn w m) (hr : m'.roles = m.roles)
    (hl : m'.service.loop = m.service.loop)
    (hb : m'.service.bootFlight = m.service.bootFlight)
    (hg : m'.service.grammarFlight = m.service.grammarFlight)
    (hp : m'.service.pool = m.service.pool) (hw : m'.service.workers = m.service.workers)
    (hgrip : m'.grip.Fits m.roles m.service.pool) : InTurn w m' := by
  refine h.next (hr ▸ h.ordered.data hl hb hg hp hw) (hl ▸ .refl _) (by rw [hl]) ?_
  rw [hr, hp]
  exact hgrip

/-- A pooled parser is changed, and the counters and the world with it perhaps. -/
theorem putPooled (h : InTurn w m) {language : String} {pooled : Pooled} {world : World}
    {counts : Counts} {grip : Grip}
    (ht : ∀ k ∈ pooled.lock.tickets, m.roles k = .ticket language)
    (hg : grip.Fits m.roles (m.service.pool.put language pooled)) :
    InTurn w { m with
      service := { m.service with pool := m.service.pool.put language pooled, world, counts }
      grip } :=
  h.next ((h.ordered.putPooled ht).data rfl rfl rfl rfl rfl) (.refl _) rfl hg

/-- The tickets of a pooled parser are tickets. -/
theorem tickets (h : InTurn w m) {language : String} {pooled : Pooled}
    (hp : m.service.pool.get? language = some pooled) :
    ∀ k ∈ pooled.lock.tickets, m.roles k = .ticket language :=
  fun _ hk => h.ordered.tickets hp hk

/-- A new promise, which is not of a shared operation. -/
theorem grow (h : InTurn w m) {l : Loop Reply Stage Hook} {role : Role Hook Job}
    (ho : Ordered (some w.task) w.before.loop.promises.size { m.service with loop := l }
      (Function.update m.roles m.service.loop.promises.size role))
    (hl : m.service.loop.Later l)
    (ht : l.tasks.get? w.task = m.service.loop.tasks.get? w.task) :
    InTurn w { m with
      service := { m.service with loop := l }
      roles := Function.update m.roles m.service.loop.promises.size role } :=
  h.next ho hl ht
    (h.grip.mono (h.ordered.sound.assigned.extends_update role) fun _ hc => hc)

/-- The job in the task's hands is a promise. -/
theorem job_lt (h : InTurn w m) {language : String} {job : PromiseId}
    (hg : m.grip = .job language job) : job < m.service.loop.promises.size := by
  have hf := h.grip
  rw [hg] at hf
  obtain ⟨⟨parser, source, hj⟩, _⟩ := hf
  exact h.ordered.sound.assigned.lt_size (by simp [hj])

theorem bootShield (h : InTurn w m) {op : PromiseId}
    (hr : m.service.bootFlight.running? m.service.loop () = some op) :
    InTurn w { m with
      service := { m.service with
        bootFlight := m.service.bootFlight.join
        loop := (m.service.loop.shield op).2 }
      roles := Function.update m.roles m.service.loop.promises.size (.shield op) } := by
  have hp := (h.ordered.boot.running?_iff.1 hr).2
  have ho := (h.ordered.withBoot h.ordered.boot.join).shield (isPending_lt hp)
  exact h.next ho (.shield op) (by rw [Loop.shield, tasks_subscribe]; rfl)
    (h.grip.mono (h.ordered.sound.assigned.extends_update _) fun _ hc => hc)

theorem loadShield (h : InTurn w m) {language : String} {op : PromiseId}
    (hr : m.service.grammarFlight.running? m.service.loop language = some op) :
    InTurn w { m with
      service := { m.service with
        grammarFlight := m.service.grammarFlight.join
        loop := (m.service.loop.shield op).2 }
      roles := Function.update m.roles m.service.loop.promises.size (.shield op) } := by
  have hp := (h.ordered.load.running?_iff.1 hr).2
  have ho := (h.ordered.withLoad h.ordered.load.join).shield (isPending_lt hp)
  exact h.next ho (.shield op) (by rw [Loop.shield, tasks_subscribe]; rfl)
    (h.grip.mono (h.ordered.sound.assigned.extends_update _) fun _ hc => hc)

/-- A launch and a shield of what has been launched. -/
theorem launch (h : InTurn w m) {κ : Type} [DecidableEq κ] {f : Flight κ} {key : κ} {hook : Hook}
    {fb : Flight Unit} {fl : Flight String}
    (ho : Ordered (some w.task) w.before.loop.promises.size
      { m.service with
        loop := (f.launch m.service.loop key point hook).2.2, bootFlight := fb, grammarFlight := fl }
      (Function.update m.roles m.service.loop.promises.size (.operation hook))) :
    InTurn w { m with
      service := { m.service with
        loop := ((f.launch m.service.loop key point hook).2.2.shield m.service.loop.promises.size).2
        bootFlight := fb
        grammarFlight := fl }
      roles := Function.update
        (Function.update m.roles m.service.loop.promises.size (.operation hook))
        (m.service.loop.promises.size + 1) (.shield m.service.loop.promises.size) } := by
  have hsize : (f.launch m.service.loop key point hook).2.2.promises.size =
      m.service.loop.promises.size + 1 := Flight.size_launch point hook
  have hlater : m.service.loop.Later (f.launch m.service.loop key point hook).2.2 :=
    Flight.later_launch point hook
  have hs := ho.shield (p := m.service.loop.promises.size) (hsize ▸ Nat.lt_succ_self _)
  have hr := h.ordered.sound.assigned.extends_update (.operation hook)
  have hr' := ho.sound.assigned.extends_update (.shield m.service.loop.promises.size)
  simp only [hsize] at hs hr'
  refine h.next hs (hlater.trans (.shield _)) ?_ (h.grip.mono (hr.trans hr') fun _ hc => hc)
  show ((f.launch m.service.loop key point hook).2.2.shield _).2.tasks.get? w.task = _
  rw [Loop.shield, tasks_subscribe]
  show (f.launch m.service.loop key point hook).2.2.tasks.get? w.task = _
  rw [Flight.launch, tasks_subscribe, get?_tasks_spawn, if_neg (Nat.ne_of_lt h.task_lt)]

theorem submitted (h : InTurn w m) (crew : Crew) {job : Job} {grip : Grip}
    (hg : Submits w m.service m.grip job grip) :
    InTurn w {
      service := Work.handedIn m.service crew job
      roles := Function.update m.roles m.service.loop.promises.size (.job job)
      grip } := by
  refine h.next (h.ordered.handedIn crew job) (later_handedIn crew job) (by rw [Work.tasks_handedIn]) ?_
  show grip.Fits _ (Work.handedIn m.service crew job).pool
  rw [Work.pool_handedIn]
  have hf := h.grip
  generalize m.grip = before at hf hg
  cases hg with
  | boot => trivial
  | fetch hs hk he => trivial
  | parse language source => exact ⟨⟨_, _, Function.update_self ..⟩, hf⟩
  | copy language source root => trivial

theorem dismissed (h : InTurn w m) :
    InTurn w { m with service := (Work.dismiss m.service).2 } := by
  refine h.next h.ordered.dismiss later_dismiss (by rw [Work.tasks_dismiss]) ?_
  show m.grip.Fits m.roles (Work.dismiss m.service).2.pool
  rw [Work.pool_dismiss]
  exact h.grip

/-- A task that has waited a job out finds the promise settled on which it rested. -/
theorem drained (h : InTurn w m) {use : ParseUse} {language : String} {job waiter : PromiseId}
    {cancellation : Fault} (hs : w.stage = .parse use (.draining language job waiter cancellation)) :
    m.service.loop.isPending waiter = false := by
  obtain ⟨task, given, hplaced, hgives, _⟩ := h.placed
  have hrest := hplaced.rest
  rw [hs] at hrest
  obtain ⟨hon, _⟩ := hrest
  unfold Loop.Gives at hgives
  rw [hon] at hgives
  obtain ⟨o, ho, _⟩ := hgives
  exact isPending_of_outcome? ho

theorem stride (h : InTurn w m) (hst : Stride w m m') : InTurn w m' := by
  have ha := h.ordered.sound.assigned
  cases hst with
  | bootJoined hp hr => exact h.bootShield hr
  | bootLaunched hp hn =>
    have hinj : Function.Injective fun _ : Unit => Hook.boot := fun _ _ _ => rfl
    have hk := h.ordered.boot.launch h.ordered.sound hinj hn (.boot .start)
    have hlater : m.service.loop.Later
        (m.service.bootFlight.launch m.service.loop () (.boot .start) .boot).2.2 :=
      Flight.later_launch (Stage.boot .start) Hook.boot
    have hl : m.service.grammarFlight.Kept (Function.update m.roles _ (.operation .boot))
        Hook.grammar _ := h.ordered.load.grow ha hlater (by simp)
    exact h.launch (h.ordered.launch (.boot .start) rfl rfl trivial rfl hk hl)
  | loadJoined language hp hr => exact h.loadShield hr
  | loadLaunched language hp hn =>
    have hinj : Function.Injective Hook.grammar := fun _ _ he => Hook.grammar.inj he
    have hk := h.ordered.load.launch h.ordered.sound hinj hn (.fetch (.start language))
    have hlater : m.service.loop.Later (m.service.grammarFlight.launch m.service.loop language
        (.fetch (.start language)) (.grammar language)).2.2 :=
      Flight.later_launch (Stage.fetch (.start language)) (Hook.grammar language)
    have hb : m.service.bootFlight.Kept
        (Function.update m.roles _ (.operation (.grammar language))) (fun _ => Hook.boot) _ :=
      h.ordered.boot.grow ha hlater (by simp)
    exact h.launch (h.ordered.launch (.fetch (.start language)) rfl rfl trivial rfl hb hk)
  | submitted crew hc hg => exact h.submitted crew hg
  | guarded hg =>
    exact h.grow (h.ordered.shield (h.job_lt hg)) (.shield _) (by rw [Loop.shield, tasks_subscribe]; rfl)
  | waited hg =>
    exact h.grow (h.ordered.waiter (h.job_lt hg)) (.waiter _) (by rw [Loop.waiter, tasks_subscribe]; rfl)
  | @unsubscribed use language job waiter cancellation hs =>
    have hl : m.service.loop.Later (m.service.loop.unsubscribe job (.signal waiter)) :=
      .unsubscribe job waiter
    have hsound : (m.service.loop.unsubscribe job (.signal waiter)).Sound m.roles _ _ :=
      h.ordered.sound.unsubscribe (h.drained hs)
    have hg : (m.service.loop.unsubscribe job (.signal waiter)).groups = m.service.loop.groups :=
      groups_unsubscribe
    have ht : (m.service.loop.unsubscribe job (.signal waiter)).tasks = m.service.loop.tasks :=
      tasks_unsubscribe
    refine h.next (h.ordered.loop hsound hl (h.ordered.members.congr hg) fun t point on hp => ?_) hl
      (by rw [ht]) h.grip
    exact place?_congr ht ▸ hp
  | bootTimed seconds hg => exact h.grow (h.ordered.timer seconds) (.timer seconds) rfl
  | timerDropped p =>
    exact h.next (h.ordered.loop (h.ordered.sound.dropTimer p) (.dropTimer p) h.ordered.members
      fun _ _ _ hp => hp) (.dropTimer p) rfl h.grip
  | parserMade hn he hb => exact h.putPooled (by simp) (h.grip.mono (.refl _) fun _ hc => by simp [hc])
  | taken hg hp hheld hall =>
    exact h.putPooled (fun k hk => h.tickets hp k hk) (by simp [Grip.Fits])
  | admitted hg hp => exact h.putPooled (fun k hk => h.tickets hp k hk) (by simp [Grip.Fits])
  | @drawn language pooled hg hp =>
    have hn := h.grow (h.ordered.promise (.ticket language) rfl) .promise rfl
    refine hn.putPooled (fun k hk => ?_) ⟨Function.update_self .., by simp⟩
    rcases List.mem_append.1 hk with hk | hk
    · exact hn.tickets hp k hk
    · rw [List.mem_singleton.1 hk]
      exact Function.update_self ..
  | withdrawn hs hg hp =>
    refine h.putPooled (fun k hk => h.tickets hp k (List.mem_filter.1 hk).1) ?_
    split
    · simp [Grip.Fits]
    · trivial
  | calledNext hg hp hheld hk =>
    have hrole := h.tickets hp _ (hk ▸ List.mem_cons_self)
    refine h.next (h.ordered.loop (h.ordered.sound.settle_outer (.inr (by rw [hrole]; rfl)))
      (.settle _ _) (h.ordered.members.congr groups_settle) fun t point on hp => ?_) (.settle _ _) ?_
      h.grip
    · exact place?_congr tasks_settle ▸ hp
    · rw [tasks_settle]
  | released hp hg => exact h.putPooled (fun k hk => h.tickets hp k hk) trivial
  | gateMade => exact h.grow (h.ordered.promise .gate rfl) .promise rfl
  | spawned call =>
    refine h.grow (h.ordered.spawn call) (.spawn _) ?_
    rw [get?_tasks_spawn, if_neg (Nat.ne_of_lt h.task_lt)]
  | @grouped members hm =>
    have hlt : ∀ t ∈ members, t < m.service.loop.promises.size := fun t ht =>
      ha.lt_size (by simp [hm t ht])
    refine h.grow (h.ordered.grow (h.ordered.sound.group hlt) (.group _) (by simp)
      ((h.ordered.members_update .group).group fun t ht => ha.update_eq (hm t ht) (by simp))
      fun t point on hp => .inl ?_) (.group _) ?_
    · exact place?_congr (tasks_group) ▸ hp
    · rw [tasks_group]
  | dismissed => exact h.dismissed
  | bootBegun hs hg => exact h.data rfl rfl rfl rfl rfl rfl trivial
  | bootFailed hf hg => exact h.data rfl rfl rfl rfl rfl rfl trivial
  | bootReady hs hr hg => exact h.data rfl rfl rfl rfl rfl rfl trivial
  | bootAbandoned hs hf hg => exact h.data rfl rfl rfl rfl rfl rfl trivial
  | fetchKept hs hk hg => exact h.data rfl rfl rfl rfl rfl rfl trivial
  | fetchRefused hs he hg => exact h.data rfl rfl rfl rfl rfl rfl trivial
  | fetchAbandoned hs hf hg => exact h.data rfl rfl rfl rfl rfl rfl trivial
  | fetched hs hr hg => exact h.data rfl rfl rfl rfl rfl rfl trivial
  | fetchFailed hs => exact h.data rfl rfl rfl rfl rfl rfl trivial
  | _ => exact h.data rfl rfl rfl rfl rfl rfl h.grip

theorem strides (h : InTurn w m) (hst : Strides w m m') : InTurn w m' := by
  induction hst with
  | refl => exact h
  | tail _ hstep ih => exact ih.stride hstep

end InTurn

/-- Promises keep their roles when an operation and its first shield are made. -/
theorem extends_launch {l : Loop Reply Stage Hook} (h : l.Assigned roles) (role role' : Role Hook Job) :
    Extends roles (Function.update (Function.update roles l.promises.size role)
      (l.promises.size + 1) role') := by
  intro p hp
  have hlt := h.lt_size hp
  rw [Function.update_of_ne (Nat.ne_of_lt (Nat.lt_succ_of_lt hlt)),
    Function.update_of_ne (Nat.ne_of_lt hlt)]

theorem Stride.extends (h : InTurn w m) (hst : Stride w m m') : Extends m.roles m'.roles := by
  have ha := h.ordered.sound.assigned
  cases hst
  case bootLaunched => exact extends_launch ha _ _
  case loadLaunched => exact extends_launch ha _ _
  all_goals first
    | exact .refl _
    | exact ha.extends_update _

theorem Strides.extends (h : InTurn w m) (hst : Strides w m m') : Extends m.roles m'.roles := by
  induction hst with
  | refl => exact .refl _
  | tail hst hstep ih => exact ih.trans (hstep.extends (h.strides hst))

/-- Strides keep what has been settled. -/
theorem Stride.later (hst : Stride w m m') : m.service.loop.Later m'.service.loop := by
  cases hst with
  | bootJoined hb hr => exact .shield _
  | bootLaunched hb hn =>
    have hlater : m.service.loop.Later
        (m.service.bootFlight.launch m.service.loop () (.boot .start) .boot).2.2 :=
      Flight.later_launch (Stage.boot .start) Hook.boot
    exact hlater.trans (.shield _)
  | loadJoined language hb hr => exact .shield _
  | loadLaunched language hb hn =>
    have hlater : m.service.loop.Later (m.service.grammarFlight.launch m.service.loop language
        (.fetch (.start language)) (.grammar language)).2.2 :=
      Flight.later_launch (Stage.fetch (.start language)) (Hook.grammar language)
    exact hlater.trans (.shield _)
  | submitted crew hc hg => exact later_handedIn crew _
  | guarded hg => exact .shield _
  | waited hg => exact .waiter _
  | @unsubscribed use language job waiter cancellation hs =>
    have hlater : m.service.loop.Later (m.service.loop.unsubscribe job (.signal waiter)) :=
      .unsubscribe job waiter
    exact hlater
  | bootTimed seconds hg => exact .timer seconds
  | timerDropped q => exact .dropTimer q
  | drawn hg hp => exact .promise
  | calledNext hg hp hheld hk => exact .settle _ _
  | gateMade => exact .promise
  | spawned call => exact .spawn _
  | grouped hm => exact .group _
  | dismissed => exact later_dismiss
  | _ => exact .refl _

theorem Strides.later (hst : Strides w m m') : m.service.loop.Later m'.service.loop := by
  induction hst with
  | refl => exact .refl _
  | tail _ hstep ih => exact ih.trans hstep.later

/-- A stride starts a task at most, and leaves the others where they are. -/
theorem Stride.tasks_cases (hst : Stride w m m') :
    m'.service.loop.tasks = m.service.loop.tasks ∨ ∃ point, m'.service.loop.tasks =
      m.service.loop.tasks.put m.service.loop.promises.size { point } := by
  cases hst with
  | bootJoined hb hr => exact .inl tasks_subscribe
  | bootLaunched hb hn => exact .inr ⟨_, tasks_subscribe.trans tasks_subscribe⟩
  | loadJoined language hb hr => exact .inl tasks_subscribe
  | loadLaunched language hb hn => exact .inr ⟨_, tasks_subscribe.trans tasks_subscribe⟩
  | submitted crew hc hg => exact .inl Work.tasks_handedIn
  | guarded hg => exact .inl tasks_subscribe
  | waited hg => exact .inl tasks_subscribe
  | unsubscribed hs => exact .inl tasks_unsubscribe
  | calledNext hg hp hheld hk => exact .inl tasks_settle
  | spawned call => exact .inr ⟨_, rfl⟩
  | grouped hm => exact .inl tasks_group
  | dismissed => exact .inl Work.tasks_dismiss
  | _ => exact .inl rfl

/-- Strides do nothing to the tasks that there are. -/
theorem Strides.get?_tasks (hst : Strides w m m') (hlt : t < m.service.loop.promises.size) :
    m'.service.loop.tasks.get? t = m.service.loop.tasks.get? t := by
  induction hst with
  | refl => rfl
  | tail hst hstep ih =>
    have hlt' := Nat.lt_of_lt_of_le hlt (Strides.later hst).size_le
    rcases hstep.tasks_cases with he | ⟨point, he⟩
    · rw [he, ih]
    · rw [he, Keyed.get?_put, if_neg (Nat.ne_of_lt hlt'), ih]

/-! ## Turns -/

variable {i : Nat} {task : Task Stage} {given : Except Fault Reply} {turn : Turn Stage Reply}

/-- A task takes its turn. -/
theorem Ordered.takeUp (h : Ordered none base s roles) (hw : s.loop.Wakes i t task given) :
    InTurn ⟨t, task.point, Program.met task given, { s with loop := s.loop.pick i }⟩
      ⟨{ s with loop := s.loop.pick i }, roles, task.point.grip⟩ where
  ordered := by
    have hs := (hw.takeUp h.sound).mono_base h.sound.tended.base_le (Nat.le_refl _)
    exact h.loop hs (.wakes hw) h.members fun _ _ _ hp => hp
  base_le := Nat.le_refl _
  woken := ⟨task, given, hw.unfinished, rfl, hw.gives, rfl⟩
  grip := (h.placed (place?_of_get? hw.unfinished)).grip

/-- A task ends its turn. -/
theorem InTurn.conclude (h : InTurn w m) (hend : Ends w m turn) :
    Ordered none m.service.loop.promises.size
      { m.service with loop := Program.conclude w.task turn m.service.loop } m.roles := by
  obtain ⟨task, given, hplaced, _⟩ := h.placed
  have hs : (Program.conclude w.task turn m.service.loop).Sound m.roles none
      m.service.loop.promises.size := by
    cases turn with
    | rest on point =>
      obtain ⟨_, _, _, hrest, hle, hlt⟩ := hend
      exact h.ordered.sound.rest hle hlt hrest.isTask_eq_false
    | giveWay point => exact h.ordered.sound.giveWay
    | finish result => exact h.ordered.sound.finish
  have hl := Later.conclude (l := m.service.loop) w.task turn
  refine h.ordered.next (.refl _) hs (h.ordered.boot.later h.ordered.sound.assigned hl)
    (h.ordered.load.later h.ordered.sound.assigned hl) (fun t point on hp => ?_)
    (h.ordered.members.congr groups_conclude) (fun _ hc => hc)
    (fun _ _ _ hk hmem => h.ordered.tickets hk hmem) fun _ ht => h.ordered.queued ht
  replace hp : (Program.conclude w.task turn m.service.loop).place? t = some (point, on) := hp
  rw [place?_conclude] at hp
  split at hp
  · rename_i he
    subst he
    cases turn with
    | rest on' point' =>
      obtain ⟨hg, hrole, hc, hrest, _⟩ := hend
      cases hp
      exact .inr ⟨hplaced.role.trans hrole.symm, hrest, hc, hg ▸ h.grip⟩
    | giveWay point' =>
      obtain ⟨hg, hrole, hc, hrest⟩ := hend
      cases hp
      exact .inr ⟨hplaced.role.trans hrole.symm, hrest, hc, hg ▸ h.grip⟩
    | finish result => cases hp
  · exact .inl hp

/-! ## Steps -/

/-- Everything is in order between turns. -/
abbrev AtRest (s : Service) (roles : Roles Hook Job) : Prop := Ordered none s.loop.promises.size s roles

theorem Ordered.rest (h : Ordered none base s roles) : AtRest s roles :=
  ⟨h.sound.widen, h.boot, h.load, h.placed, h.members, h.tickets, h.queued⟩

/-- The gate on which the holder of a lease rests. -/
theorem gate?_eq_some_iff {gate : PromiseId} :
    s.gate? t = some gate ↔
      ∃ language parser, s.loop.place? t = some (.holding language parser, some gate) := by
  constructor
  · intro hg
    unfold gate? at hg
    split at hg
    · rename_i language parser on marked ht
      cases hg
      exact ⟨language, parser, place?_of_get? ht⟩
    · cases hg
  · rintro ⟨language, parser, hp⟩
    obtain ⟨task, ht, hpoint, hrest⟩ := place?_eq_some_iff.1 hp
    obtain ⟨point, restsOn, marked⟩ := task
    subst hpoint hrest
    simp [gate?, ht]

theorem Ordered.gate (h : Ordered busy base s roles) {gate : PromiseId} (hg : s.gate? t = some gate) :
    roles gate = .gate := by
  obtain ⟨language, parser, hp⟩ := gate?_eq_some_iff.1 hg
  obtain ⟨p, he, hrole⟩ := (h.placed hp).rest
  cases he
  exact hrole

theorem Ordered.forgotten (h : Ordered none base s roles) {hook : Hook} {op : PromiseId}
    (hi : s.loop.agenda[i]? = some (.react (.hook hook) op)) :
    Ordered none base (Calls.react hook op { s with loop := s.loop.pick i }) roles := by
  have hs : (s.loop.pick i).Sound roles none base :=
    h.sound.pick hi rfl (fun _ _ he => by cases he) fun _ _ he => by cases he
  cases hook with
  | boot =>
    have hinj : Function.Injective fun _ : Unit => Hook.boot := fun _ _ _ => rfl
    exact ⟨hs, h.boot.forget h.sound hinj hi, h.load.pick hi (by simp), h.placed, h.members,
      h.tickets, h.queued⟩
  | grammar language =>
    have hinj : Function.Injective Hook.grammar := fun _ _ he => Hook.grammar.inj he
    exact ⟨hs, h.boot.pick hi (by simp), h.load.forget h.sound hinj hi, h.placed, h.members,
      h.tickets, h.queued⟩

/-- Every step keeps the order, and promises keep their roles. -/
theorem Ordered.step (h : AtRest s roles) (hst : Step s roles mv s' roles') :
    AtRest s' roles' ∧ Extends roles roles' := by
  cases hst with
  | idle => exact ⟨h, .refl _⟩
  | @carried i e hi hw hk =>
    have hl := (Later.pick hi hk).trans (.effect e)
    have ht : (Program.Errand.effect e (s.loop.pick i)).tasks = s.loop.tasks := tasks_effect e
    refine ⟨(h.loop (Program.sound_effect h.sound hi hw) hl
      (Members.effect (l := s.loop.pick i) h.members e) fun t point on hp => ?_).rest, .refl _⟩
    exact place?_congr ht ▸ hp
  | forgotten hi => exact ⟨(h.forgotten hi).rest, .refl _⟩
  | expired =>
    exact ⟨(h.loop h.sound.expireDue .expireDue h.members fun _ _ _ hp => hp).rest, .refl _⟩
  | clocked time =>
    have hs : ({ s.loop with now := time } : Loop Reply Stage Hook).Sound roles none _ :=
      h.sound.withTimers fun _ hx => hx
    exact ⟨(h.loop hs (.congr rfl rfl) h.members fun _ _ _ hp => hp).rest, .refl _⟩
  | spawned call => exact ⟨(h.spawn call).rest, h.sound.assigned.extends_update _⟩
  | workedOff hi => exact ⟨(h.workedOff hi).rest, .refl _⟩
  | cancelled t ha =>
    exact ⟨(h.loop (h.sound.cancelTask t) (.cancelTask t) (h.members.cancelTask t)
      fun _ _ _ hp => place?_cancelTask ▸ hp).rest, .refl _⟩
  | leaseEnded hg fault =>
    have hrole := h.gate hg
    refine ⟨(h.loop (h.sound.settle_outer (.inr (by rw [hrole]; rfl))) (.settle _ _)
      (h.members.congr groups_settle) fun _ _ _ hp => ?_).rest, .refl _⟩
    exact place?_congr tasks_settle ▸ hp
  | turn hw hst hres hend =>
    have ht := h.takeUp hw
    exact ⟨((ht.strides hst).conclude hend).rest, hst.extends ht⟩

end SourceTrees.Service
