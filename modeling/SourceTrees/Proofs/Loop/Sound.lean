import SourceTrees.Proofs.Loop.Roles

/-!
# Sound loops

A loop is **sound** under roles for its promises if every task is woken once, every promise is settled
as its role says, and the unfinished tasks are the open promises of tasks.  All that a task can do with
the loop in its turn, all that errands do, and all that is done from outside keeps it sound.

## Results

* `Loop.Sound.takeUp`, `Loop.Sound.rest`, `Loop.Sound.giveWay`, `Loop.Sound.finish` — a turn from its
  beginning to its end.
* `Loop.Sound.promise`, `Loop.Sound.shield`, `Loop.Sound.spawn`, … — what happens during a turn.
* `Loop.Sound.relay`, `Loop.Sound.signal`, `Loop.Sound.tally`, … — the other errands.
* `Loop.Sound.cancelTask` — a cancellation from outside, at any moment.
-/

set_option autoImplicit false

namespace SourceTrees.Loop

variable {V P K J : Type} {roles : Roles K J} {busy : Option PromiseId} {base : Nat}
  {l : Loop V P K} {p q t : PromiseId} {r : Reaction K} {role : Role K J} {i : Nat}

/-- The loop is in order, while at most one task has its turn. -/
structure Sound (roles : Roles K J) (busy : Option PromiseId) (base : Nat) (l : Loop V P K) :
    Prop where
  tended : l.Tended busy base
  assigned : l.Assigned roles
  listed : l.Listed roles
  present : ∀ {t}, busy = some t → (l.tasks.get? t).isSome = true

namespace Sound

theorem init : ({} : Loop V P K).Sound (fun _ => (.unused : Role K J)) none 0 where
  tended := .init
  assigned := .init
  listed t := by simp [isPending, Role.isTask]
  present h := by cases h

theorem known (h : l.Sound roles busy base) {task : Task P} (hg : l.tasks.get? t = some task) :
    t < l.promises.size := h.tended.known hg

theorem isPending (h : l.Sound roles busy base) {task : Task P} (hg : l.tasks.get? t = some task) :
    l.isPending t = true := ((h.listed t).1 (by rw [hg]; rfl)).2

theorem isTask (h : l.Sound roles busy base) {task : Task P} (hg : l.tasks.get? t = some task) :
    (roles t).isTask = true := ((h.listed t).1 (by rw [hg]; rfl)).1

theorem get?_size (h : l.Sound roles busy base) : l.tasks.get? l.promises.size = none := by
  cases hg : l.tasks.get? l.promises.size with
  | none => rfl
  | some task => exact absurd (h.known hg) (Nat.lt_irrefl _)

theorem busy_lt (h : l.Sound roles busy base) (hb : busy = some t) : t < l.promises.size := by
  obtain ⟨task, hg⟩ := Option.isSome_iff_exists.1 (h.present hb)
  exact h.known hg

theorem mono_base {base' : Nat} (h : l.Sound roles busy base) (hle : base ≤ base')
    (hsize : base' ≤ l.promises.size) : l.Sound roles busy base' :=
  ⟨h.tended.mono_base hle hsize, h.assigned, h.listed, h.present⟩

/-- Between turns every promise may have been rested on. -/
theorem widen (h : l.Sound roles none base) : l.Sound roles none l.promises.size :=
  h.mono_base h.tended.base_le (Nat.le_refl _)

/-! ## During a turn -/

theorem listed_promise (h : l.Sound roles busy base) (hrole : role.isTask = false) :
    l.promise.2.Listed (Function.update roles l.promises.size role) := by
  intro t
  rw [tasks_promise, isPending_promise, Function.update_apply]
  by_cases he : t = l.promises.size
  · subst he
    simp [h.get?_size, hrole]
  · simpa [he] using h.listed t

theorem promise (h : l.Sound roles busy base) (hrole : role.isOuter = true) :
    l.promise.2.Sound (Function.update roles l.promises.size role) busy base where
  tended := h.tended.promise
  assigned := h.assigned.promise (.inr hrole)
  listed := h.listed_promise (by cases role <;> simp_all [Role.isOuter, Role.isTask])
  present := h.present

theorem subscribe (h : l.Sound roles busy base) (hlt : p < l.promises.size)
    (hw : r.woken? = none) (hf : r.Fits roles p) : (l.subscribe p r).Sound roles busy base where
  tended := h.tended.subscribe p hw
  assigned := h.assigned.subscribe hlt hf
  listed t := by
    rw [tasks_subscribe, isPending_subscribe]
    exact h.listed t
  present hb := by
    rw [tasks_subscribe]
    exact h.present hb

theorem follower (h : l.Sound roles busy base) (hlt : p < l.promises.size)
    (hr : (r = .relay l.promises.size ∧ role = .shield p) ∨
      (r = .signal l.promises.size ∧ role = .waiter p)) :
    (l.promise.2.subscribe p r).Sound (Function.update roles l.promises.size role) busy base where
  tended := h.tended.promise.subscribe p (by rcases hr with ⟨rfl, _⟩ | ⟨rfl, _⟩ <;> rfl)
  assigned := h.assigned.follower hlt hr
  listed t := by
    rw [tasks_subscribe, isPending_subscribe]
    exact h.listed_promise (by rcases hr with ⟨_, rfl⟩ | ⟨_, rfl⟩ <;> rfl) t
  present hb := by
    rw [tasks_subscribe]
    exact h.present hb

theorem shield (h : l.Sound roles busy base) (hlt : p < l.promises.size) :
    (l.shield p).2.Sound (Function.update roles l.promises.size (.shield p)) busy base :=
  h.follower hlt (.inl ⟨rfl, rfl⟩)

theorem waiter (h : l.Sound roles busy base) (hlt : p < l.promises.size) :
    (l.waiter p).2.Sound (Function.update roles l.promises.size (.waiter p)) busy base :=
  h.follower hlt (.inr ⟨rfl, rfl⟩)

theorem unsubscribe [DecidableEq K] (h : l.Sound roles busy base) {w : PromiseId}
    (hw : l.isPending w = false) : (l.unsubscribe p (.signal w)).Sound roles busy base where
  tended := h.tended.unsubscribe p rfl
  assigned := h.assigned.unsubscribe hw
  listed t := by
    rw [tasks_unsubscribe, isPending_unsubscribe]
    exact h.listed t
  present hb := by
    rw [tasks_unsubscribe]
    exact h.present hb

/-- A promise that is not of a task is settled as its role says. -/
theorem settle (h : l.Sound roles busy base) {s : Settled V} (ht : (roles p).isTask = false)
    (hs : ∀ q, roles p = .shield q → s = .cancelled ∨ l.outcome? q = some s)
    (hw : ∀ q, roles p = .waiter q → s = .cancelled ∨ ∃ o, l.outcome? q = some o) :
    (l.settle p s).Sound roles busy base where
  tended := h.tended.settle p s
  assigned := h.assigned.settle hs hw fun hc => by
    rw [ht] at hc
    cases hc
  listed t := by
    rw [tasks_settle, isPending_settle, Bool.and_eq_true, h.listed t]
    constructor
    · rintro ⟨hr, hp⟩
      refine ⟨hr, hp, decide_eq_true ?_⟩
      rintro rfl
      rw [ht] at hr
      cases hr
    · exact fun hc => ⟨hc.1, hc.2.1⟩
  present hb := by
    rw [tasks_settle]
    exact h.present hb

/-- Cancelling a promise, or settling one from outside. -/
theorem settle_outer (h : l.Sound roles busy base) {s : Settled V}
    (hs : s = .cancelled ∧ (roles p).isTask = false ∨ (roles p).isOuter = true) :
    (l.settle p s).Sound roles busy base := by
  rcases hs with ⟨rfl, ht⟩ | ho
  · exact h.settle ht (fun _ _ => .inl rfl) fun _ _ => .inl rfl
  · refine h.settle ?_ (fun q hq => ?_) fun q hq => ?_
    · cases hr : roles p <;> simp_all [Role.isOuter, Role.isTask]
    · rw [hq] at ho
      cases ho
    · rw [hq] at ho
      cases ho

theorem spawn (h : l.Sound roles busy base) (point : P) (hrole : role.isTask = true) :
    (l.spawn point).2.Sound (Function.update roles l.promises.size role) busy base where
  tended := h.tended.spawn (fun _ hb => h.busy_lt hb) point
  assigned := by
    have hstep : ∀ e ∈ [(.step l.promises.size : Errand V K)], (∃ p o j, e = .deliver p o ∧
        Function.update roles l.promises.size role p = .job j) ∨ (∃ p, e = .expire p ∧
        Function.update roles l.promises.size role p = .timer) ∨ ∃ t, e = .step t := by
      simp
    have ha := (h.assigned.promise (.inl hrole)).enqueueAll hstep
    refine ha.replace (fun {t task q} ht hr => ?_) ha.grouped ha.timed
    replace ht : (l.spawn point).2.tasks.get? t = some task := ht
    rw [get?_tasks_spawn] at ht
    split at ht
    · cases ht
      cases hr
    · exact ha.rests ht hr
  listed t := by
    rw [get?_tasks_spawn, isPending_spawn, Function.update_apply]
    by_cases he : t = l.promises.size
    · simp [he, hrole]
    · simpa [he] using h.listed t
  present {t} hb := by
    rw [get?_tasks_spawn, if_neg (Nat.ne_of_lt (h.busy_lt hb))]
    exact h.present hb

/-- An outcome of a job, or the end of a timer, is put on the agenda. -/
theorem enqueueAll (h : l.Sound roles busy base) {es : List (Errand V K)}
    (he : ∀ e ∈ es, (∃ p o j, e = .deliver p o ∧ roles p = .job j) ∨
      ∃ p, e = .expire p ∧ roles p = .timer) :
    ({ l with agenda := l.agenda ++ es } : Loop V P K).Sound roles busy base where
  tended := by
    refine h.tended.enqueueAll (fun e hm => ?_) fun r p hm => ?_
    · obtain ⟨_, _, _, rfl, _⟩ | ⟨_, rfl, _⟩ := he e hm <;> rfl
    · obtain ⟨_, _, _, hc, _⟩ | ⟨_, hc, _⟩ := he _ hm <;> cases hc
  assigned := h.assigned.enqueueAll fun e hm => (he e hm).imp id .inl
  listed := h.listed
  present := h.present

theorem timer (h : l.Sound roles busy base) (seconds : Float) :
    (l.timer seconds).2.Sound (Function.update roles l.promises.size .timer) busy base := by
  have hp : l.promise.2.Sound (Function.update roles l.promises.size .timer) busy base :=
    h.promise rfl
  refine ⟨hp.tended.congr rfl rfl rfl, hp.assigned.replace hp.assigned.rests hp.assigned.grouped ?_,
    hp.listed, hp.present⟩
  intro x hx
  rcases List.mem_append.1 hx with hx | hx
  · exact hp.assigned.timed hx
  · rw [List.mem_singleton] at hx
    subst hx
    exact Function.update_self ..

/-- The clock is set, or timers are dropped. -/
theorem withTimers (h : l.Sound roles busy base) {timers : List Timer} {now : Float}
    (ht : ∀ x ∈ timers, x ∈ l.timers) :
    ({ l with timers, now } : Loop V P K).Sound roles busy base :=
  ⟨h.tended.congr rfl rfl rfl, h.assigned.replace h.assigned.rests h.assigned.grouped
    fun hx => h.assigned.timed (ht _ hx), h.listed, h.present⟩

theorem dropTimer (h : l.Sound roles busy base) (p : PromiseId) :
    (l.dropTimer p).Sound roles busy base :=
  h.withTimers fun _ hx => (List.mem_filter.1 hx).1

theorem withGroups (h : l.Sound roles busy base) {groups : Keyed PromiseId Group}
    (hg : ∀ {g}, (groups.get? g).isSome = true → roles g = .group) :
    ({ l with groups } : Loop V P K).Sound roles busy base :=
  ⟨h.tended.congr rfl rfl rfl, h.assigned.replace h.assigned.rests hg h.assigned.timed,
    h.listed, h.present⟩

/-- The tallies of a group are added to its members one after the other. -/
theorem tallyAll {g : PromiseId} (hg : roles g = .group) :
    ∀ (ts : List PromiseId) (l : Loop V P K), l.Sound roles busy base →
      (∀ t ∈ ts, t < l.promises.size) →
      (ts.foldl (fun l t => l.subscribe t (.tally g)) l).Sound roles busy base
  | [], _, h, _ => h
  | t :: ts, l, h, hts => by
    have hnext : (l.subscribe t (.tally g)).Sound roles busy base :=
      h.subscribe (hts t List.mem_cons_self) rfl hg
    refine tallyAll hg ts _ hnext fun t' ht' => ?_
    rw [size_subscribe]
    exact hts t' (List.mem_cons_of_mem _ ht')

theorem group (h : l.Sound roles busy base) {members : List PromiseId}
    (hm : ∀ t ∈ members, t < l.promises.size) :
    (l.group members).2.Sound (Function.update roles l.promises.size .group) busy base := by
  have hp : l.promise.2.Sound (Function.update roles l.promises.size .group) busy base :=
    h.promise rfl
  have hgroups : ∀ {g}, ((l.promise.2.groups.put l.promises.size
      { members, left := members.length }).get? g).isSome = true →
      Function.update roles l.promises.size .group g = .group := by
    intro g hg
    rw [Keyed.get?_put] at hg
    split at hg
    · rename_i he
      subst he
      exact Function.update_self ..
    · exact hp.assigned.grouped hg
  refine tallyAll (Function.update_self ..) members _ (hp.withGroups hgroups) fun t ht => ?_
  have hsize : l.promise.2.promises.size = l.promises.size + 1 := size_promise
  exact hsize ▸ Nat.lt_succ_of_lt (hm t ht)

/-! ## Cancelling from outside -/

theorem mark (h : l.Sound roles busy base) (t : PromiseId) : (l.mark t).Sound roles busy base := by
  have hback : ∀ {t' task'}, (l.mark t).tasks.get? t' = some task' →
      ∃ task, l.tasks.get? t' = some task ∧ task'.restsOn = task.restsOn := by
    intro t' task' hg
    rw [get?_tasks_mark] at hg
    obtain ⟨task, ht, rfl⟩ := Option.map_eq_some_iff.1 hg
    refine ⟨task, ht, ?_⟩
    split <;> rfl
  refine ⟨h.tended.mark t, ?_, fun t' => ?_, fun {t'} hb => ?_⟩
  · refine h.assigned.replace (fun hg hr => ?_) h.assigned.grouped h.assigned.timed
    obtain ⟨task, hg', hr'⟩ := hback hg
    exact h.assigned.rests hg' (hr' ▸ hr)
  · rw [get?_tasks_mark, Option.isSome_map]
    exact h.listed t'
  · rw [get?_tasks_mark, Option.isSome_map]
    exact h.present hb

theorem cancelMember (h : l.Sound roles busy base) (t : PromiseId) :
    (l.cancelMember t).2.Sound roles busy base := by
  unfold Loop.cancelMember
  split
  · exact h
  · rename_i task hg
    split
    · rename_i p hr
      split
      · exact h.settle_outer (.inl ⟨rfl, (h.assigned.rests hg hr).2⟩)
      · exact h.mark t
    · exact h.mark t

theorem cancelMembers : ∀ (ts : List PromiseId) {l : Loop V P K}, l.Sound roles busy base →
    (l.cancelMembers ts).2.Sound roles busy base
  | [], _, h => h
  | t :: ts, _, h => cancelMembers ts (h.cancelMember t)

theorem cancelTask (h : l.Sound roles busy base) (t : PromiseId) :
    (l.cancelTask t).Sound roles busy base := by
  unfold Loop.cancelTask
  split
  · exact h.cancelMember t
  · rename_i p _
    split
    · exact h.cancelMember t
    · rename_i group hg
      have hm := h.cancelMembers group.members
      dsimp only
      split
      · refine hm.withGroups fun {g} hg' => ?_
        rw [Keyed.get?_put] at hg'
        split at hg'
        · rename_i he
          exact he ▸ h.assigned.grouped (by rw [hg]; rfl)
        · exact hm.assigned.grouped hg'
      · exact hm.mark t

/-! ## Errands -/

variable {e : Errand V K} {o : Settled V}

theorem takeUp (h : l.Sound roles none base) (hi : l.agenda[i]? = some e)
    (hw : e.woken? = some t) : (l.pick i).Sound roles (some t) base where
  tended := h.tended.takeUp hi hw
  assigned := by
    refine h.assigned.pick hi (fun p q he => ?_) fun p q he => ?_
    · subst he
      cases hw
    · subst he
      cases hw
  listed := h.listed
  present hb := by
    cases hb
    have hm : t ∈ l.wakes := List.mem_filterMap.2 ⟨e, List.mem_of_getElem? hi, hw⟩
    obtain ⟨_, task, hg, _⟩ := h.tended.mem_wakes hm
    exact Option.isSome_iff_exists.2 ⟨task, hg⟩

theorem pick (h : l.Sound roles busy base) (hi : l.agenda[i]? = some e) (hw : e.woken? = none)
    (hs : ∀ p q, e = .react (.relay q) p → l.isPending q = false)
    (hv : ∀ p w, e = .react (.signal w) p → l.isPending w = false) :
    (l.pick i).Sound roles busy base :=
  ⟨h.tended.pick hi hw, h.assigned.pick hi hs hv, h.listed, h.present⟩

theorem relay (h : l.Sound roles busy base) (hi : l.agenda[i]? = some (.react (.relay q) p))
    (ho : l.outcome? p = some o) : ((l.pick i).settle q o).Sound roles busy base := by
  obtain ⟨heq, hi'⟩ := pick_settle (p := q) (o := o) hi
  have hrole : roles q = .shield p := h.assigned.fits (.inr (List.mem_of_getElem? hi))
  have hs : (l.settle q o).Sound roles busy base := by
    refine h.settle (by rw [hrole]; rfl) (fun p' hp' => ?_) fun p' hp' => ?_
    · rw [hrole] at hp'
      cases hp'
      exact .inr ho
    · rw [hrole] at hp'
      cases hp'
  rw [← heq]
  refine hs.pick hi' rfl (fun p' q' he => ?_) fun p' w he => by cases he
  cases he
  simp [isPending_settle]

theorem signal [Inhabited V] {w : PromiseId} (h : l.Sound roles busy base)
    (hi : l.agenda[i]? = some (.react (.signal w) p)) :
    ((l.pick i).settle w (.value default)).Sound roles busy base := by
  obtain ⟨heq, hi'⟩ := pick_settle (p := w) (o := .value default) hi
  have hm := List.mem_of_getElem? hi
  have hrole : roles w = .waiter p := h.assigned.fits (.inr hm)
  have hs : (l.settle w (.value default)).Sound roles busy base := by
    refine h.settle (by rw [hrole]; rfl) (fun p' hp' => ?_) fun p' hp' => ?_
    · rw [hrole] at hp'
      cases hp'
    · rw [hrole] at hp'
      cases hp'
      exact .inr (h.tended.settled hm)
  rw [← heq]
  refine hs.pick hi' rfl (fun p' q' he => by cases he) fun p' w' he => ?_
  cases he
  simp [isPending_settle]

theorem tally [Inhabited V] (h : l.Sound roles busy base) (g : PromiseId) :
    (Program.tally g l).Sound roles busy base := by
  unfold Program.tally
  split
  · exact h
  · rename_i group hg
    have hrole : roles g = .group := h.assigned.grouped (by rw [hg]; rfl)
    split
    · refine Sound.settle_outer (h.withGroups fun {g'} hg' => ?_) (.inr (by rw [hrole]; rfl))
      rw [Keyed.get?_erase] at hg'
      split at hg'
      · cases hg'
      · exact h.assigned.grouped hg'
    · refine h.withGroups fun {g'} hg' => ?_
      rw [Keyed.get?_put] at hg'
      split at hg'
      · rename_i he
        exact he ▸ hrole
      · exact h.assigned.grouped hg'

theorem deliver {x : Except Fault V} (h : l.Sound roles busy base)
    (hi : l.agenda[i]? = some (.deliver p x)) :
    ((l.pick i).settle p (.ofResult x)).Sound roles busy base := by
  obtain ⟨j, hj⟩ := h.assigned.delivered (List.mem_of_getElem? hi)
  have hp := h.pick hi rfl (fun _ _ he => by cases he) fun _ _ he => by cases he
  exact hp.settle_outer (.inr (by rw [hj]; rfl))

theorem expire [Inhabited V] (h : l.Sound roles busy base) (hi : l.agenda[i]? = some (.expire p)) :
    ((l.pick i).settle p (.value default)).Sound roles busy base := by
  have hr := h.assigned.expired (List.mem_of_getElem? hi)
  have hp := h.pick hi rfl (fun _ _ he => by cases he) fun _ _ he => by cases he
  exact hp.settle_outer (.inr (by rw [hr]; rfl))

theorem expireDue (h : l.Sound roles busy base) : l.expireDue.Sound roles busy base := by
  unfold Loop.expireDue
  rw [List.partition_eq_filter_filter]
  refine Sound.enqueueAll (h.withTimers fun x hx => (List.mem_filter.1 hx).1) fun e he => ?_
  obtain ⟨x, hx, rfl⟩ := List.mem_map.1 he
  exact .inr ⟨_, rfl, h.assigned.timed (List.mem_filter.1 hx).1⟩

/-! ## The end of a turn -/

theorem rest {on : PromiseId} {point : P} (h : l.Sound roles (some t) base) (hon : base ≤ on)
    (hlt : on < l.promises.size) (hr : (roles on).isTask = false) :
    (Program.conclude t (.rest on point : Turn P V) l).Sound roles none l.promises.size where
  tended := h.tended.rest (h.busy_lt rfl) hon hlt
  assigned := by
    refine Assigned.subscribe (h.assigned.replace (fun {t' task p} hg hp => ?_) h.assigned.grouped
      h.assigned.timed) hlt trivial
    rw [Keyed.get?_put] at hg
    split at hg
    · cases hg
      cases hp
      exact ⟨h.assigned.role_ne_unused hlt, hr⟩
    · exact h.assigned.rests hg hp
  listed t' := by
    have hget : (Program.conclude t (.rest on point : Turn P V) l).tasks.get? t' =
        if t' = t then some { point, restsOn := some on } else l.tasks.get? t' := by
      simp [Program.conclude]
    have hpend : (Program.conclude t (.rest on point : Turn P V) l).isPending t' = l.isPending t' :=
      isPending_subscribe
    rw [hget, hpend]
    split
    · rename_i he
      subst he
      simpa using (h.listed t').1 (h.present rfl)
    · exact h.listed t'
  present hb := by cases hb

theorem giveWay {point : P} (h : l.Sound roles (some t) base) :
    (Program.conclude t (.giveWay point : Turn P V) l).Sound roles none l.promises.size where
  tended := h.tended.giveWay (h.busy_lt rfl)
  assigned := by
    have ha : ({ l with tasks := l.tasks.put t { point } } : Loop V P K).Assigned roles := by
      refine h.assigned.replace (fun {t' task p} hg hp => ?_) h.assigned.grouped h.assigned.timed
      rw [Keyed.get?_put] at hg
      split at hg
      · cases hg
        cases hp
      · exact h.assigned.rests hg hp
    exact ha.enqueueAll fun e he => .inr (.inr ⟨t, List.mem_singleton.1 he⟩)
  listed t' := by
    have hget : (Program.conclude t (.giveWay point : Turn P V) l).tasks.get? t' =
        if t' = t then some { point } else l.tasks.get? t' := by
      simp [Program.conclude, Loop.enqueue]
    have hpend : (Program.conclude t (.giveWay point : Turn P V) l).isPending t' = l.isPending t' :=
      rfl
    rw [hget, hpend]
    split
    · rename_i he
      subst he
      simpa using (h.listed t').1 (h.present rfl)
    · exact h.listed t'
  present hb := by cases hb

theorem finish {result : Except Fault V} (h : l.Sound roles (some t) base) :
    (Program.conclude t (.finish result : Turn P V) l).Sound roles none l.promises.size := by
  obtain ⟨hrole, hpending⟩ := (h.listed t).1 (h.present rfl)
  have hget : ∀ t', (Program.conclude t (.finish result : Turn P V) l).tasks.get? t' =
      if t' = t then none else l.tasks.get? t' := by
    intro t'
    simp [Program.conclude]
  refine ⟨h.tended.finish, ?_, fun t' => ?_, fun hb => by cases hb⟩
  · refine Assigned.settle (h.assigned.replace (fun {t' task p} hg hp => ?_) h.assigned.grouped
      h.assigned.timed) (fun q hq => ?_) (fun q hq => ?_) fun _ f hf => ?_
    · rw [Keyed.get?_erase] at hg
      split at hg
      · cases hg
      · exact h.assigned.rests hg hp
    · rw [hq] at hrole
      cases hrole
    · rw [hq] at hrole
      cases hrole
    · unfold Program.ended at hf
      split at hf
      · cases hf
      · split at hf
        · cases hf
        · rename_i hk
          cases hf
          exact hk
  · have hpend : (Program.conclude t (.finish result : Turn P V) l).isPending t' =
        (l.isPending t' && decide (t' ≠ t)) := isPending_settle
    rw [hget, hpend]
    split
    · rename_i he
      subst he
      simp
    · rename_i he
      simpa [he] using h.listed t'

end Sound

end SourceTrees.Loop
