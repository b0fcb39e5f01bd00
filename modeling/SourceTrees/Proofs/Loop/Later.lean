import SourceTrees.Proofs.Loop.Order

/-!
# What stays

A loop moves on in many ways, but some things stay: a settled promise keeps its outcome, and the hook of
an operation stays due until it is carried out.  Where a task rests is changed by its own turn only; a
cancellation from outside at most marks it.

## Results

* `Loop.Later` — the first two facts as a relation between loops; every operation leads to a later
  loop, except that the errand of a hook leaves the agenda.
* `Loop.place?` — where a task rests; `Loop.place?_cancelTask` — a cancellation does not move it.
* `Loop.outcome?_finish` — a task that finishes settles its promise.
-/

set_option autoImplicit false

namespace SourceTrees.Loop

variable {V P K : Type} {l l' l'' : Loop V P K} {p q t : PromiseId} {r : Reaction K} {i : Nat}

/-- Outcomes stay, and no hook is lost. -/
structure Later (l l' : Loop V P K) : Prop where
  size_le : l.promises.size ≤ l'.promises.size
  outcome : ∀ {p o}, l.outcome? p = some o → l'.outcome? p = some o
  hook : ∀ {p k}, l.Due p (.hook k) → l'.Due p (.hook k)

namespace Later

theorem refl (l : Loop V P K) : l.Later l := ⟨Nat.le_refl _, id, id⟩

theorem trans (h : l.Later l') (h' : l'.Later l'') : l.Later l'' where
  size_le := Nat.le_trans h.size_le h'.size_le
  outcome ho := h'.outcome (h.outcome ho)
  hook hd := h'.hook (h.hook hd)

theorem congr (hp : l'.promises = l.promises) (ha : l'.agenda = l.agenda) : l.Later l' := by
  refine ⟨Nat.le_of_eq (by rw [hp]), fun ho => ?_, fun hd => ?_⟩
  · rw [outcome?_eq_some_iff] at ho ⊢
    rw [hp]
    exact ho
  · unfold Due Subscribed at hd ⊢
    rw [hp, ha]
    exact hd

theorem after_congr (h : l'.Later l'') (hp : l'.promises = l.promises)
    (ha : l'.agenda = l.agenda) : l.Later l'' := (congr hp ha).trans h

/-- What is open later was open before. -/
theorem isPending (h : l.Later l') (hlt : p < l.promises.size) (hp : l'.isPending p = true) :
    l.isPending p = true := by
  rcases isPending_or_settled hlt with ho | ⟨o, ho⟩
  · exact ho
  · rw [isPending_of_outcome? (h.outcome ho)] at hp
    cases hp

/-- What has been settled is not open any more. -/
theorem isPending_eq_false (h : l.Later l') (hlt : p < l.promises.size) (hp : l.isPending p = false) :
    l'.isPending p = false := by
  refine Bool.eq_false_iff.2 fun hp' => ?_
  rw [h.isPending hlt hp'] at hp
  cases hp

theorem promise : l.Later l.promise.2 where
  size_le := by
    rw [size_promise]
    exact Nat.le_succ _
  outcome ho := by
    rw [outcome?_promise]
    exact ho
  hook hd := due_promise.2 hd

theorem settle (p : PromiseId) (s : Settled V) : l.Later (l.settle p s) where
  size_le := Nat.le_of_eq size_settle.symm
  outcome ho := outcome?_settle_of_some ho
  hook hd := due_settle.2 hd

theorem subscribe (p : PromiseId) (r : Reaction K) : l.Later (l.subscribe p r) where
  size_le := Nat.le_of_eq size_subscribe.symm
  outcome ho := by
    rw [outcome?_subscribe]
    exact ho
  hook {q k} hd := by
    by_cases hlt : p < l.promises.size
    · exact (due_subscribe hlt).2 (.inl hd)
    · have hn : l.promises[p]? = none := Array.getElem?_eq_none (Nat.not_lt.1 hlt)
      simpa [Loop.subscribe, hn] using hd

theorem unsubscribe [DecidableEq K] (p w : PromiseId) : l.Later (l.unsubscribe p (.signal w)) where
  size_le := Nat.le_of_eq size_unsubscribe.symm
  outcome ho := by
    rw [outcome?_unsubscribe]
    exact ho
  hook {q k} hd := by
    rcases hd with hd | hd
    · exact .inl (subscribed_unsubscribe.2 ⟨hd, fun hc => by cases hc.2⟩)
    · refine .inr ?_
      rw [agenda_unsubscribe]
      exact hd

theorem enqueueAll (es : List (Errand V K)) :
    l.Later { l with agenda := l.agenda ++ es } where
  size_le := Nat.le_refl _
  outcome ho := ho
  hook hd := hd.imp id fun hm => List.mem_append_left _ hm

theorem spawn (point : P) : l.Later (l.spawn point).2 where
  size_le := promise.size_le
  outcome ho := by
    rw [outcome?_spawn]
    exact ho
  hook hd := due_spawn.2 hd

theorem shield (p : PromiseId) : l.Later (l.shield p).2 := promise.trans (subscribe p _)

theorem waiter (p : PromiseId) : l.Later (l.waiter p).2 := promise.trans (subscribe p _)

theorem mark (t : PromiseId) : l.Later (l.mark t) := congr rfl rfl

theorem cancelMember (t : PromiseId) : l.Later (l.cancelMember t).2 := by
  unfold Loop.cancelMember
  split
  · exact refl l
  · split
    · split
      · exact settle ..
      · exact mark t
    · exact mark t

theorem cancelMembers : ∀ (ts : List PromiseId) {l : Loop V P K}, l.Later (l.cancelMembers ts).2
  | [], l => refl l
  | t :: ts, _ => (cancelMember t).trans (cancelMembers ts)

theorem cancelTask (t : PromiseId) : l.Later (l.cancelTask t) := by
  unfold Loop.cancelTask
  split
  · exact cancelMember t
  · split
    · exact cancelMember t
    · rename_i group _
      dsimp only
      split
      · exact (cancelMembers group.members).trans (congr rfl rfl)
      · exact (cancelMembers group.members).trans (mark t)

theorem tallyAll (g : PromiseId) : ∀ (ts : List PromiseId) {l : Loop V P K},
    l.Later (ts.foldl (fun l t => l.subscribe t (.tally g)) l)
  | [], l => refl l
  | t :: ts, _ => (subscribe t (.tally g)).trans (tallyAll g ts)

theorem group (members : List PromiseId) : l.Later (l.group members).2 := by
  have hg : l.Later { l.promise.2 with
      groups := l.promise.2.groups.put l.promises.size { members, left := members.length } } :=
    promise.trans (congr rfl rfl)
  exact hg.trans (tallyAll _ members)

theorem timer (seconds : Float) : l.Later (l.timer seconds).2 := promise.trans (congr rfl rfl)

theorem dropTimer (p : PromiseId) : l.Later (l.dropTimer p) := congr rfl rfl

theorem expireDue : l.Later l.expireDue := by
  unfold Loop.expireDue
  rw [List.partition_eq_filter_filter]
  exact (enqueueAll _).trans (congr rfl rfl)

/-- An errand that is not a hook leaves the agenda. -/
theorem pick {e : Errand V K} (hi : l.agenda[i]? = some e) (hk : ∀ k p, e ≠ .react (.hook k) p) :
    l.Later (l.pick i) where
  size_le := Nat.le_refl _
  outcome ho := ho
  hook hd := due_pick hi (hk _ _) hd

/-- The errand of a task leaves the agenda. -/
theorem wakes [Inhabited V] {task : Task P} {given : Except Fault V}
    (h : l.Wakes i t task given) : l.Later (l.pick i) := by
  obtain ⟨e, hi, hw⟩ := h.errand
  refine pick hi fun k p he => ?_
  subst he
  cases hw

theorem tally [Inhabited V] (g : PromiseId) : l.Later (Program.tally g l) := by
  unfold Program.tally
  split
  · exact refl l
  · split
    · exact after_congr (settle ..) rfl rfl
    · exact congr rfl rfl

theorem effect [Inhabited V] (e : Errand V K) : l.Later (Program.Errand.effect e l) := by
  unfold Program.Errand.effect
  split
  · split
    · exact settle ..
    · exact refl l
  · exact settle ..
  · exact tally _
  · exact settle ..
  · exact settle ..
  · exact refl l

theorem conclude (t : PromiseId) (turn : Turn P V) : l.Later (Program.conclude t turn l) := by
  unfold Program.conclude
  split
  · exact after_congr (subscribe ..) rfl rfl
  · exact after_congr (enqueueAll _) rfl rfl
  · exact after_congr (settle ..) rfl rfl

end Later

theorem size_conclude {turn : Turn P V} :
    (Program.conclude t turn l).promises.size = l.promises.size := by
  unfold Program.conclude
  split
  · exact size_subscribe
  · rfl
  · exact size_settle

theorem Gives.later [Inhabited V] {task : Task P} {given : Except Fault V}
    (h : l.Gives task given) (hl : l.Later l') : l'.Gives task given := by
  unfold Gives at h ⊢
  cases hr : task.restsOn with
  | none => simpa only [hr] using h
  | some p =>
    simp only [hr] at h ⊢
    obtain ⟨o, ho, hg⟩ := h
    exact ⟨o, hl.outcome ho, hg⟩

/-! ## Groups -/

theorem groups_conclude {turn : Turn P V} :
    (Program.conclude t turn l).groups = l.groups := by
  unfold Program.conclude
  split
  · exact groups_subscribe
  · rfl
  · exact groups_settle

/-- Where there are no groups, none come of an errand. -/
theorem groups_effect [Inhabited V] (h : ∀ g, l.groups.get? g = none) (e : Errand V K) :
    (Program.Errand.effect e l).groups = l.groups := by
  unfold Program.Errand.effect
  split
  · split
    · exact groups_settle
    · rfl
  · exact groups_settle
  · simp only [Program.tally, h]
  · exact groups_settle
  · exact groups_settle
  · rfl

/-- Where there are no groups, a cancellation is of one task. -/
theorem cancelTask_eq (h : ∀ g, l.groups.get? g = none) : l.cancelTask t = (l.cancelMember t).2 := by
  unfold cancelTask
  split
  · rfl
  · rw [h]

theorem groups_cancelMember : (l.cancelMember t).2.groups = l.groups := by
  unfold cancelMember
  split
  · rfl
  · split
    · split
      · exact groups_settle
      · rfl
    · rfl

/-! ## Where tasks rest -/

theorem groups_cancelMembers : ∀ (ts : List PromiseId) {l : Loop V P K},
    (l.cancelMembers ts).2.groups = l.groups
  | [], _ => rfl
  | _ :: ts, _ => (groups_cancelMembers ts).trans groups_cancelMember

/-- Where an unfinished task rests, and on which promise. -/
def place? (l : Loop V P K) (t : PromiseId) : Option (P × Option PromiseId) :=
  (l.tasks.get? t).map fun task => (task.point, task.restsOn)

theorem place?_of_get? {task : Task P} (h : l.tasks.get? t = some task) :
    l.place? t = some (task.point, task.restsOn) := by
  rw [place?, h]
  rfl

theorem place?_eq_some_iff {point : P} {on : Option PromiseId} :
    l.place? t = some (point, on) ↔
      ∃ task, l.tasks.get? t = some task ∧ task.point = point ∧ task.restsOn = on := by
  simp [place?, Option.map_eq_some_iff, Prod.ext_iff]

theorem place?_congr (h : l'.tasks = l.tasks) : l'.place? t = l.place? t := by
  rw [place?, h, place?]

theorem place?_mark : (l.mark q).place? t = l.place? t := by
  unfold place?
  rw [get?_tasks_mark, Option.map_map]
  refine congrFun (congrArg _ (funext fun task => ?_)) _
  dsimp only [Function.comp]
  split <;> rfl

theorem place?_cancelMember : (l.cancelMember q).2.place? t = l.place? t := by
  unfold cancelMember
  split
  · rfl
  · split
    · split
      · exact place?_congr tasks_settle
      · exact place?_mark
    · exact place?_mark

theorem place?_cancelMembers : ∀ (ts : List PromiseId) {l : Loop V P K},
    (l.cancelMembers ts).2.place? t = l.place? t
  | [], _ => rfl
  | _ :: ts, _ => (place?_cancelMembers ts).trans place?_cancelMember

/-- A cancellation from outside moves no task. -/
theorem place?_cancelTask : (l.cancelTask q).place? t = l.place? t := by
  unfold cancelTask
  split
  · exact place?_cancelMember
  · split
    · exact place?_cancelMember
    · rename_i group _
      dsimp only
      split
      · exact place?_cancelMembers group.members
      · exact place?_mark.trans (place?_cancelMembers group.members)

theorem place?_spawn {point : P} :
    (l.spawn point).2.place? t =
      if t = l.promises.size then some (point, none) else l.place? t := by
  unfold place?
  rw [get?_tasks_spawn]
  split <;> rfl

theorem place?_shield : (l.shield p).2.place? t = l.place? t := place?_congr tasks_subscribe

theorem tasks_tallyAll {g : PromiseId} : ∀ (ts : List PromiseId) {l : Loop V P K},
    (ts.foldl (fun l t => l.subscribe t (.tally g)) l).tasks = l.tasks
  | [], _ => rfl
  | _ :: ts, _ => (tasks_tallyAll ts).trans tasks_subscribe

theorem groups_tallyAll {g : PromiseId} : ∀ (ts : List PromiseId) {l : Loop V P K},
    (ts.foldl (fun l t => l.subscribe t (.tally g)) l).groups = l.groups
  | [], _ => rfl
  | _ :: ts, _ => (groups_tallyAll ts).trans groups_subscribe

theorem tasks_group {members : List PromiseId} : (l.group members).2.tasks = l.tasks :=
  tasks_tallyAll members

/-- What the end of a turn does to the places of tasks. -/
theorem place?_conclude {turn : Turn P V} :
    (Program.conclude q turn l).place? t =
      if t = q then
        match turn with
        | .rest on point => some (point, some on)
        | .giveWay point => some (point, none)
        | .finish _ => none
      else l.place? t := by
  unfold place? Program.conclude
  cases turn with
  | rest on point =>
    rw [tasks_subscribe, Keyed.get?_put]
    split <;> rfl
  | giveWay point =>
    simp only [enqueue, Keyed.get?_put]
    split <;> rfl
  | finish result =>
    rw [tasks_settle, Keyed.get?_erase]
    split <;> rfl

/-- An errand moves no task but the one that it wakes. -/
theorem tasks_effect [Inhabited V] (e : Errand V K) :
    (Program.Errand.effect e l).tasks = l.tasks := by
  unfold Program.Errand.effect
  split
  · split
    · exact tasks_settle
    · rfl
  · exact tasks_settle
  · unfold Program.tally
    split
    · rfl
    · split
      · exact tasks_settle
      · rfl
  · exact tasks_settle
  · exact tasks_settle
  · rfl

/-- The end of a turn moves no other task. -/
theorem get?_tasks_conclude {turn : Turn P V} (h : t ≠ q) :
    (Program.conclude q turn l).tasks.get? t = l.tasks.get? t := by
  unfold Program.conclude
  cases turn with
  | rest on point => rw [tasks_subscribe, Keyed.get?_put, if_neg h]
  | giveWay point => simp [enqueue, h]
  | finish result => rw [tasks_settle, Keyed.get?_erase, if_neg h]

theorem isPending_shield : (l.shield p).2.isPending q =
    (decide (q = l.promises.size) || l.isPending q) := by
  rw [shield, isPending_subscribe, isPending_promise]

theorem get?_tasks_rest {point : P} :
    (Program.conclude t (.rest p point : Turn P V) l).tasks.get? t =
      some { point, restsOn := some p } := by
  unfold Program.conclude
  rw [tasks_subscribe, Keyed.get?_put, if_pos rfl]

/-! ## How promises are settled -/

theorem isPending_rest {point : P} :
    (Program.conclude t (.rest p point : Turn P V) l).isPending q = l.isPending q := by
  unfold Program.conclude
  rw [isPending_subscribe]
  rfl

theorem outcome?_conclude {turn : Turn P V} (h : p ≠ q) :
    (Program.conclude q turn l).outcome? p = l.outcome? p := by
  unfold Program.conclude
  cases turn with
  | rest on point => exact outcome?_subscribe
  | giveWay point => rfl
  | finish result =>
    rw [outcome?_settle, if_neg fun hc => h hc.1]
    rfl

/-- A task that finishes settles its promise. -/
theorem outcome?_finish (h : l.isPending t = true) (result : Except Fault V) :
    (Program.conclude t (.finish result : Turn P V) l).outcome? t =
      some (Program.ended result) := by
  unfold Program.conclude
  rw [outcome?_settle, if_pos ⟨rfl, h⟩]

end SourceTrees.Loop
