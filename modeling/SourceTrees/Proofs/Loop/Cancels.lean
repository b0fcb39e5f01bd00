import SourceTrees.Proofs.Loop.Later

/-!
# What settles a promise

Most operations of the loop settle nothing.  A cancellation from outside settles only promises on which
the tasks that it is meant for rest, and marks only these tasks.

## Results

* `Loop.Still` — nothing is settled, and nothing more is delivered.
* `Loop.Struck` — promises are settled by cancellation only, as tasks of some kind are cancelled;
  `Loop.Struck.cancelTask` — what a cancellation from outside can do.
* `Loop.Members` — the groups are groups of tasks of some kind; `Loop.Intact` — a group that no
  cancellation has come to.
* `Loop.Yields`, `Loop.outcome?_effect` — what the other errands can settle.
-/

set_option autoImplicit false

namespace SourceTrees.Loop

variable {V P K : Type} {l l' l'' : Loop V P K} {p q t : PromiseId} {r : Reaction K} {i : Nat}
  {A B : PromiseId → Prop}

/-! ## Still loops -/

/-- Nothing is settled, and nothing more is delivered. -/
structure Still (l l' : Loop V P K) : Prop where
  outcome : ∀ p, l'.outcome? p = l.outcome? p
  delivered : ∀ {p o}, .deliver p o ∈ l'.agenda → .deliver p o ∈ l.agenda

theorem isPending_iff_outcome? :
    l.isPending p = true ↔ p < l.promises.size ∧ l.outcome? p = none := by
  constructor
  · exact fun h => ⟨isPending_lt h, outcome?_of_isPending h⟩
  · rintro ⟨hlt, hn⟩
    rcases isPending_or_settled hlt with h | ⟨o, ho⟩
    · exact h
    · rw [hn] at ho
      cases ho

namespace Still

theorem refl (l : Loop V P K) : l.Still l := ⟨fun _ => rfl, id⟩

theorem trans (h : l.Still l') (h' : l'.Still l'') : l.Still l'' :=
  ⟨fun p => (h'.outcome p).trans (h.outcome p), fun hm => h.delivered (h'.delivered hm)⟩

theorem congr (hp : l'.promises = l.promises) (ha : l'.agenda = l.agenda) : l.Still l' := by
  refine ⟨fun p => ?_, fun hm => ha ▸ hm⟩
  unfold outcome?
  rw [hp]

theorem promise : l.Still l.promise.2 := ⟨fun _ => outcome?_promise, id⟩

theorem subscribe (p : PromiseId) (r : Reaction K) : l.Still (l.subscribe p r) := by
  refine ⟨fun _ => outcome?_subscribe, fun hm => ?_⟩
  rcases mem_agenda_subscribe.1 hm with hm | ⟨he, _⟩
  · exact hm
  · cases he

theorem unsubscribe [DecidableEq K] (p : PromiseId) (r : Reaction K) :
    l.Still (l.unsubscribe p r) := by
  refine ⟨fun _ => outcome?_unsubscribe, fun hm => ?_⟩
  rwa [agenda_unsubscribe] at hm

theorem spawn (point : P) : l.Still (l.spawn point).2 := by
  refine ⟨fun _ => outcome?_spawn, fun hm => ?_⟩
  rcases mem_agenda_spawn.1 hm with hm | he
  · exact hm
  · cases he

theorem shield (p : PromiseId) : l.Still (l.shield p).2 := promise.trans (subscribe p _)

theorem waiter (p : PromiseId) : l.Still (l.waiter p).2 := promise.trans (subscribe p _)

theorem tallyAll (g : PromiseId) : ∀ (ts : List PromiseId) {l : Loop V P K},
    l.Still (ts.foldl (fun l t => l.subscribe t (.tally g)) l)
  | [], l => refl l
  | t :: ts, _ => (subscribe t (.tally g)).trans (tallyAll g ts)

theorem group (members : List PromiseId) : l.Still (l.group members).2 := by
  have hg : l.Still { l.promise.2 with
      groups := l.promise.2.groups.put l.promises.size { members, left := members.length } } :=
    promise.trans (congr rfl rfl)
  exact hg.trans (tallyAll _ members)

theorem timer (seconds : Float) : l.Still (l.timer seconds).2 := promise.trans (congr rfl rfl)

theorem dropTimer (p : PromiseId) : l.Still (l.dropTimer p) := congr rfl rfl

theorem expireDue : l.Still l.expireDue := by
  unfold Loop.expireDue
  rw [List.partition_eq_filter_filter]
  refine ⟨fun _ => rfl, fun hm => ?_⟩
  rcases List.mem_append.1 hm with hm | hm
  · exact hm
  · obtain ⟨x, _, he⟩ := List.mem_map.1 hm
    cases he

end Still

/-! ## Cancellations from outside -/

/-- Promises are settled by cancellation only, and only if tasks of the kind rest on them; other tasks
    are not marked. -/
structure Struck (A : PromiseId → Prop) (l l' : Loop V P K) : Prop where
  outcome : ∀ {p o}, l'.outcome? p = some o → l.outcome? p = some o ∨
    o = .cancelled ∧ ∃ t task, A t ∧ l.tasks.get? t = some task ∧ task.restsOn = some p
  task : ∀ {t task'}, l'.tasks.get? t = some task' → ∃ task, l.tasks.get? t = some task ∧
    task'.point = task.point ∧ task'.restsOn = task.restsOn ∧
    (task'.marked = true → task.marked = true ∨ A t)
  delivered : ∀ {p o}, .deliver p o ∈ l'.agenda → .deliver p o ∈ l.agenda

namespace Struck

theorem refl (l : Loop V P K) : l.Struck A l :=
  ⟨.inl, fun {_ task'} h => ⟨task', h, rfl, rfl, .inl⟩, id⟩

theorem trans (h : l.Struck A l') (h' : l'.Struck A l'') : l.Struck A l'' := by
  refine ⟨fun ho => ?_, fun hg => ?_, fun hm => h.delivered (h'.delivered hm)⟩
  · rcases h'.outcome ho with ho | ⟨rfl, t, task', ha, hg, hr⟩
    · exact h.outcome ho
    · obtain ⟨task, hg, _, hr', _⟩ := h.task hg
      exact .inr ⟨rfl, t, task, ha, hg, hr'.symm.trans hr⟩
  · obtain ⟨task', hg, hp', hr', hm'⟩ := h'.task hg
    obtain ⟨task, hg, hp, hr, hm⟩ := h.task hg
    exact ⟨task, hg, hp'.trans hp, hr'.trans hr, fun hk => (hm' hk).elim hm .inr⟩

theorem mark (ht : A t) : l.Struck A (l.mark t) := by
  refine ⟨.inl, fun {t' task'} hg => ?_, id⟩
  rw [get?_tasks_mark] at hg
  obtain ⟨task, hgt, rfl⟩ := Option.map_eq_some_iff.1 hg
  refine ⟨task, hgt, ?_⟩
  split
  · rename_i he
    exact ⟨rfl, rfl, fun _ => .inr (he ▸ ht)⟩
  · exact ⟨rfl, rfl, .inl⟩

theorem cancelMember (ht : A t) : l.Struck A (l.cancelMember t).2 := by
  unfold Loop.cancelMember
  cases hg : l.tasks.get? t with
  | none => exact refl l
  | some task =>
    cases hr : task.restsOn with
    | none => simpa only [hr] using mark ht
    | some p =>
      simp only [hr]
      split
      · refine ⟨fun {q o} ho => ?_, fun {t' task'} hg' => ?_, fun {q o} hm => ?_⟩
        · rw [outcome?_settle] at ho
          split at ho
          · rename_i hc
            cases ho
            exact .inr ⟨rfl, t, task, ht, hg, hc.1 ▸ hr⟩
          · exact .inl ho
        · rw [tasks_settle] at hg'
          exact ⟨task', hg', rfl, rfl, .inl⟩
        · rcases mem_agenda_settle.1 hm with hm | ⟨_, he, _⟩
          · exact hm
          · cases he
      · exact mark ht

theorem cancelMembers : ∀ (ts : List PromiseId) {l : Loop V P K}, (∀ t ∈ ts, A t) →
    l.Struck A (l.cancelMembers ts).2
  | [], l, _ => refl l
  | _ :: ts, _, h => (cancelMember (h _ List.mem_cons_self)).trans
      (cancelMembers ts fun t ht => h t (List.mem_cons_of_mem _ ht))

/-- A cancellation from outside is meant for a task, and for the members of the group on which the task
    may rest. -/
theorem cancelTask (ht : A t)
    (hm : ∀ {task g group}, l.tasks.get? t = some task → task.restsOn = some g →
      l.groups.get? g = some group → ∀ t' ∈ group.members, A t') :
    l.Struck A (l.cancelTask t) := by
  unfold Loop.cancelTask
  split
  · exact cancelMember ht
  · rename_i g hon
    split
    · exact cancelMember ht
    · rename_i group hg
      obtain ⟨task, hget, hon⟩ := Option.bind_eq_some_iff.1 hon
      have hs := cancelMembers (l := l) group.members (hm hget hon hg)
      dsimp only
      split
      · exact ⟨hs.outcome, hs.task, hs.delivered⟩
      · exact hs.trans (mark ht)

end Struck

/-! ## Groups -/

/-- The groups are groups of tasks of the kind. -/
def Members (A : PromiseId → Prop) (l : Loop V P K) : Prop :=
  ∀ g group, l.groups.get? g = some group → ∀ t ∈ group.members, A t

namespace Members

theorem init : ({} : Loop V P K).Members A := by
  intro g group hg
  cases hg

theorem mono (h : l.Members A) (hAB : ∀ t, A t → B t) : l.Members B :=
  fun g group hg t ht => hAB t (h g group hg t ht)

theorem congr (h : l.Members A) (hg : l'.groups = l.groups) : l'.Members A := by
  intro g group hgr
  exact h g group (hg ▸ hgr)

/-- A group is entered with members of the kind. -/
theorem put (h : l.Members A) {g : PromiseId} (group : Group) (hm : ∀ t ∈ group.members, A t)
    (hg : l'.groups = l.groups.put g group) : l'.Members A := by
  intro g' group' hg'
  rw [hg, Keyed.get?_put] at hg'
  split at hg'
  · cases hg'
    exact hm
  · exact h g' group' hg'

theorem cancelMembers : ∀ (ts : List PromiseId) {l : Loop V P K}, l.Members A →
    (l.cancelMembers ts).2.Members A
  | [], _, h => h
  | _ :: ts, _, h => cancelMembers ts (h.congr groups_cancelMember)

theorem cancelTask (h : l.Members A) (t : PromiseId) : (l.cancelTask t).Members A := by
  unfold Loop.cancelTask
  split
  · exact h.congr groups_cancelMember
  · split
    · exact h.congr groups_cancelMember
    · rename_i g _ _ group hg
      have hs := cancelMembers group.members h
      dsimp only
      split
      · exact hs.put { group with cancelled := true } (h g group hg) rfl
      · exact hs

theorem tally [Inhabited V] (h : l.Members A) (g : PromiseId) : (Program.tally g l).Members A := by
  unfold Program.tally
  cases hg : l.groups.get? g with
  | none => exact h
  | some group =>
    dsimp only
    split
    · intro g' group' hg'
      rw [groups_settle, Keyed.get?_erase] at hg'
      split at hg'
      · cases hg'
      · exact h g' group' hg'
    · exact h.put { group with left := group.left - 1 } (h g group hg) rfl

theorem effect [Inhabited V] (h : l.Members A) (e : Errand V K) :
    (Program.Errand.effect e l).Members A := by
  unfold Program.Errand.effect
  split
  · split
    · exact h.congr groups_settle
    · exact h
  · exact h.congr groups_settle
  · exact h.tally _
  · exact h.congr groups_settle
  · exact h.congr groups_settle
  · exact h

theorem tallyAll (g : PromiseId) : ∀ (ts : List PromiseId) {l : Loop V P K}, l.Members A →
    (ts.foldl (fun l t => l.subscribe t (.tally g)) l).Members A
  | [], _, h => h
  | _ :: ts, _, h => tallyAll g ts (h.congr groups_subscribe)

theorem group (h : l.Members A) {members : List PromiseId} (hm : ∀ t ∈ members, A t) :
    (l.group members).2.Members A :=
  tallyAll _ members (h.put _ hm rfl)

end Members

/-- No cancellation has come to the group. -/
def Intact (g : PromiseId) (l : Loop V P K) : Prop :=
  ∀ group, l.groups.get? g = some group → group.cancelled = false

namespace Intact

variable {g : PromiseId}

theorem congr (h : l.Intact g) (hg : l'.groups = l.groups) : l'.Intact g := by
  intro group hgr
  exact h group (hg ▸ hgr)

/-- Another group is entered, or the group with no cancellation. -/
theorem put (h : l.Intact g) {q : PromiseId} (group : Group) (hc : q = g → group.cancelled = false)
    (hg : l'.groups = l.groups.put q group) : l'.Intact g := by
  intro group' hgr
  rw [hg, Keyed.get?_put] at hgr
  split at hgr
  · rename_i he
    cases hgr
    exact hc he.symm
  · exact h group' hgr

theorem group (h : l.Intact g) (members : List PromiseId) : (l.group members).2.Intact g :=
  (h.put { members, left := members.length } (fun _ => rfl) rfl).congr (groups_tallyAll members)

theorem tally [Inhabited V] (h : l.Intact g) (q : PromiseId) : (Program.tally q l).Intact g := by
  unfold Program.tally
  cases hq : l.groups.get? q with
  | none => exact h
  | some group =>
    dsimp only
    split
    · intro group' hgr
      rw [groups_settle, Keyed.get?_erase] at hgr
      split at hgr
      · cases hgr
      · exact h group' hgr
    · exact h.put { group with left := group.left - 1 } (fun he => h group (he ▸ hq)) rfl

theorem effect [Inhabited V] (h : l.Intact g) (e : Errand V K) :
    (Program.Errand.effect e l).Intact g := by
  unfold Program.Errand.effect
  split
  · split
    · exact h.congr groups_settle
    · exact h
  · exact h.congr groups_settle
  · exact h.tally _
  · exact h.congr groups_settle
  · exact h.congr groups_settle
  · exact h

/-- A cancellation comes to the group only through a task that rests on it. -/
theorem cancelTask (h : l.Intact g)
    (hn : ∀ task, l.tasks.get? t = some task → task.restsOn ≠ some g) : (l.cancelTask t).Intact g := by
  unfold Loop.cancelTask
  split
  · exact h.congr groups_cancelMember
  · rename_i q hon
    split
    · exact h.congr groups_cancelMember
    · rename_i group hg
      have hs : (l.cancelMembers group.members).2.Intact g := h.congr (groups_cancelMembers _)
      obtain ⟨task, hget, hon⟩ := Option.bind_eq_some_iff.1 hon
      dsimp only
      split
      · exact hs.put { group with cancelled := true }
          (fun he => absurd (he ▸ hon) (hn task hget)) rfl
      · exact hs

end Intact

/-! ## Errands -/

variable {J : Type} {roles : Roles K J} {busy : Option PromiseId} {base : Nat} {e : Errand V K}

/-- What an errand can settle the promise with, by the role of the promise. -/
inductive Yields [Inhabited V] (l : Loop V P K) (roles : Roles K J) (p : PromiseId) (o : Settled V) :
    Prop
  | relayed {q : PromiseId} (hp : roles p = .shield q) (ho : l.outcome? q = some o)
  | signalled {q : PromiseId} (hp : roles p = .waiter q) (ho : o = .value default)
  | tallied {group : Group} (hp : roles p = .group) (hg : l.groups.get? p = some group)
      (ho : o = if group.cancelled then .failed .cancellation else .value default)
  | expired (hp : roles p = .timer) (ho : o = .value default)
  | delivered {x : Except Fault V} (hm : .deliver p x ∈ l.agenda) (ho : o = .ofResult x)

/-- What an errand settles, it settles as the role of the promise says. -/
theorem outcome?_effect [Inhabited V] {o : Settled V} (h : l.Sound roles busy base)
    (hi : l.agenda[i]? = some e)
    (ho : (Program.Errand.effect e (l.pick i)).outcome? q = some o) :
    l.outcome? q = some o ∨ l.Yields roles q o := by
  have hm := List.mem_of_getElem? hi
  have hsettle : ∀ {p s}, ((l.pick i).settle p s).outcome? q = some o →
      q = p ∧ o = s ∨ l.outcome? q = some o := by
    intro p s ho
    rw [outcome?_settle] at ho
    split at ho
    · rename_i hc
      cases ho
      exact .inl ⟨hc.1, rfl⟩
    · exact .inr ho
  unfold Program.Errand.effect at ho
  split at ho
  · rename_i q' p
    split at ho
    · rename_i o' ho'
      rcases hsettle ho with ⟨rfl, rfl⟩ | ho
      · exact .inr (.relayed (h.assigned.fits (.inr hm)) ho')
      · exact .inl ho
    · exact .inl ho
  · rename_i w p
    rcases hsettle ho with ⟨rfl, rfl⟩ | ho
    · exact .inr (.signalled (h.assigned.fits (.inr hm)) rfl)
    · exact .inl ho
  · rename_i g p
    unfold Program.tally at ho
    split at ho
    · exact .inl ho
    · rename_i group hg
      split at ho
      · rw [outcome?_settle] at ho
        split at ho
        · rename_i hc
          cases ho
          rw [hc.1]
          exact .inr (.tallied (h.assigned.fits (.inr hm)) hg rfl)
        · exact .inl ho
      · exact .inl ho
  · rename_i p x
    rcases hsettle ho with ⟨rfl, rfl⟩ | ho
    · exact .inr (.delivered hm rfl)
    · exact .inl ho
  · rename_i p
    rcases hsettle ho with ⟨rfl, rfl⟩ | ho
    · exact .inr (.expired (h.assigned.expired hm) rfl)
    · exact .inl ho
  · exact .inl ho

/-- An errand settles a shield only with the outcome of what it shields. -/
theorem outcome?_effect_shield [Inhabited V] {o : Settled V} (h : l.Sound roles busy base)
    (hi : l.agenda[i]? = some e) (hq : roles q = .shield p)
    (ho : (Program.Errand.effect e (l.pick i)).outcome? q = some o) :
    l.outcome? q = some o ∨ l.outcome? p = some o := by
  rcases outcome?_effect h hi ho with ho | ⟨hp', ho⟩ | ⟨hp', _⟩ | ⟨hg, _, _⟩ | ⟨ht, _⟩ | ⟨hm, _⟩
  · exact .inl ho
  · rw [hq] at hp'
    cases hp'
    exact .inr ho
  · simp [hq] at hp'
  · simp [hq] at hg
  · simp [hq] at ht
  · obtain ⟨j, hj⟩ := h.assigned.delivered hm
    simp [hq] at hj

theorem delivered_effect [Inhabited V] {x : Except Fault V}
    (hm : .deliver q x ∈ (Program.Errand.effect e l).agenda) : .deliver q x ∈ l.agenda := by
  have hsettle : ∀ {l : Loop V P K} {p s}, .deliver q x ∈ (l.settle p s).agenda →
      .deliver q x ∈ l.agenda := by
    intro l p s hm
    rcases mem_agenda_settle.1 hm with hm | ⟨_, he, _⟩
    · exact hm
    · cases he
  unfold Program.Errand.effect at hm
  split at hm
  · split at hm
    · exact hsettle hm
    · exact hm
  · exact hsettle hm
  · unfold Program.tally at hm
    split at hm
    · exact hm
    · split at hm
      · exact hsettle (l := { l with groups := l.groups.erase _ }) hm
      · exact hm
  · exact hsettle hm
  · exact hsettle hm
  · exact hm

/-- The end of a turn delivers nothing. -/
theorem delivered_conclude {turn : Turn P V} {x : Except Fault V}
    (hm : .deliver q x ∈ (Program.conclude t turn l).agenda) : .deliver q x ∈ l.agenda := by
  unfold Program.conclude at hm
  split at hm
  · rcases mem_agenda_subscribe.1 hm with hm | ⟨he, _⟩
    · exact hm
    · cases he
  · rcases List.mem_append.1 hm with hm | hm
    · exact hm
    · cases List.mem_singleton.1 hm
  · rcases mem_agenda_settle.1 hm with hm | ⟨_, he, _⟩
    · exact hm
    · cases he

end SourceTrees.Loop
