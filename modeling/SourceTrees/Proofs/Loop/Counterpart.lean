import SourceTrees.Proofs.Loop.Later
import SourceTrees.Proofs.Loop.Matches

/-!
# A loop and what is left of it

What happens to linked promises and tasks happens in both loops; what happens to strays, in the full one only.
Either way what is left of the loop goes on to correspond to it.

## Protocol

* An operation on linked promises is carried out in both loops; a promise that it makes is linked.
* An operation on strays is carried out in the full loop, and the promises that it makes are unnamed.
* Whoever is cancelled in the full loop is cancelled by name in the other; if a group is, its members are.

## Results

* `Loop.Counterpart` — the relation between the loops.
* `Loop.Counterpart.settle`, `Loop.Counterpart.subscribe`, … and `Loop.Counterpart.settleStray`, … — the
  operations.
* **`Loop.Counterpart.cancelTask`** — cancelling a task, whatever it rests on.
* `Loop.Counterpart.conclude`, `Loop.Counterpart.concludeStray`, `Loop.Counterpart.depart` — how turns end.
-/

set_option autoImplicit false

namespace SourceTrees

variable {V P K : Type}

/-- Turns that end alike. -/
inductive Turn.Match {P Q α β : Type} (L : PromiseId → PromiseId → Prop) (R : P → Q → Prop)
    (S : α → β → Prop) : Turn P α → Turn Q β → Prop
  | rest {p p' : PromiseId} {a : P} {a' : Q} (hp : L p p') (ha : R a a') : Match L R S (.rest p a) (.rest p' a')
  | finish {x : Except Fault α} {x' : Except Fault β} (hx : ResultsMatch S x x') :
      Match L R S (.finish x) (.finish x')

/-- The turn ends on an unnamed promise at a point for strays, or the task is finished. -/
inductive Turn.Away (N : Names) (C : Kinds V P K) : Turn P V → Prop
  | rest {p : PromiseId} {a : P} (hp : N.Unnamed p) (ha : C.away a) : Away N C (.rest p a)
  | finish (x : Except Fault V) : Away N C (.finish x)

namespace Loop

variable {N N₁ : Names} {C C₁ : Kinds V P K} {l l' : Loop V P K} {p p' t t' w w' g : PromiseId}
  {r r' : Reaction K} {o o' : Settled V} {e e' : Errand V K} {point point' : P}

/-- The second loop is what is left of the first. -/
structure Counterpart (N : Names) (C : Kinds V P K) (l l' : Loop V P K) : Prop where
  promises : PromisesMatch N C l.promises l'.promises
  tasks : TasksMatch N C l.tasks l'.tasks
  agenda : Sifted (Errand.Match N C) (Errand.Stray N) l.agenda l'.agenda
  groups : ∀ {g group}, l.groups.get? g = some group → N.Unnamed g
  groups' : ∀ g, l'.groups.get? g = none
  timers : l.timers = []
  timers' : l'.timers = []
  now : l'.now = l.now

namespace Counterpart

theorem mono (h : Counterpart N C l l') (hC : C.Le C₁) : Counterpart N C₁ l l' where
  promises := h.promises.mono hC
  tasks := h.tasks.mono hC
  agenda := h.agenda.mono (·.mono (.refl N) hC) id
  groups := h.groups
  groups' := h.groups'
  timers := h.timers
  timers' := h.timers'
  now := h.now

theorem size (h : Counterpart N C l l') : l.promises.size = N.size := h.promises.size.symm

theorem size' (h : Counterpart N C l l') : l'.promises.size = N.size' := h.promises.size'.symm

/-- Linked promises are both open or both settled. -/
theorem linked (h : Counterpart N C l l') (hp : N.Links p p') :
    (∃ rs rs', l.promises[p]? = some (.pending rs) ∧ l'.promises[p']? = some (.pending rs') ∧
        Sifted (Reaction.Match N.Links C.hook) (Reaction.IsTally N) rs rs') ∨
      ∃ o o', l.promises[p]? = some (.settled o) ∧ l'.promises[p']? = some (.settled o') ∧
        o.Match C.value o' := by
  have hx := h.promises.linked hp
  cases ha : l.promises[p]? with
  | none => exact absurd (h.promises.size ▸ (N.known hp.1).1) (Nat.not_lt.2 (Array.getElem?_eq_none_iff.1 ha))
  | some x =>
    cases ha' : l'.promises[p']? <;> rw [ha, ha'] at hx <;> cases hx
    rename_i hx
    cases hx with
    | pending hrs => exact .inl ⟨_, _, rfl, rfl, hrs⟩
    | settled ho => exact .inr ⟨_, _, rfl, rfl, ho⟩

theorem isPending (h : Counterpart N C l l') (hp : N.Links p p') : l'.isPending p' = l.isPending p := by
  unfold Loop.isPending
  rcases h.linked hp with ⟨rs, rs', ha, ha', -⟩ | ⟨o, o', ha, ha', -⟩ <;> rw [ha, ha']

theorem outcome? (h : Counterpart N C l l') (hp : N.Links p p') :
    Option.Rel (Settled.Match C.value) (l.outcome? p) (l'.outcome? p') := by
  unfold Loop.outcome?
  rcases h.linked hp with ⟨rs, rs', ha, ha', -⟩ | ⟨o, o', ha, ha', ho⟩ <;> rw [ha, ha']
  · exact .none
  · exact .some ho

theorem isCancelled (h : Counterpart N C l l') (hp : N.Links p p') :
    l'.isCancelled p' = l.isCancelled p := by
  have ho := h.outcome? hp
  unfold Loop.isCancelled
  generalize l.outcome? p = x at ho ⊢
  generalize l'.outcome? p' = x' at ho ⊢
  cases ho with
  | none => rfl
  | some ho => cases ho <;> rfl

/-! ## The agenda -/

theorem enqueue (h : Counterpart N C l l') (he : e.Match N C e') :
    Counterpart N C (l.enqueue e) (l'.enqueue e') where
  promises := h.promises
  tasks := h.tasks
  agenda := h.agenda.append (.one he)
  groups := h.groups
  groups' := h.groups'
  timers := h.timers
  timers' := h.timers'
  now := h.now

theorem enqueueStray (h : Counterpart N C l l') (he : e.Stray N) : Counterpart N C (l.enqueue e) l' where
  promises := h.promises
  tasks := h.tasks
  agenda := by
    have ha := h.agenda.append (.drop he .nil)
    rwa [List.append_nil] at ha
  groups := h.groups
  groups' := h.groups'
  timers := h.timers
  timers' := h.timers'
  now := h.now

/-- An errand is taken up: in both loops, or in the full one only. -/
theorem pick (h : Counterpart N C l l') {i : Nat} (hi : l.agenda[i]? = some e) :
    (e.isLeft N.name = true ∧ ∃ e', l'.agenda[(l.agenda.take i).countP (·.isLeft N.name)]? = some e' ∧
        e.Match N C e' ∧
        Counterpart N C (l.pick i) (l'.pick ((l.agenda.take i).countP (·.isLeft N.name)))) ∨
      e.isLeft N.name = false ∧ e.Stray N ∧ Counterpart N C (l.pick i) l' := by
  rcases h.agenda.pick (·.isLeft N.name) (·.isLeft) (·.isLeft) hi with
    ⟨hk, e', hi', he, hrest⟩ | ⟨hk, he, hrest⟩
  · exact .inl ⟨hk, e', hi', he, { h with agenda := hrest }⟩
  · exact .inr ⟨hk, he, { h with agenda := hrest }⟩

/-! ## Promises -/

theorem promise (h : Counterpart N C l l') : Counterpart N.push C l.promise.2 l'.promise.2 where
  promises := h.promises.push
  tasks := h.tasks.push
  agenda := h.agenda.mono (·.mono N.le_push ⟨id, id, id, id, id⟩) (·.mono N.le_push)
  groups hg := N.le_push.unnamed (h.groups hg)
  groups' := h.groups'
  timers := h.timers
  timers' := h.timers'
  now := h.now

theorem promise_links (h : Counterpart N C l l') : N.push.Links l.promise.1 l'.promise.1 := by
  rw [promise_fst, promise_fst, h.size, h.size']
  exact N.push_links

/-- A promise of which nothing is left. -/
theorem promiseStray (h : Counterpart N C l l') : Counterpart N.grow C l.promise.2 l' where
  promises := h.promises.grow
  tasks := h.tasks.grow
  agenda := h.agenda.mono (·.mono N.le_grow ⟨id, id, id, id, id⟩) (·.mono N.le_grow)
  groups hg := N.le_grow.unnamed (h.groups hg)
  groups' := h.groups'
  timers := h.timers
  timers' := h.timers'
  now := h.now

theorem promise_unnamed (h : Counterpart N C l l') : N.grow.Unnamed l.promise.1 := by
  rw [promise_fst, h.size]
  exact N.grow_unnamed

theorem settle (h : Counterpart N C l l') (hp : N.Links p p') (ho : o.Match C.value o') :
    Counterpart N C (l.settle p o) (l'.settle p' o') := by
  unfold Loop.settle
  rcases h.linked hp with ⟨rs, rs', ha, ha', hrs⟩ | ⟨_, _, ha, ha', -⟩ <;> rw [ha, ha']
  · refine { h with promises := h.promises.set hp (.settled ho), agenda := h.agenda.append (hrs.map ?_ ?_) }
    · exact fun hr => .react hr hp
    · rintro r ⟨g, rfl, hg⟩
      exact .tally hg
  · exact h

theorem settleStray (h : Counterpart N C l l') (hp : N.Strays p) (o : Settled V) :
    Counterpart N C (l.settle p o) l' := by
  unfold Loop.settle
  split
  · rename_i rs ha
    have hreacts : ∀ e ∈ rs.map (Errand.react (V := V) · p), e.Stray N := by
      intro e he
      obtain ⟨r, hr, rfl⟩ := List.mem_map.1 he
      cases hn : N.name p with
      | none => exact .react ⟨hp.1, hn⟩ (h.promises.stray hn ha r hr)
      | some p' =>
        -- Nobody waits for the end of a free task.
        have hf := N.gone_free (hp.2.resolve_left (by simp [hn]))
        rw [h.promises.free hn hf (.inl ha)] at hr
        cases hr
    have hagenda := h.agenda.append (.none_left hreacts)
    rw [List.append_nil] at hagenda
    exact { h with promises := h.promises.setStray hp nofun, agenda := hagenda }
  · exact h

theorem subscribe (h : Counterpart N C l l') (hp : N.Links p p') (hr : r.Match N.Links C.hook r') :
    Counterpart N C (l.subscribe p r) (l'.subscribe p' r') := by
  unfold Loop.subscribe
  rcases h.linked hp with ⟨rs, rs', ha, ha', hrs⟩ | ⟨_, _, ha, ha', -⟩ <;> rw [ha, ha']
  · exact { h with promises := h.promises.set hp (.pending (hrs.append (.one hr))) }
  · exact h.enqueue (.react hr hp)

theorem subscribeStray (h : Counterpart N C l l') (hp : N.Unnamed p) (hr : r.Stray N) :
    Counterpart N C (l.subscribe p r) l' := by
  unfold Loop.subscribe
  split
  · rename_i rs ha
    refine { h with promises := h.promises.setStray hp.strays fun rs' he => ⟨hp.2, fun r' hr' => ?_⟩ }
    cases he
    rcases List.mem_append.1 hr' with hr' | hr'
    · exact h.promises.stray hp.2 ha r' hr'
    · exact List.mem_singleton.1 hr' ▸ hr
  · exact h.enqueueStray (.react hp hr)
  · exact h

/-- A group is told of the end of a linked task, or of an unnamed one. -/
theorem subscribeTally (h : Counterpart N C l l') (hp : (∃ p', N.Links p p') ∨ N.Unnamed p)
    (hg : N.Unnamed g) : Counterpart N C (l.subscribe p (.tally g)) l' := by
  rcases hp with ⟨p', hp⟩ | hp
  · unfold Loop.subscribe
    rcases h.linked hp with ⟨rs, rs', ha, -, -⟩ | ⟨_, _, ha, -, -⟩ <;> rw [ha]
    · exact { h with promises := h.promises.setTally hp ha ⟨g, rfl, hg⟩ }
    · exact h.enqueueStray (.tally hg)
  · refine h.subscribeStray hp fun q hq => ?_
    cases hq
    exact hg.strays

section

variable [DecidableEq K]

theorem unsubscribe (h : Counterpart N C l l') (hp : N.Links p p') (hw : N.Links w w') :
    Counterpart N C (l.unsubscribe p (.signal w)) (l'.unsubscribe p' (.signal w')) := by
  unfold Loop.unsubscribe
  rcases h.linked hp with ⟨rs, rs', ha, ha', hrs⟩ | ⟨_, _, ha, ha', -⟩ <;> rw [ha, ha']
  · refine { h with promises := h.promises.set hp (.pending (hrs.filter fun hr => ?_)) }
    cases hr with
    | signal hv => simp [hv.eq_iff hw]
    | _ => simp
  · exact h

theorem unsubscribeStray (h : Counterpart N C l l') (hp : N.Unnamed p) (r : Reaction K) :
    Counterpart N C (l.unsubscribe p r) l' := by
  unfold Loop.unsubscribe
  split
  · rename_i rs ha
    refine { h with promises := h.promises.setStray hp.strays fun rs' he => ⟨hp.2, fun r' hr' => ?_⟩ }
    cases he
    exact h.promises.stray hp.2 ha r' (List.mem_of_mem_filter hr')
  · exact h

end

/-- A promise that follows a linked one is linked. -/
theorem shield (h : Counterpart N C l l') (hp : N.Links p p') :
    N.push.Links (l.shield p).1 (l'.shield p').1 ∧ Counterpart N.push C (l.shield p).2 (l'.shield p').2 :=
  ⟨h.promise_links, h.promise.subscribe (N.le_push.links hp) (.relay h.promise_links)⟩

theorem waiter (h : Counterpart N C l l') (hp : N.Links p p') :
    N.push.Links (l.waiter p).1 (l'.waiter p').1 ∧ Counterpart N.push C (l.waiter p).2 (l'.waiter p').2 :=
  ⟨h.promise_links, h.promise.subscribe (N.le_push.links hp) (.signal h.promise_links)⟩

/-- A promise that follows an unnamed one has no name. -/
theorem shieldStray (h : Counterpart N C l l') (hp : N.Unnamed p) :
    N.grow.Unnamed (l.shield p).1 ∧ Counterpart N.grow C (l.shield p).2 l' := by
  refine ⟨h.promise_unnamed, h.promiseStray.subscribeStray (N.le_grow.unnamed hp) fun q hq => ?_⟩
  cases hq
  exact h.promise_unnamed.strays

theorem waiterStray (h : Counterpart N C l l') (hp : N.Unnamed p) :
    N.grow.Unnamed (l.waiter p).1 ∧ Counterpart N.grow C (l.waiter p).2 l' := by
  refine ⟨h.promise_unnamed, h.promiseStray.subscribeStray (N.le_grow.unnamed hp) fun q hq => ?_⟩
  cases hq
  exact h.promise_unnamed.strays

theorem putGroup (h : Counterpart N C l l') (hg : N.Unnamed g) (grp : Group) :
    Counterpart N C { l with groups := l.groups.put g grp } l' := by
  refine { h with groups := fun {q grp'} hq => ?_ }
  rw [Keyed.get?_put] at hq
  split at hq
  · rename_i he
    exact he ▸ hg
  · exact h.groups hq

/-! ## Starting tasks -/

theorem spawn (h : Counterpart N C l l') (hpoint : C.point point point') :
    Counterpart N.push C (l.spawn point).2 (l'.spawn point').2 := by
  unfold Loop.spawn
  refine Counterpart.enqueue { h.promise with tasks := h.promise.tasks.set h.promise_links ?_ ?_ ?_ } ?_
  · exact fun hne => (Keyed.get?_put ..).trans (if_neg hne)
  · exact fun hne => (Keyed.get?_put ..).trans (if_neg hne)
  · rw [Keyed.get?_put, Keyed.get?_put, if_pos rfl, if_pos rfl]
    exact .some ⟨hpoint, .none, rfl⟩
  · exact .step h.promise_links.1

theorem spawnStray (h : Counterpart N C l l') (hpoint : C.away point) :
    Counterpart N.grow C (l.spawn point).2 l' := by
  have hp := h.promise_unnamed
  unfold Loop.spawn
  refine enqueueStray { h.promiseStray with tasks := h.promiseStray.tasks.setStray hp.strays ?_ ?_ } ?_
  · exact fun hne => (Keyed.get?_put ..).trans (if_neg hne)
  · intro task ht
    rw [Keyed.get?_put, if_pos rfl] at ht
    cases ht
    refine ⟨⟨hpoint, nofun⟩, fun hg => ?_⟩
    rw [promise_fst, h.size] at hg
    exact absurd (N.free_lt (N.gone_free hg)) (Nat.lt_irrefl _)
  · exact .step hp

/-- A task is started that is free. -/
theorem spawnFree (h : Counterpart N C l l') (hpoint : C.idle point point') :
    Counterpart N.pushFree C (l.spawn point).2 (l'.spawn point').2 := by
  have hsize : l.promises.size = N.size := h.size
  have hsize' : l'.promises.size = N.size' := h.size'
  unfold Loop.spawn
  refine Counterpart.enqueue ?_ (.step (by rw [promise_fst, promise_fst, hsize, hsize']; exact N.push_name))
  refine {
    promises := h.promises.pushFree
    tasks := ?_
    agenda := h.agenda.mono (·.mono N.le_pushFree ⟨id, id, id, id, id⟩) (·.mono N.le_pushFree)
    groups := fun hg => N.le_pushFree.unnamed (h.groups hg)
    groups' := h.groups'
    timers := h.timers
    timers' := h.timers'
    now := h.now }
  have htasks := h.tasks.pushFree hpoint
  rw [← hsize, ← hsize'] at htasks
  exact htasks

/-! ## How turns end -/

/-- The turn of a linked task. -/
theorem conclude (h : Counterpart N C l l') (ht : N.Links t t') {turn turn' : Turn P V}
    (hturn : turn.Match N.Links C.point C.value turn') :
    Counterpart N C (Program.conclude t turn l) (Program.conclude t' turn' l') := by
  cases hturn with
  | rest hp ha =>
    refine Counterpart.subscribe { h with tasks := h.tasks.set ht ?_ ?_ ?_ } hp (.wake ht)
    · exact fun hne => (Keyed.get?_put ..).trans (if_neg hne)
    · exact fun hne => (Keyed.get?_put ..).trans (if_neg hne)
    · rw [Keyed.get?_put, Keyed.get?_put, if_pos rfl, if_pos rfl]
      exact .some ⟨ha, .some hp, rfl⟩
  | finish hx =>
    refine Counterpart.settle { h with tasks := h.tasks.set ht ?_ ?_ ?_ } ht ?_
    · exact fun hne => (Keyed.get?_erase ..).trans (if_neg hne)
    · exact fun hne => (Keyed.get?_erase ..).trans (if_neg hne)
    · rw [Keyed.get?_erase, Keyed.get?_erase, if_pos rfl, if_pos rfl]
      exact .none
    · cases hx with
      | ok hv => exact .value hv
      | error f =>
        by_cases hf : f.kind = .cancelled <;> simp only [Program.ended, hf, if_true, if_false]
        · exact .cancelled
        · exact .failed f

/-- The turn of a stray. -/
theorem concludeStray (h : Counterpart N C l l') (ht : N.Strays t) {turn : Turn P V} (hturn : turn.Away N C) :
    Counterpart N C (Program.conclude t turn l) l' := by
  cases hturn with
  | rest hp ha =>
    refine Counterpart.subscribeStray { h with tasks := h.tasks.setStray ht ?_ ?_ } hp ?_
    · exact fun hne => (Keyed.get?_put ..).trans (if_neg hne)
    · intro task hg
      rw [Keyed.get?_put, if_pos rfl] at hg
      cases hg
      exact ⟨⟨ha, fun q hq => Option.some.inj hq ▸ hp.strays⟩, nofun⟩
    · intro q hq
      cases hq
      exact ht
  | finish x =>
    refine settleStray (l := { l with tasks := l.tasks.erase t })
      { h with tasks := h.tasks.setStray ht ?_ ?_ } ht _
    · exact fun hne => (Keyed.get?_erase ..).trans (if_neg hne)
    · intro task hg
      rw [Keyed.get?_erase, if_pos rfl] at hg
      cases hg

/-- Nobody waits for what is left of a free task. -/
theorem settleLeft (h : Counterpart N C l l') (hn : N.name p = some p') (hf : N.free p) (o : Settled V) :
    Counterpart N C l (l'.settle p' o) := by
  unfold Loop.settle
  split
  · rename_i rs ha
    have hagenda : l'.agenda ++ rs.map (.react · p') = l'.agenda := by
      rw [h.promises.free hn hf (.inr ha)]
      exact List.append_nil _
    rw [hagenda]
    exact { h with promises := h.promises.setFree hn hf o }
  · exact h

/-- **The one turn that a free task has in both loops**: with it, what is left of the task comes to its end. -/
theorem depart (h : Counterpart N C l l') (hn : N.name t = some t') (hf : N.free t) {turn : Turn P V}
    (hturn : turn.Away N C) (x' : Except Fault V) :
    Counterpart (N.depart t hf) C (Program.conclude t turn l) (Program.conclude t' (.finish x') l') := by
  have hle := Names.le_depart hf
  have hgone : (N.depart t hf).Strays t := ⟨(N.known hn).1, .inr (.inl rfl)⟩
  -- Whatever becomes of the task in the full loop, it is a stray from here on.
  have hleft : ∀ us : Keyed PromiseId (Task P), (∀ {q}, q ≠ t → us.get? q = l.tasks.get? q) →
      (∀ task, us.get? t = some task → task.Away (N.depart t hf) C ∧ task.restsOn ≠ none) →
      Counterpart (N.depart t hf) C { l with tasks := us } (Program.conclude t' (.finish x') l') := by
    intro us hus ht
    have hname : (N.depart t hf).name t = some t' := hn
    show Counterpart _ C _ (Loop.settle { l' with tasks := l'.tasks.erase t' } t' _)
    refine settleLeft ?_ hname hf _
    exact {
      promises := h.promises.depart hf
      tasks := h.tasks.depart hn hf hus ht
      agenda := h.agenda.mono (·.mono hle ⟨id, id, id, id, id⟩) (·.mono hle)
      groups := fun hg => hle.unnamed (h.groups hg)
      groups' := h.groups'
      timers := h.timers
      timers' := h.timers'
      now := h.now }
  cases hturn with
  | rest hp ha =>
    refine subscribeStray (hleft _ ?_ ?_) (hle.unnamed hp) ?_
    · exact fun hne => (Keyed.get?_put ..).trans (if_neg hne)
    · intro task hg
      rw [Keyed.get?_put, if_pos rfl] at hg
      cases hg
      exact ⟨⟨ha, fun q hq => Option.some.inj hq ▸ (hle.unnamed hp).strays⟩, nofun⟩
    · intro q hq
      cases hq
      exact hgone
  | finish x =>
    refine settleStray (l := { l with tasks := l.tasks.erase t }) (hleft _ ?_ ?_) hgone _
    · exact fun hne => (Keyed.get?_erase ..).trans (if_neg hne)
    · intro task hg
      rw [Keyed.get?_erase, if_pos rfl] at hg
      cases hg

/-! ## Cancelling -/

theorem mark (h : Counterpart N C l l') (ht : N.Links t t') : Counterpart N C (l.mark t) (l'.mark t') := by
  refine { h with tasks := h.tasks.set ht ?_ ?_ ?_ }
  · exact fun hne => by simp [get?_tasks_mark, hne]
  · exact fun hne => by simp [get?_tasks_mark, hne]
  · have htask := h.tasks.linked ht
    rw [get?_tasks_mark, get?_tasks_mark]
    cases hg : l.tasks.get? t <;> cases hg' : l'.tasks.get? t' <;> rw [hg, hg'] at htask <;> cases htask
    · exact .none
    · rename_i htask
      rw [Option.map_some, Option.map_some, if_pos rfl, if_pos rfl]
      exact .some ⟨htask.point, htask.restsOn, rfl⟩

theorem markWaiting (h : Counterpart N C l l') (hn : N.name t = some t') (hf : N.free t) (hg : ¬ N.gone t) :
    Counterpart N C (l.mark t) (l'.mark t') := by
  refine { h with tasks := h.tasks.setWaiting hn hf hg ?_ ?_ ?_ }
  · exact fun hne => by simp [get?_tasks_mark, hne]
  · exact fun hne => by simp [get?_tasks_mark, hne]
  · obtain ⟨point, point', marked, ht, ht', hi⟩ := h.tasks.waiting hn hf hg
    rw [get?_tasks_mark, get?_tasks_mark, ht, ht', Option.map_some, Option.map_some, if_pos rfl, if_pos rfl]
    exact ⟨point, point', true, rfl, rfl, hi⟩

theorem markStray (h : Counterpart N C l l') (ht : N.Strays t) : Counterpart N C (l.mark t) l' := by
  refine { h with tasks := h.tasks.setStray ht ?_ ?_ }
  · exact fun hne => by simp [get?_tasks_mark, hne]
  · intro task hg
    rw [get?_tasks_mark] at hg
    obtain ⟨task, htask, rfl⟩ := Option.map_eq_some_iff.1 hg
    rw [if_pos rfl]
    refine ⟨⟨(h.tasks.stray ht htask).point, (h.tasks.stray ht htask).restsOn⟩, fun hgone => ?_⟩
    have hrests : task.restsOn ≠ none := h.tasks.begun hgone htask
    exact hrests

/-- A task that does not rest on a group is cancelled in both loops, if it is one of both. -/
theorem cancelMember (h : Counterpart N C l l') (t : PromiseId) :
    Counterpart N C (l.cancelMember t).2 ((N.name t).elim l' l'.cancelTask) := by
  by_cases hs : N.Strays t
  · have hleft : (N.name t).elim l' l'.cancelTask = l' := by
      cases hn : N.name t with
      | none => rfl
      | some t' =>
        have hg := hs.2.resolve_left (by simp [hn])
        have hnone := h.tasks.gone hn hg
        show l'.cancelTask t' = l'
        rw [cancelTask_eq h.groups']
        simp [Loop.cancelMember, hnone]
    rw [hleft]
    unfold Loop.cancelMember
    split
    · exact h
    · rename_i task ht
      split
      · rename_i p hp
        split
        · exact h.settleStray ((h.tasks.stray hs ht).restsOn p hp) _
        · exact h.markStray hs
      · exact h.markStray hs
  · cases hn : N.name t with
    | none =>
      have hnone : l.tasks.get? t = none := by
        cases ht : l.tasks.get? t with
        | none => rfl
        | some task => exact absurd ⟨h.tasks.known ht, .inl hn⟩ hs
      simp only [Loop.cancelMember, hnone, Option.elim_none]
      exact h
    | some t' =>
      rw [Option.elim_some, cancelTask_eq h.groups']
      have hg : ¬ N.gone t := fun hg => hs ⟨(N.known hn).1, .inr hg⟩
      by_cases hf : N.free t
      · obtain ⟨point, point', marked, ht, ht', hi⟩ := h.tasks.waiting hn hf hg
        simp only [Loop.cancelMember, ht, ht']
        exact h.markWaiting hn hf hg
      · have hl : N.Links t t' := ⟨hn, hf⟩
        have htask := h.tasks.linked hl
        unfold Loop.cancelMember
        cases ht : l.tasks.get? t <;> cases ht' : l'.tasks.get? t' <;> rw [ht, ht'] at htask <;> cases htask
        · exact h
        · rename_i task task' htask
          obtain ⟨point, restsOn, marked⟩ := task
          obtain ⟨point', restsOn', marked'⟩ := task'
          have hr : Option.Rel N.Links restsOn restsOn' := htask.restsOn
          cases hr with
          | none => exact h.mark hl
          | some hp =>
            dsimp only
            rw [h.isPending hp]
            split
            · exact h.settle hp .cancelled
            · exact h.mark hl

theorem cancelMembers : ∀ (ts : List PromiseId) {l l' : Loop V P K}, Counterpart N C l l' →
    Counterpart N C (l.cancelMembers ts).2 ((ts.filterMap N.name).foldl Loop.cancelTask l')
  | [], _, _, h => h
  | t :: ts, l, l', h => by
    have hrest := cancelMembers ts (h.cancelMember t)
    unfold Loop.cancelMembers
    cases hn : N.name t with
    | none =>
      rw [hn] at hrest
      rwa [List.filterMap_cons_none hn]
    | some t' =>
      rw [hn] at hrest
      rwa [List.filterMap_cons_some hn]

end Counterpart

/-- Who is cancelled if a task is: the members of the group that it rests on, if there is one, or else the
    task itself. -/
def targets (l : Loop V P K) (t : PromiseId) : List PromiseId :=
  (((l.tasks.get? t).bind (·.restsOn)).bind l.groups.get?).elim [t] (·.members)

namespace Counterpart

/-- **Whoever is cancelled with a task in the full loop is cancelled in what is left of it.** -/
theorem cancelTask (h : Counterpart N C l l') (t : PromiseId) :
    Counterpart N C (l.cancelTask t) (((l.targets t).filterMap N.name).foldl Loop.cancelTask l') := by
  have hone : Counterpart N C (l.cancelMember t).2 (([t].filterMap N.name).foldl Loop.cancelTask l') := by
    have hm := h.cancelMember t
    cases hn : N.name t <;> rw [hn] at hm <;> simpa [hn] using hm
  unfold Loop.cancelTask targets
  cases hr : (l.tasks.get? t).bind (·.restsOn) with
  | none => exact hone
  | some p =>
    dsimp only
    rw [Option.bind_some]
    cases hg : l.groups.get? p with
    | none => exact hone
    | some group =>
      -- Only strays rest on groups.
      have hs : N.Strays t := by
        obtain ⟨task, ht, hp⟩ := Option.bind_eq_some_iff.1 hr
        refine ⟨h.tasks.known ht, Classical.byContradiction fun hns => ?_⟩
        rw [not_or] at hns
        obtain ⟨t', hn⟩ := Option.ne_none_iff_exists'.1 hns.1
        by_cases hf : N.free t
        · obtain ⟨_, _, _, ht', -⟩ := h.tasks.waiting hn hf hns.2
          rw [ht] at ht'
          cases ht'
          cases hp
        · have htask := h.tasks.linked ⟨hn, hf⟩
          rw [ht] at htask
          cases ht' : l'.tasks.get? t' <;> rw [ht'] at htask <;> cases htask
          rename_i htask
          have hrest := htask.restsOn
          rw [hp] at hrest
          cases hr' : Task.restsOn _ <;> rw [hr'] at hrest <;> cases hrest
          rename_i hl
          exact hl.not_strays (h.groups hg).strays
      have hm := h.cancelMembers group.members
      dsimp only
      rw [Option.elim_some]
      split
      · exact hm.putGroup (h.groups hg) _
      · exact hm.markStray hs

/-! ## Groups -/

theorem tellGroup (hg : N.Unnamed g) (ts : List PromiseId) :
    ∀ {l : Loop V P K}, Counterpart N C l l' → (∀ t ∈ ts, (∃ t', N.Links t t') ∨ N.Unnamed t) →
      Counterpart N C (ts.foldl (fun l t => l.subscribe t (.tally g)) l) l' := by
  induction ts with
  | nil => exact fun h _ => h
  | cons t ts ih =>
    intro l h hts
    exact ih (h.subscribeTally (hts t List.mem_cons_self) hg) fun t' ht => hts t' (List.mem_cons_of_mem t ht)

/-- A group is made of linked and unnamed tasks; nothing is left of it. -/
theorem group (h : Counterpart N C l l') {members : List PromiseId}
    (hm : ∀ t ∈ members, (∃ t', N.Links t t') ∨ N.Unnamed t) :
    Counterpart N.grow C (l.group members).2 l' := by
  have hmade : Counterpart N.grow C { l.promise.2 with
      groups := l.groups.put l.promise.1 { members, left := members.length } } l' :=
    h.promiseStray.putGroup h.promise_unnamed _
  exact tellGroup h.promise_unnamed members hmade fun t ht =>
    (hm t ht).imp (fun ⟨t', hl⟩ => ⟨t', N.le_grow.links hl⟩) N.le_grow.unnamed

theorem tally [Inhabited V] (h : Counterpart N C l l') (hg : N.Unnamed g) :
    Counterpart N C (Program.tally g l) l' := by
  unfold Program.tally
  split
  · exact h
  · split
    · refine settleStray (l := { l with groups := l.groups.erase g })
        { h with groups := fun {q grp'} hq => ?_ } hg.strays _
      rw [Keyed.get?_erase] at hq
      split at hq
      · cases hq
      · exact h.groups hq
    · exact h.putGroup hg _

/-! ## Time -/

theorem expireDue (h : Counterpart N C l l') : Counterpart N C l.expireDue l'.expireDue := by
  have hsame : ∀ {l : Loop V P K}, l.timers = [] → l.expireDue = l := by
    intro l ht
    obtain ⟨promises, tasks, groups, agenda, timers, now⟩ := l
    cases ht
    show Loop.mk promises tasks groups (agenda ++ []) [] now = _
    rw [List.append_nil]
  rw [hsame h.timers, hsame h.timers']
  exact h

theorem withNow (h : Counterpart N C l l') (now : Float) :
    Counterpart N C { l with now } { l' with now } :=
  { h with now := rfl }

end Counterpart

end Loop

end SourceTrees
