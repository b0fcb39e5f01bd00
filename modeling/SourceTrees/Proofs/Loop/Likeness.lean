import SourceTrees.Flight.Basic
import SourceTrees.Proofs.Loop.Later

/-!
# Loops that differ in one task

Two loops may differ in a task, in the point from which it is to go on or in what it has returned, and be the
same otherwise.  Whatever is done alike to both, and is not the turn of that task, leaves no other difference.

## Protocol

* A **likeness** is a relation of such loops that every operation on promises, other tasks, groups, the agenda
  and timers keeps.  All other operations are put together from these.
* How a promise was settled may be looked at, but for the value.

## Results

* `Loop.Likeness` — the notion; `Loop.Likeness.shield`, `Loop.Likeness.group`, `Loop.Likeness.attach`, … — what
  tasks do in their turns keeps it.
* `Loop.Likeness.cancelTask`, `Loop.Likeness.expireDue`, `Loop.Likeness.tally` — so does what happens between
  turns.
* `Loop.Likeness.conclude` — so does the end of another task's turn.
-/

set_option autoImplicit false

namespace SourceTrees

/-- The errand looks at how the promise was settled. -/
inductive Errand.LooksAt {V K : Type} : Errand V K → PromiseId → Prop
  | wake (t p : PromiseId) : LooksAt (.react (.wake t) p) p
  | relay (q p : PromiseId) : LooksAt (.react (.relay q) p) p

/-- How a promise was settled, whatever the value. -/
def Settled.manner {V : Type} : Settled V → Settled Unit
  | value _ => value ()
  | failed f => failed f
  | cancelled => cancelled

namespace Loop

variable {V P K : Type} [DecidableEq K] {c p t : PromiseId} {R : Loop V P K → Loop V P K → Prop}
  {l l' : Loop V P K}

/-- The loops of the relation differ in the one task only, and what is done alike to them is done within the
    relation. -/
structure Likeness (c : PromiseId) (R : Loop V P K → Loop V P K → Prop) : Prop where
  known : ∀ {l l'}, R l l' → c < l.promises.size
  size : ∀ {l l'}, R l l' → l'.promises.size = l.promises.size
  isPending : ∀ {l l'}, R l l' → ∀ p, l'.isPending p = l.isPending p
  manner : ∀ {l l'}, R l l' → ∀ p,
    (l'.outcome? p).map Settled.manner = (l.outcome? p).map Settled.manner
  task : ∀ {l l'}, R l l' → ∀ {t}, t ≠ c → l'.tasks.get? t = l.tasks.get? t
  restsOn : ∀ {l l'}, R l l' → ∀ t,
    (l'.tasks.get? t).map Task.restsOn = (l.tasks.get? t).map Task.restsOn
  rest : ∀ {l l'}, R l l' → ∃ promises tasks, l' = { l with promises, tasks }
  replace : ∀ {l l'}, R l l' → ∀ groups agenda timers now,
    R { l with groups, agenda, timers, now } { l' with groups, agenda, timers, now }
  promise : ∀ {l l'}, R l l' → R l.promise.2 l'.promise.2
  settle : ∀ {l l'}, R l l' → ∀ p o, R (l.settle p o) (l'.settle p o)
  subscribe : ∀ {l l'}, R l l' → ∀ p r, R (l.subscribe p r) (l'.subscribe p r)
  unsubscribe : ∀ {l l'}, R l l' → ∀ p r, R (l.unsubscribe p r) (l'.unsubscribe p r)
  putTask : ∀ {l l'}, R l l' → ∀ {t}, t ≠ c → ∀ task,
    R { l with tasks := l.tasks.put t task } { l' with tasks := l'.tasks.put t task }
  eraseTask : ∀ {l l'}, R l l' → ∀ {t}, t ≠ c →
    R { l with tasks := l.tasks.erase t } { l' with tasks := l'.tasks.erase t }
  mark : ∀ {l l'}, R l l' → ∀ t, R (l.mark t) (l'.mark t)

namespace Likeness

section

variable (hR : Likeness c R) (h : R l l')

include hR h

theorem isCancelled (p : PromiseId) : l'.isCancelled p = l.isCancelled p := by
  have hm := hR.manner h p
  unfold Loop.isCancelled
  rcases ho : l.outcome? p with _ | (v | f | _) <;> rcases ho' : l'.outcome? p with _ | (v' | f' | _) <;>
    rw [ho, ho'] at hm <;> first | rfl | cases hm

/-! ## Groups, the agenda and timers -/

theorem withGroups (groups : Keyed PromiseId Group) : R { l with groups } { l' with groups } := by
  obtain ⟨_, _, rfl⟩ := hR.rest h
  exact hR.replace h groups l.agenda l.timers l.now

theorem withAgenda (agenda : List (Errand V K)) : R { l with agenda } { l' with agenda } := by
  obtain ⟨_, _, rfl⟩ := hR.rest h
  exact hR.replace h l.groups agenda l.timers l.now

theorem withTimers (timers : List Timer) : R { l with timers } { l' with timers } := by
  obtain ⟨_, _, rfl⟩ := hR.rest h
  exact hR.replace h l.groups l.agenda timers l.now

theorem withNow (now : Float) : R { l with now } { l' with now } := by
  obtain ⟨_, _, rfl⟩ := hR.rest h
  exact hR.replace h l.groups l.agenda l.timers now

theorem groups_eq : l'.groups = l.groups := by
  obtain ⟨_, _, rfl⟩ := hR.rest h
  rfl

theorem agenda_eq : l'.agenda = l.agenda := by
  obtain ⟨_, _, rfl⟩ := hR.rest h
  rfl

theorem putGroup (g : PromiseId) (group : Group) :
    R { l with groups := l.groups.put g group } { l' with groups := l'.groups.put g group } := by
  rw [hR.groups_eq h]
  exact hR.withGroups h _

theorem enqueueAll (es : List (Errand V K)) :
    R { l with agenda := l.agenda ++ es } { l' with agenda := l'.agenda ++ es } := by
  rw [hR.agenda_eq h]
  exact hR.withAgenda h _

theorem pick (i : Nat) : R (l.pick i) (l'.pick i) := by
  obtain ⟨_, _, rfl⟩ := hR.rest h
  exact hR.withAgenda h _

theorem timer (seconds : Float) :
    (l'.timer seconds).1 = (l.timer seconds).1 ∧ R (l.timer seconds).2 (l'.timer seconds).2 := by
  have hsize := hR.size h
  have hr := hR.withTimers (hR.promise h) (l.timers ++ [⟨l.now + seconds, l.promises.size⟩])
  obtain ⟨_, _, rfl⟩ := hR.rest h
  refine ⟨hsize, ?_⟩
  unfold Loop.timer
  dsimp only [promise_fst]
  rw [hsize]
  exact hr

theorem dropTimer (p : PromiseId) : R (l.dropTimer p) (l'.dropTimer p) := by
  obtain ⟨_, _, rfl⟩ := hR.rest h
  exact hR.withTimers h _

theorem expireDue : R l.expireDue l'.expireDue := by
  obtain ⟨_, _, rfl⟩ := hR.rest h
  exact hR.withTimers (hR.enqueueAll h _) _

/-! ## Promises and tasks -/

theorem newPromise : l'.promise.1 = l.promise.1 ∧ R l.promise.2 l'.promise.2 := ⟨hR.size h, hR.promise h⟩

theorem shield (p : PromiseId) : (l'.shield p).1 = (l.shield p).1 ∧ R (l.shield p).2 (l'.shield p).2 := by
  refine ⟨hR.size h, ?_⟩
  unfold Loop.shield
  dsimp only [promise_fst]
  rw [hR.size h]
  exact hR.subscribe (hR.promise h) p _

theorem waiter (p : PromiseId) : (l'.waiter p).1 = (l.waiter p).1 ∧ R (l.waiter p).2 (l'.waiter p).2 := by
  refine ⟨hR.size h, ?_⟩
  unfold Loop.waiter
  dsimp only [promise_fst]
  rw [hR.size h]
  exact hR.subscribe (hR.promise h) p _

theorem spawn (point : P) :
    (l'.spawn point).1 = (l.spawn point).1 ∧ R (l.spawn point).2 (l'.spawn point).2 := by
  refine ⟨hR.size h, ?_⟩
  unfold Loop.spawn
  dsimp only [promise_fst]
  rw [hR.size h]
  exact hR.enqueueAll (hR.putTask (hR.promise h) (Nat.ne_of_gt (hR.known h)) _) _

theorem group (members : List PromiseId) :
    (l'.group members).1 = (l.group members).1 ∧ R (l.group members).2 (l'.group members).2 := by
  have hall : ∀ (ts : List PromiseId) (g : PromiseId) {l l' : Loop V P K}, R l l' →
      R (ts.foldl (fun l t => l.subscribe t (.tally g)) l)
        (ts.foldl (fun l t => l.subscribe t (.tally g)) l') := by
    intro ts g
    induction ts with
    | nil => exact fun h => h
    | cons t ts ih => exact fun h => ih (hR.subscribe h t _)
  refine ⟨hR.size h, ?_⟩
  unfold Loop.group
  dsimp only [promise_fst]
  rw [hR.size h]
  exact hall members _ (hR.putGroup (hR.promise h) _ _)

/-! ## Cancellations -/

theorem cancelMember (t : PromiseId) :
    (l'.cancelMember t).1 = (l.cancelMember t).1 ∧ R (l.cancelMember t).2 (l'.cancelMember t).2 := by
  have hrests := hR.restsOn h t
  unfold Loop.cancelMember
  cases hg : l.tasks.get? t <;> cases hg' : l'.tasks.get? t <;> rw [hg, hg'] at hrests
  case none.some | some.none => cases hrests
  case none.none => exact ⟨rfl, h⟩
  case some.some task task' =>
    dsimp only
    rw [show task'.restsOn = task.restsOn from Option.some.inj hrests]
    cases task.restsOn with
    | none => exact ⟨rfl, hR.mark h t⟩
    | some p =>
      dsimp only
      rw [hR.isPending h]
      split
      · exact ⟨rfl, hR.settle h p _⟩
      · exact ⟨rfl, hR.mark h t⟩

omit h in
theorem cancelMembers : ∀ (ts : List PromiseId) {l l' : Loop V P K}, R l l' →
    (l'.cancelMembers ts).1 = (l.cancelMembers ts).1 ∧ R (l.cancelMembers ts).2 (l'.cancelMembers ts).2
  | [], _, _, h => ⟨rfl, h⟩
  | t :: ts, _, _, h => by
    obtain ⟨hone, hm⟩ := hR.cancelMember h t
    obtain ⟨hmore, hms⟩ := cancelMembers ts hm
    unfold Loop.cancelMembers
    exact ⟨congrArg₂ or hone hmore, hms⟩

theorem cancelTask (t : PromiseId) : R (l.cancelTask t) (l'.cancelTask t) := by
  have hrests : (l'.tasks.get? t).bind (·.restsOn) = (l.tasks.get? t).bind (·.restsOn) := by
    simpa [Option.bind_map, Function.comp_def] using congrArg (Option.bind · id) (hR.restsOn h t)
  unfold Loop.cancelTask
  rw [hrests]
  cases (l.tasks.get? t).bind (·.restsOn) with
  | none => exact (hR.cancelMember h t).2
  | some p =>
    dsimp only
    rw [hR.groups_eq h]
    cases l.groups.get? p with
    | none => exact (hR.cancelMember h t).2
    | some group =>
      obtain ⟨hany, hms⟩ := hR.cancelMembers group.members h
      dsimp only
      rw [hany]
      split
      · exact hR.putGroup hms _ _
      · exact hR.mark hms t

/-! ## Errands -/

theorem tally [Inhabited V] (g : PromiseId) : R (Program.tally g l) (Program.tally g l') := by
  unfold Program.tally
  rw [hR.groups_eq h]
  cases l.groups.get? g with
  | none => exact h
  | some group =>
    dsimp only
    split
    · exact hR.settle (hR.withGroups h _) g _
    · exact hR.withGroups h _

/-- The end of another task's turn. -/
theorem conclude (hne : t ≠ c) (turn : Turn P V) :
    R (Program.conclude t turn l) (Program.conclude t turn l') := by
  cases turn with
  | rest on point => exact hR.subscribe (hR.putTask h hne _) on _
  | giveWay point => exact hR.enqueueAll (hR.putTask h hne _) _
  | finish result => exact hR.settle (hR.eraseTask h hne) t _

end

/-- The operation of a key is joined or started alike. -/
theorem attach {κ : Type} [DecidableEq κ] (hR : Likeness c R) (h : R l l') (f : Flight κ) (key : κ)
    (point : P) (hook : K) : ∃ loop, f.attach l' key point hook =
      ((f.attach l key point hook).1, (f.attach l key point hook).2.1, loop) ∧
        R (f.attach l key point hook).2.2 loop := by
  have hsame : f.running? l' key = f.running? l key := by
    unfold Flight.running?
    rw [show l'.isPending = l.isPending from funext (hR.isPending h)]
  unfold Flight.attach
  rw [hsame]
  cases f.running? l key with
  | some operation =>
    obtain ⟨hid, hr⟩ := hR.shield h operation
    exact ⟨_, by dsimp only; rw [hid], hr⟩
  | none =>
    obtain ⟨hid, hr⟩ := hR.spawn h point
    obtain ⟨houter, hr⟩ := hR.shield (hR.subscribe hr (l.spawn point).1 (.hook hook)) (l.spawn point).1
    unfold Flight.launch
    dsimp only
    rw [hid, houter]
    exact ⟨_, rfl, hr⟩

end Likeness

end Loop

end SourceTrees
