import SourceTrees.Proofs.Loop.Agenda

/-!
# Timers stay until they are due

A timer goes on the agenda when it is due, or it is taken away with the task that waits for it.  Nothing
else touches the timers.

## Results

* `timers_shield`, `timers_group`, `timers_cancelTask`, `timers_conclude`, … — operations that leave the
  timers alone.
* `Loop.mem_expireDue` — a timer stays, or what it is for goes on the agenda.
* `Loop.expired_effect` — the end of a timer stays on the agenda until it settles the promise.
-/

set_option autoImplicit false

namespace SourceTrees.Loop

variable {V P K : Type} {l : Loop V P K} {p t : PromiseId} {e : Errand V K}

@[simp] theorem timers_spawn (point : P) : (l.spawn point).2.timers = l.timers := rfl

@[simp] theorem timers_shield : (l.shield p).2.timers = l.timers := by simp [shield]

@[simp] theorem timers_waiter : (l.waiter p).2.timers = l.timers := by simp [waiter]

@[simp] theorem timers_mark : (l.mark t).timers = l.timers := rfl

@[simp] theorem timers_pick (i : Nat) : (l.pick i).timers = l.timers := rfl

theorem timers_tallyAll (g : PromiseId) : ∀ (ts : List PromiseId) {l : Loop V P K},
    (ts.foldl (fun l t => l.subscribe t (.tally g)) l).timers = l.timers
  | [], _ => rfl
  | _ :: ts, _ => (timers_tallyAll g ts).trans timers_subscribe

@[simp] theorem timers_group (members : List PromiseId) : (l.group members).2.timers = l.timers :=
  timers_tallyAll _ _

@[simp] theorem timers_cancelMember : (l.cancelMember t).2.timers = l.timers := by
  unfold cancelMember
  split
  · rfl
  · split
    · split <;> simp
    · simp

@[simp] theorem timers_cancelMembers : ∀ (ts : List PromiseId) {l : Loop V P K},
    (l.cancelMembers ts).2.timers = l.timers
  | [], _ => rfl
  | _ :: ts, _ => (timers_cancelMembers ts).trans timers_cancelMember

@[simp] theorem timers_cancelTask : (l.cancelTask t).timers = l.timers := by
  unfold cancelTask
  split
  · simp
  · split
    · simp
    · dsimp only
      split <;> simp

@[simp] theorem timers_conclude (turn : Turn P V) :
    (Program.conclude t turn l).timers = l.timers := by
  cases turn <;> simp [Program.conclude, enqueue]

@[simp] theorem timers_tally [Inhabited V] (g : PromiseId) : (Program.tally g l).timers = l.timers := by
  unfold Program.tally
  split
  · rfl
  · split <;> simp

@[simp] theorem timers_effect [Inhabited V] (e : Errand V K) :
    (Program.Errand.effect e l).timers = l.timers := by
  unfold Program.Errand.effect
  split
  · split <;> simp
  all_goals simp

/-- A timer stays, or what it is for goes on the agenda. -/
theorem mem_expireDue {x : Timer} (hx : x ∈ l.timers) :
    x ∈ l.expireDue.timers ∨ .expire x.promise ∈ l.expireDue.agenda := by
  unfold expireDue
  rw [List.partition_eq_filter_filter]
  by_cases hdue : x.due < l.now + resolution
  · exact .inr (List.mem_append_right _ (List.mem_map.2 ⟨x, List.mem_filter.2 ⟨hx, by simpa using hdue⟩, rfl⟩))
  · exact .inl (List.mem_filter.2 ⟨hx, by simpa using hdue⟩)

/-- The end of a timer that is served settles its promise. -/
theorem isPending_expire [Inhabited V] : (Program.Errand.effect (.expire p) l).isPending p = false := by
  simp [Program.Errand.effect, isPending_settle]

end SourceTrees.Loop
