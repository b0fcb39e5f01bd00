import SourceTrees.Proofs.Loop.Cancels

/-!
# Tasks that are to meet a cancellation

A cancellation from outside does not strike a task at once.  What the task rests on is cancelled, or the
task is marked; it meets the cancellation when it has its next turn, and until then nothing can take the
cancellation away.

## Results

* `Loop.Stricken` — the task is to meet a cancellation in its next turn.
* `Loop.Stricken.mono`, `Loop.Stricken.cancelTask` — it stays so; other cancellations change nothing.
* `Loop.stricken_cancelTask` — who is cancelled is stricken.
* `Loop.Stricken.met` — what a stricken task meets.
-/

set_option autoImplicit false

namespace SourceTrees.Loop

variable {V P K : Type} {l l' : Loop V P K} {p q t : PromiseId} {task : Task P}

/-- The task is to meet a cancellation: it is marked, and rests on nothing that is open, or what it rests
    on has been cancelled. -/
inductive Stricken (l : Loop V P K) (t : PromiseId) : Prop
  | marked {task : Task P} (ht : l.tasks.get? t = some task) (hm : task.marked = true)
      (hon : ∀ p, task.restsOn = some p → ∃ o, l.outcome? p = some o)
  | refused {task : Task P} {p : PromiseId} (ht : l.tasks.get? t = some task)
      (hon : task.restsOn = some p) (ho : l.outcome? p = some .cancelled)

/-- Who rests where it has rested, and is marked if it was, is stricken as before. -/
theorem Stricken.mono (h : l.Stricken t)
    (ht : ∀ task, l.tasks.get? t = some task → ∃ task', l'.tasks.get? t = some task' ∧
      task'.restsOn = task.restsOn ∧ (task.marked = true → task'.marked = true))
    (ho : ∀ {p o}, l.outcome? p = some o → l'.outcome? p = some o) : l'.Stricken t := by
  cases h with
  | marked hget hm hon =>
    obtain ⟨task', hget', hrests, hmark⟩ := ht _ hget
    exact .marked hget' (hmark hm) fun p hp => (hon p (hrests ▸ hp)).imp fun _ => ho
  | refused hget hon hout =>
    obtain ⟨task', hget', hrests, _⟩ := ht _ hget
    exact .refused hget' (hrests.trans hon) (ho hout)

theorem Stricken.of_tasks (h : l.Stricken t) (ht : l'.tasks.get? t = l.tasks.get? t) (hl : l.Later l') :
    l'.Stricken t :=
  h.mono (fun task hget => ⟨task, ht.trans hget, rfl, id⟩) hl.outcome

theorem Stricken.mark (h : l.Stricken t) : (l.mark q).Stricken t := by
  refine h.mono (fun task hget => ?_) (Later.mark q).outcome
  rw [get?_tasks_mark, hget]
  refine ⟨_, rfl, ?_⟩
  split
  · exact ⟨rfl, fun _ => rfl⟩
  · exact ⟨rfl, id⟩

theorem Stricken.cancelMember (h : l.Stricken t) : (l.cancelMember q).2.Stricken t := by
  unfold Loop.cancelMember
  split
  · exact h
  · split
    · split
      · exact h.of_tasks (by rw [tasks_settle]) (.settle ..)
      · exact h.mark
    · exact h.mark

theorem Stricken.cancelMembers : ∀ (ts : List PromiseId) {l : Loop V P K}, l.Stricken t →
    (l.cancelMembers ts).2.Stricken t
  | [], _, h => h
  | _ :: ts, _, h => cancelMembers ts h.cancelMember

/-- A cancellation takes no other away. -/
theorem Stricken.cancelTask (h : l.Stricken t) : (l.cancelTask q).Stricken t := by
  unfold Loop.cancelTask
  split
  · exact h.cancelMember
  · split
    · exact h.cancelMember
    · rename_i group _
      have hmembers := cancelMembers group.members h
      dsimp only
      split
      · exact hmembers.of_tasks rfl (.congr rfl rfl)
      · exact hmembers.mark

/-- Who is cancelled is stricken, unless it rests on a group. -/
theorem stricken_cancelTask (ht : l.tasks.get? t = some task)
    (hon : ∀ p, task.restsOn = some p → l.groups.get? p = none ∧ p < l.promises.size) :
    (l.cancelTask t).Stricken t := by
  have hmember : l.cancelTask t = (l.cancelMember t).2 := by
    unfold Loop.cancelTask
    rw [ht]
    cases hrests : task.restsOn with
    | none => simp [hrests]
    | some p => simp [hrests, (hon p hrests).1]
  rw [hmember]
  have hget : (l.mark t).tasks.get? t = some { task with marked := true } := by
    rw [get?_tasks_mark, ht]
    simp
  unfold Loop.cancelMember
  simp only [ht]
  cases hrests : task.restsOn with
  | none => exact .marked hget rfl fun p hp => by cases hrests.symm.trans hp
  | some p =>
    dsimp only
    split
    · rename_i hopen
      refine .refused (by rw [tasks_settle]; exact ht) hrests ?_
      rw [outcome?_settle, if_pos ⟨rfl, hopen⟩]
    · rename_i hsettled
      refine .marked hget rfl fun q hq => ?_
      cases hrests.symm.trans hq
      exact (isPending_or_settled (hon p hrests).2).resolve_left hsettled

/-- A stricken task meets a cancellation. -/
theorem Stricken.met [Inhabited V] {given : Except Fault V} (h : l.Stricken t)
    (ht : l.tasks.get? t = some task) (hgives : l.Gives task given) :
    ∃ f, Program.met task given = .error f ∧ f.kind = .cancelled := by
  cases h with
  | marked hget hm =>
    cases ht.symm.trans hget
    cases given with
    | ok v => exact ⟨.cancellation, by simp [Program.met, hm], rfl⟩
    | error f =>
      by_cases hf : f.kind = .cancelled
      · exact ⟨f, by simp [Program.met, hf], hf⟩
      · exact ⟨.cancellation, by simp [Program.met, hf, hm], rfl⟩
  | refused hget hon hout =>
    cases ht.symm.trans hget
    unfold Gives at hgives
    rw [hon] at hgives
    obtain ⟨o, ho, rfl⟩ := hgives
    cases ho.symm.trans hout
    exact ⟨.cancellation, by simp [Program.met, Settled.result], rfl⟩

end SourceTrees.Loop
