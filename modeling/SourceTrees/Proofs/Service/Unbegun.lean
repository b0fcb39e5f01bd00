import SourceTrees.Proofs.Loop.Recast
import SourceTrees.Proofs.Service.Blind

/-!
# Calls that have not begun

A task that begins looks at its call.  If two calls begin in the same way nobody can tell them apart: two
runs that differ in nothing but the one call in place of the other come to the same.

## Results

* `Service.recast` — the service in which the task is to begin with another call;
  `Service.alike_recast_iff` — it is alike.
* `Service.Unbegun`, `Service.SameBut` — the task has not begun; two services are the same but for the call
  with which it is to begin.
* `Service.sameBut_spawned` — one call is begun, or another.
* **`Service.sameBut_moves`** — the runs that go on from there.
-/

set_option autoImplicit false

namespace SourceTrees

open Loop Work

variable {c : PromiseId}

/-! ## Two services -/

namespace Service

variable {first call : Call} {s s' : Service} {t : PromiseId}

/-- The same service, but that the task is to begin with another call. -/
def recast (c : PromiseId) (call : Call) (s : Service) : Service :=
  { s with loop := s.loop.recast c (.start call) }

/-- The second loop is the first one, but that the task is to begin with another call. -/
def Recasts (c : PromiseId) (call : Call) (l l' : Loop Reply Stage Hook) : Prop :=
  c < l.promises.size ∧ l' = l.recast c (.start call)

theorem likeness_recasts (c : PromiseId) (call : Call) : Likeness c (Recasts c call) Eq :=
  ⟨likeness_recast c _, fun h _ => by rw [h]⟩

theorem alike_recast_iff :
    s.Alike (Recasts c call) Eq s' ↔ c < s.loop.promises.size ∧ s' = s.recast c call := by
  constructor
  · intro h
    refine ⟨h.loop.1, ?_⟩
    rw [h.rest, h.loop.2, ← h.log]
    rfl
  · rintro ⟨hlt, rfl⟩
    exact ⟨⟨hlt, rfl⟩, rfl, rfl⟩

/-- The task has not begun: if it is not finished, it is to begin with the call. -/
structure Unbegun (first : Call) (c : PromiseId) (s : Service) : Prop where
  known : c < s.loop.promises.size
  point : ∀ {task}, s.loop.tasks.get? c = some task → task.point = .start first

/-- The services are the same, but that the task is to begin with one call in the one and with another in
    the other; or they are the same altogether. -/
inductive SameBut (first call : Call) (c : PromiseId) (s : Service) : Service → Prop
  | waiting (h : Unbegun first c s) : SameBut first call c s (s.recast c call)
  | same : SameBut first call c s s

theorem Unbegun.recast_eq (h : Unbegun first c s) : s.recast c first = s := by
  have htasks : s.loop.tasks.adjust c ({ · with point := .start first }) = s.loop.tasks := by
    refine Keyed.adjust_of_fixed fun task hget => ?_
    rw [← h.point hget]
  unfold recast Loop.recast
  rw [htasks]

/-- A task that is to begin with the call already is recast in vain, and nothing else is. -/
theorem unbegun_iff : Unbegun first c s ↔ s.Alike (Recasts c first) Eq s := by
  rw [alike_recast_iff]
  refine ⟨fun h => ⟨h.known, h.recast_eq.symm⟩, ?_⟩
  rintro ⟨hlt, he⟩
  refine ⟨hlt, fun {task} hget => ?_⟩
  have hloop : s.loop = s.loop.recast c (.start first) := congrArg Service.loop he
  have hnow : (s.loop.recast c (.start first)).tasks.get? c = _ := get?_tasks_recast
  rw [← hloop, if_pos rfl, hget] at hnow
  rw [Option.some.inj hnow]

theorem Unbegun.alike (h : Unbegun first c s) (call : Call) :
    s.Alike (Recasts c call) Eq (s.recast c call) := alike_recast_iff.2 ⟨h.known, rfl⟩

namespace SameBut

/-- Whatever is done alike to every service recast leaves no other difference. -/
theorem of_alike {g : Service → Service} (h : Unbegun first c s)
    (hg : ∀ {call s'}, s.Alike (Recasts c call) Eq s' → (g s).Alike (Recasts c call) Eq (g s')) :
    SameBut first call c (g s) (g (s.recast c call)) := by
  obtain ⟨-, he⟩ := alike_recast_iff.1 (hg (h.alike call))
  rw [he]
  exact .waiting (unbegun_iff.2 (hg (unbegun_iff.1 h)))

/-- Whoever looks at how promises were settled sees no difference. -/
theorem outcome?_eq (h : SameBut first call c s s') (p : PromiseId) :
    s'.loop.outcome? p = s.loop.outcome? p := by
  cases h <;> rfl

end SameBut

/-! ### Turns -/

/-- The turn of the task itself, in which it begins: if both calls begin alike, so does it. -/
theorem stepTask_recast (hstart : Calls.start call = Calls.start first) (h : Unbegun first c s)
    (given : Except Fault Reply) :
    program.stepTask c given (s.recast c call) = program.stepTask c given s := by
  have hget : (s.recast c call).loop.tasks.get? c =
      (s.loop.tasks.get? c).map ({ · with point := .start call }) := get?_tasks_recast.trans (if_pos rfl)
  cases htask : s.loop.tasks.get? c with
  | none =>
    have hsame : Unbegun call c s := ⟨h.known, fun hsome => by cases htask.symm.trans hsome⟩
    rw [hsame.recast_eq]
  | some task =>
    obtain ⟨point, on, marked⟩ := task
    obtain rfl : point = .start first := h.point htask
    rw [htask] at hget
    have hmet : Program.met ⟨Stage.start call, on, marked⟩ given =
        Program.met ⟨Stage.start first, on, marked⟩ given := rfl
    have hresume : Calls.resume (.start call) = Calls.resume (.start first) := by
      funext given
      cases given with
      | ok r => exact hstart
      | error f => rfl
    obtain ⟨he, halike⟩ := Calls.blind_resume (likeness_recasts c call) (.start first)
      (Program.met ⟨Stage.start first, on, marked⟩ given) (h.alike call)
    obtain ⟨-, hs⟩ := alike_recast_iff.1 halike
    rw [stepTask_of_some htask, stepTask_of_some hget]
    dsimp only
    rw [hresume, hmet, he, hs]
    exact congrArg (fun loop => ({ (Calls.resume (.start first) _ s).2 with
      loop } : Service)) (conclude_recast _)

/-- A task that has not begun holds no lease. -/
theorem gate?_recast (h : Unbegun first c s) (call : Call) (t : PromiseId) :
    (s.recast c call).gate? t = s.gate? t := by
  unfold gate?
  rw [show (s.recast c call).loop.tasks.get? t = _ from get?_tasks_recast]
  by_cases he : t = c
  · rw [if_pos he, he]
    cases hget : s.loop.tasks.get? c with
    | none => rfl
    | some task =>
      obtain ⟨point, on, marked⟩ := task
      obtain rfl : point = .start first := h.point hget
      rfl
  · rw [if_neg he]

/-- One move that does not give the task its turn. -/
theorem sameBut_move_of_ne (h : Unbegun first c s) {mv : Service.Move}
    (hne : ∀ {i e}, mv = .serve i → s.loop.agenda[i]? = some e → e.woken? ≠ some c) :
    SameBut first call c (s.move mv) ((s.recast c call).move mv) := by
  refine .of_alike (g := (·.move mv)) h fun {call s'} ha => ?_
  obtain ⟨-, rfl⟩ := alike_recast_iff.1 ha
  exact ha.move (likeness_recasts c call) (gate?_recast h call) fun he hi => ⟨hne he hi, fun _ _ => rfl⟩

variable (hstart : Calls.start call = Calls.start first)

include hstart

/-- One move. -/
theorem sameBut_move (h : Unbegun first c s) (mv : Service.Move) :
    SameBut first call c (s.move mv) ((s.recast c call).move mv) := by
  by_cases hturn : ∃ i e, mv = .serve i ∧ s.loop.agenda[i]? = some e ∧ e.woken? = some c
  · obtain ⟨i, e, rfl, hi, hw⟩ := hturn
    have hpicked : Unbegun first c (program.change s (·.pick i)) := ⟨h.known, h.point⟩
    have hi' : (program.loop (s.recast c call)).agenda[i]? = some e := hi
    have hbegins : ∀ given, SameBut first call c (program.stepTask c given (program.change s (·.pick i)))
        (program.stepTask c given (program.change (s.recast c call) (·.pick i))) := by
      intro given
      rw [show program.change (s.recast c call) (·.pick i) =
        (program.change s (·.pick i)).recast c call from rfl, stepTask_recast hstart hpicked]
      exact .same
    simp only [move, Program.serveAt, hi', show (program.loop s).agenda[i]? = some e from hi]
    rcases Errand.woken?_eq_some_iff.1 hw with rfl | ⟨p, rfl⟩
    · exact hbegins _
    · simp only [Program.serve, Program.reactTo]
      rw [show (program.loop (program.change (s.recast c call) (·.pick i))).outcome? p =
        (program.loop (program.change s (·.pick i))).outcome? p from rfl]
      cases (program.loop (program.change s (·.pick i))).outcome? p with
      | some o => exact hbegins _
      | none => exact .waiting hpicked
  · exact sameBut_move_of_ne h fun he hi hw => hturn ⟨_, _, he, hi, hw⟩

/-- **Two runs that differ in a call only, and not in how it begins, come to the same.** -/
theorem sameBut_moves (h : SameBut first call c s s') (ms : List Service.Move) :
    SameBut first call c (s.moves ms) (s'.moves ms) := by
  induction ms generalizing s s' with
  | nil => exact h
  | cons mv ms ih =>
    refine ih ?_
    cases h with
    | waiting h => exact sameBut_move hstart h mv
    | same => exact .same

omit hstart in
/-- A call that has just been begun, and another one in its place. -/
theorem sameBut_spawned (s : Service) : SameBut first call s.loop.promises.size
    (s.move (.act (.spawn first))) (s.move (.act (.spawn call))) := by
  have hlast : (s.move (.act (.spawn first))).recast s.loop.promises.size call =
      s.move (.act (.spawn call)) := by
    show ({ s with loop := (s.loop.spawn (.start first)).2.recast _ _ } : Service) = _
    rw [recast_spawned]
    rfl
  rw [← hlast]
  refine .waiting ⟨?_, fun {task} hget => ?_⟩
  · show _ < (s.loop.spawn _).2.promises.size
    rw [size_spawn]
    exact Nat.lt_succ_self _
  · replace hget : (s.loop.spawn _).2.tasks.get? _ = some task := hget
    rw [get?_tasks_spawn, if_pos rfl] at hget
    cases hget
    rfl

end Service

end SourceTrees
