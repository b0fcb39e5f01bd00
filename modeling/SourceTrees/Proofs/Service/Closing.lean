import SourceTrees.Proofs.Service.ParseCounts

/-!
# Closing a service

A service is closed when it is asked to, when a server leaves it, and when the warm-up fails with which a
server enters it.  Whatever else a task does in its turn leaves the staff as it is.

## Protocol

* Closing a service that holds workers tries to dismiss them.  If that fails the service goes on to hold
  them, and the next closing tries again.
* A service without workers of its own has nothing to close.
* Who closes a service is told what he would be told without it: a failure to dismiss workers is none of his
  business.

## Results

* `Service.Closing`, `Woken.closing?` — the ways in which turns close the service.
* `Service.WasClosed` — what closing does to the staff.
* `Calls.closed_resume`, `Calls.sameStaff_resume` — what the turn of a task does to it.
* `Calls.warmed_resume` — how a task ends that enters the service.
-/

set_option autoImplicit false

namespace SourceTrees

open Loop Service Work

variable {s s' s'' : Service}

/-- How the turn ends, if it does not come to rest. -/
def Turn.result? {P α : Type} : Turn P α → Option (Except Fault α)
  | finish r => some r
  | _ => none

namespace Service

/-- The ways in which a service is closed: by a call for that; by a server that leaves it, with what has
    gone wrong, if something has; and with the fault that has come out of a warm-up. -/
inductive Closing where
  | asked
  | left (body : Option Fault)
  | unentered (fault : Fault)

namespace Closing

/-- What the task is told that closes the service, given whether workers are held after it. -/
def result (holds : Bool) : Closing → Except Fault Reply
  | asked => .ok (if holds then .stillOpen else .nothing)
  | left body => .ok (if body.isSome then .passedOn else .nothing)
  | unentered f => .error f

/-- A warm-up that comes to a fault closes the service. -/
def unentered? : Except Fault Bool → Option Closing
  | .error f => some (unentered f)
  | .ok _ => none

/-- The call whose task closes the service. -/
def call : Closing → Call
  | asked => .close
  | left body => .leave body
  | unentered _ => .enter

end Closing

namespace Woken

/-- What the warm-up of a task that enters the service comes to, if it ends in the turn. -/
def warmed? (w : Woken) : Option (Except Fault Bool) :=
  match w.stage with
  | .start .enter => if w.given.isOk then (Warmup.request none w.before).1.result? else none
  | .enter point => (Warmup.resume point w.given w.before).1.result?
  | _ => none

/-- How the task closes the service in its turn, if it does. -/
def closing? (w : Woken) : Option Closing :=
  match w.stage with
  | .start .close => if w.given.isOk then some .asked else none
  | .start (.leave body) => if w.given.isOk then some (.left body) else none
  | _ => w.warmed?.bind Closing.unentered?

end Woken

/-- The service has been closed: if it held workers, dismissing them was tried once more, and they are
    given up unless that failed. -/
structure WasClosed (s s' : Service) : Prop where
  dismissals : s'.workers.dismissals = s.workers.dismissals + s.holdsWorkers.toNat
  holds : s'.holdsWorkers = (s.holdsWorkers && s.workers.stuck.isSome)
  stuck : s'.workers.stuck = s.workers.stuck

/-- The queue of the workers is all that may have changed of them. -/
theorem SameStaff.dismissals (h : SameStaff s s') : s'.workers.dismissals = s.workers.dismissals := by
  rw [h.staff]

theorem SameStaff.stuck (h : SameStaff s s') : s'.workers.stuck = s.workers.stuck := by
  rw [h.staff]

/-- What comes before closing may leave the staff as it is. -/
theorem WasClosed.after (h : WasClosed s' s'') (hs : SameStaff s s') : WasClosed s s'' :=
  ⟨by rw [h.dismissals, hs.dismissals, hs.holds], by rw [h.holds, hs.holds, hs.stuck],
    by rw [h.stuck, hs.stuck]⟩

/-- So may what comes after it. -/
theorem WasClosed.then (h : WasClosed s s') (hs : SameStaff s' s'') : WasClosed s s'' :=
  ⟨by rw [hs.dismissals, h.dismissals], by rw [hs.holds, h.holds], by rw [hs.stuck, h.stuck]⟩

end Service

namespace Work

/-- Without workers there is nothing to close. -/
theorem close_eq_of_not_holds (h : s.holdsWorkers = false) : close s = (.ok (), s) := by
  simp [close, h]

/-- Closing answers well, whether or not the workers could be dismissed. -/
theorem close_closes (hstuck : ∀ f ∈ s.workers.stuck, f.kind.isOrdinary = true) :
    (close s).1 = .ok () ∧ WasClosed s (close s).2 := by
  cases hh : s.holdsWorkers with
  | false =>
    rw [close_eq_of_not_holds hh]
    exact ⟨rfl, by simp [hh], by simp [hh], rfl⟩
  | true =>
    have hd := @dismiss_eq s
    cases hs : s.workers.stuck with
    | none =>
      rw [hs] at hd
      have he : close s = (.ok (), { (dismiss s).2 with
          holdsWorkers := false
          log := (dismiss s).2.log ++ [.info "ThreadPoolExecutor shutdown completed"] }) := by
        have hr : (dismiss s).1 = .ok () := by simp [dismiss, hs]
        simp [close, hh, hr, log]
      rw [he, hd]
      exact ⟨rfl, by simp [hh], by simp [hs], rfl⟩
    | some f =>
      rw [hs] at hd
      have he : close s = (.ok (), { (dismiss s).2 with
          log := (dismiss s).2.log ++ [.error ("Error shutting down ThreadPoolExecutor: " ++ f.message)] }) := by
        have hr : (dismiss s).1 = .error f := by simp [dismiss, hs]
        simp [close, hh, hr, log, hstuck f (by rw [hs]; rfl)]
      rw [he, hd]
      exact ⟨rfl, by simp [hh], by simp [hh, hs], rfl⟩

end Work

/-! ## Turns -/

namespace Pool

theorem keptWithin_sameStaff : KeptWithin SameStaff :=
  keptWithin_of_touched (·.toSameStaff) fun h => ⟨h.holds, by rw [h.workers]⟩

end Pool

namespace Calls

theorem sameStaff_log (line : LogLine) : Within SameStaff (log line) :=
  (remote_log line).mono fun _ _ => (·.toSameStaff)

/-- The service is closed and the task ends, having done nothing more to the staff. -/
def Closes (s : Service) (c : Closing) (x : Turn Stage Reply × Service) : Prop :=
  x.1 = .finish (c.result x.2.holdsWorkers) ∧ WasClosed s x.2

theorem Closes.after {c : Closing} {x : Turn Stage Reply × Service} (h : Closes s' c x)
    (hs : SameStaff s s') : Closes s c x :=
  ⟨h.1, h.2.after hs⟩

section

variable (hstuck : ∀ f ∈ s.workers.stuck, f.kind.isOrdinary = true)

include hstuck

theorem closes_asked : Closes s .asked (start .close s) := by
  obtain ⟨hr, hc⟩ := close_closes hstuck
  have he : start .close s =
      (.finish (.ok (if (close s).2.holdsWorkers then .stillOpen else .nothing)), (close s).2) := by
    simp only [start, run_bind, run_get, hr]
    rfl
  rw [he]
  exact ⟨rfl, hc⟩

/-- The service is closed in the end, and the task goes on from there to its result. -/
theorem closes_close {c : Closing} {k : Except Fault Unit → Work (Turn Stage Reply)} (hs : SameStaff s s')
    (hk : ∀ s₁, k (.ok ()) s₁ = (.finish (c.result s₁.holdsWorkers), s₁)) :
    Closes s c ((close >>= k) s') := by
  obtain ⟨hr, hc⟩ := close_closes (s := s') (by rw [hs.stuck]; exact hstuck)
  rw [run_bind, hr, hk]
  exact ⟨rfl, hc.after hs⟩

/-- What has gone wrong is logged first, if it is an ordinary fault. -/
theorem closes_leave (body : Option Fault) : Closes s (.left body) (leave body s) := by
  cases body with
  | none => exact closes_close hstuck (.refl s) fun _ => rfl
  | some f =>
    cases ho : f.kind.isOrdinary with
    | true =>
      simp only [leave, ho, if_true]
      rw [run_bind]
      exact closes_close hstuck (sameStaff_log _ s) fun _ => rfl
    | false =>
      simp only [leave, ho]
      exact closes_close hstuck (.refl s) fun _ => rfl

theorem closes_entered (f : Fault) : Closes s (.unentered f) (entered (.error f) s) := by
  cases ho : f.kind.isOrdinary with
  | true =>
    simp only [entered, ho, if_true]
    rw [run_bind]
    exact closes_close hstuck (sameStaff_log _ s) fun _ => rfl
  | false =>
    simp only [entered, ho]
    exact closes_close hstuck (.refl s) fun _ => rfl

end

/-- A warm-up with which a server enters the service has come to something, or it has come to rest, and the
    task with it. -/
def Warmed (s : Service) (result : Option (Except Fault Bool)) (x : Turn Stage Reply × Service) : Prop :=
  match result with
  | some (.error f) => Closes s (.unentered f) x
  | some (.ok _) => x.1 = .finish (.ok .nothing) ∧ SameStaff s x.2
  | none => x.1.result? = none ∧ SameStaff s x.2

theorem warmed_andThen (hstuck : ∀ f ∈ s.workers.stuck, f.kind.isOrdinary = true)
    {x : Turn WarmStage Bool × Service} (hx : Remote s x.2) :
    Warmed s x.1.result? (andThen x.1 .enter entered x.2) := by
  obtain ⟨turn, s'⟩ := x
  have hs : SameStaff s s' := hx.toSameStaff
  cases turn with
  | rest | giveWay => exact ⟨rfl, hs⟩
  | finish r =>
    cases r with
    | ok b =>
      refine ⟨?_, hs.trans (remote_entered b s').toSameStaff⟩
      cases b <;> rfl
    | error f => exact (closes_entered (by rw [hs.stuck]; exact hstuck) f).after hs

variable {w : Woken}

/-- The turn of a task that enters the service. -/
theorem warmed_resume (hstuck : ∀ f ∈ w.before.workers.stuck, f.kind.isOrdinary = true)
    (hs : (w.stage = .start .enter ∧ ∃ r, w.given = .ok r) ∨ ∃ point, w.stage = .enter point) :
    Warmed w.before w.warmed? (resume w.stage w.given w.before) := by
  rcases hs with ⟨hs, r, hr⟩ | ⟨point, hs⟩
  · unfold Woken.warmed?
    rw [hs, hr]
    exact warmed_andThen hstuck (Warmup.remote_request none w.before)
  · unfold Woken.warmed?
    rw [hs]
    exact warmed_andThen hstuck (Warmup.remote_resume point w.given w.before)

/-- The service is closed as said, or the staff is left alone. -/
def Staffed (s : Service) (c : Option Closing) (x : Turn Stage Reply × Service) : Prop :=
  match c with
  | some c => Closes s c x
  | none => SameStaff s x.2

theorem Warmed.staffed {r : Option (Except Fault Bool)} {x : Turn Stage Reply × Service}
    (h : Warmed s r x) : Staffed s (r.bind Closing.unentered?) x := by
  cases r with
  | none => exact h.2
  | some r =>
    cases r with
    | ok b => exact h.2
    | error f => exact h

/-- **What the turn of a task does to the staff.** -/
theorem staff_resume (hstuck : ∀ f ∈ w.before.workers.stuck, f.kind.isOrdinary = true) :
    Staffed w.before w.closing? (resume w.stage w.given w.before) := by
  have hother : w.stage.closes = false → SameStaff w.before (resume w.stage w.given w.before).2 :=
    fun hc => within_resume Pool.keptWithin_sameStaff (fun _ _ => ⟨rfl, rfl⟩) hc w.given w.before
  have henter := @warmed_resume w hstuck
  obtain ⟨task, stage, given, s⟩ := w
  cases stage with
  | start call =>
    cases call with
    | close =>
      cases given with
      | ok r => exact closes_asked hstuck
      | error f => exact .refl _
    | leave body =>
      cases given with
      | ok r => exact closes_leave hstuck body
      | error f => exact .refl _
    | enter =>
      cases given with
      | ok r => exact (henter (.inl ⟨rfl, r, rfl⟩)).staffed
      | error f => exact .refl _
    | _ => exact hother rfl
  | enter point => exact (henter (.inr ⟨point, rfl⟩)).staffed
  | _ => exact hother rfl

end Calls

end SourceTrees
