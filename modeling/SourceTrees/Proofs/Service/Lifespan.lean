import SourceTrees.Proofs.Service.CallStages
import SourceTrees.Proofs.Service.Closing

/-!
# The lifespan of a service

A server enters the service with a warm-up and leaves it in the end.  However that goes, and whatever else is
called on the way, the workers are dismissed, and nobody is told of anything but of his own faults.

## Protocol

* A lifespan is **over** when the call that enters has failed, or the call that leaves has ended.
* Dismissing workers succeeds, or it fails with an ordinary fault.

## Results

* `Service.closings`, `Service.warmUps` — who has closed the service in the course of a run, and what the
  warm-ups have come to with which it was entered.
* `Service.Lifespan` — the law for a run.
* `Service.Enclosed` — the runs that are one lifespan.
* **`Service.cleans_up`** — every run obeys the law, and in a lifespan the workers are dismissed once.
-/

set_option autoImplicit false

namespace SourceTrees.Service

open Loop

variable {s s' : Service} {roles roles' : Roles Hook Job} {w : Woken} {m : Midst} {mv : Service.Move}
  {ms : List Service.Move} {t : PromiseId} {turn : Turn Stage Reply} {c : Config}

/-! ## Moves -/

/-- A move that gives no task its turn leaves the staff alone. -/
theorem Step.sameStaff (hst : Step s roles mv s' roles') (hnone : s.turnOf? mv = none) : SameStaff s s' := by
  cases hst with
  | @forgotten i hook op hi => cases hook <;> exact ⟨rfl, rfl⟩
  | workedOff hi =>
    rw [Work.workOff_eq hi]
    exact ⟨rfl, rfl⟩
  | turn hwakes hsts hres hend => cases hnone.symm.trans (turnOf?_of_wakes hwakes)
  | _ => exact ⟨rfl, rfl⟩

/-- The service as the turn begins has the same staff. -/
theorem HasTurn.sameStaff_before (ht : HasTurn s roles w m turn) : SameStaff s w.before := by
  obtain ⟨i, hb⟩ := ht.before
  rw [hb]
  exact ⟨rfl, rfl⟩

/-- A turn closes the service and ends the task, or it leaves the staff alone. -/
theorem HasTurn.staffed (ht : HasTurn s roles w m turn)
    (hstuck : ∀ f ∈ s.workers.stuck, f.kind.isOrdinary = true) :
    match w.closing? with
    | some x => WasClosed s (m.after w.task turn) ∧ (m.after w.task turn).loop.outcome? w.task =
        some (Program.ended (x.result (m.after w.task turn).holdsWorkers))
    | none => SameStaff s (m.after w.task turn) := by
  have hbefore := ht.sameStaff_before
  have hstaff := @Calls.staff_resume w (by rw [hbefore.stuck]; exact hstuck)
  have hm : (Calls.resume w.stage w.given w.before).2 = m.service := congrArg Prod.snd ht.resumed
  unfold Calls.Staffed at hstaff
  cases hx : w.closing? with
  | none =>
    rw [hx, hm] at hstaff
    exact hbefore.trans (SameStaff.trans hstaff ⟨rfl, rfl⟩)
  | some x =>
    rw [hx] at hstaff
    obtain ⟨hturn, hclosed⟩ := hstaff
    rw [hm] at hturn hclosed
    exact ⟨(hclosed.after hbefore).then ⟨rfl, rfl⟩, ht.outcome?_of_finish hturn⟩

/-- What the warm-up comes to in the turn is what the task ends with. -/
theorem HasTurn.warmed (ht : HasTurn s roles w m turn)
    (hstuck : ∀ f ∈ s.workers.stuck, f.kind.isOrdinary = true) {r : Except Fault Bool}
    (hr : w.warmed? = some r) : (m.after w.task turn).loop.outcome? w.task =
      some (Program.ended (Work.reply (fun _ => .nothing) r)) := by
  have henters : (w.stage = .start .enter ∧ ∃ r, w.given = .ok r) ∨ ∃ point, w.stage = .enter point := by
    unfold Woken.warmed? at hr
    split at hr
    · rename_i hs
      cases hg : w.given with
      | ok r => exact .inl ⟨hs, r, rfl⟩
      | error f => simp [hg, Except.isOk, Except.toBool] at hr
    · exact .inr ⟨_, by assumption⟩
    · cases hr
  have hwarmed := Calls.warmed_resume (by rw [ht.sameStaff_before.stuck]; exact hstuck) henters
  rw [hr] at hwarmed
  cases r with
  | ok b => exact ht.outcome?_of_finish hwarmed.1
  | error f => exact ht.outcome?_of_finish hwarmed.1

/-- What a move does to the staff: only turns that close the service touch it, and a call for that does
    nothing to a service that holds no workers. -/
def Tidy (s : Service) (mv : Service.Move) : Prop :=
  match (s.turnOf? mv).bind Woken.closing? with
  | some x => WasClosed s (s.move mv) ∧
      (x = .asked → s.holdsWorkers = false → s.move mv = { s with loop := (s.move mv).loop })
  | none => SameStaff s (s.move mv)

theorem Tidy.stuck (h : Tidy s mv) : (s.move mv).workers.stuck = s.workers.stuck := by
  unfold Tidy at h
  split at h
  · exact h.1.stuck
  · exact h.stuck

/-- A task that closes the service because it is asked to has just begun. -/
theorem Woken.closing?_asked (hx : w.closing? = some .asked) :
    w.stage = .start .close ∧ ∃ r, w.given = .ok r := by
  unfold Woken.closing? at hx
  split at hx
  · rename_i hs
    cases hg : w.given with
    | ok r => exact ⟨hs, r, rfl⟩
    | error f => simp [hg, Except.isOk, Except.toBool] at hx
  · split at hx <;> cases hx
  · obtain ⟨r, -, hr⟩ := Option.bind_eq_some_iff.1 hx
    cases r <;> cases hr

/-- Every move is tidy. -/
theorem Step.tidy (ho : AtRest s roles) (hst : Step s roles mv (s.move mv) roles')
    (hstuck : ∀ f ∈ s.workers.stuck, f.kind.isOrdinary = true) : Tidy s mv := by
  unfold Tidy
  rcases hst.aside_or_given ho with ⟨hnone, -⟩ | ⟨w, m, turn, hsome, ht, hmove, -⟩
  · rw [hnone]
    exact hst.sameStaff hnone
  · have hstaff := ht.staffed hstuck
    rw [hsome, Option.bind_some, hmove]
    cases hx : w.closing? with
    | none =>
      rw [hx] at hstaff
      exact hstaff
    | some x =>
      rw [hx] at hstaff
      refine ⟨hstaff.1, ?_⟩
      rintro rfl hh
      obtain ⟨hs, r, hr⟩ := Woken.closing?_asked hx
      have hm : (Calls.resume w.stage w.given w.before).2 = m.service := congrArg Prod.snd ht.resumed
      have hsame : m.service = w.before := by
        rw [← hm, hs, hr]
        simp only [Calls.resume, Calls.start, Work.run_bind, Work.run_get,
          Work.close_eq_of_not_holds (ht.sameStaff_before.holds.trans hh)]
        rfl
      obtain ⟨i, hb⟩ := ht.before
      rw [hsame, hb]

/-! ## Runs -/

/-- What is told of the turns of a run, with the tasks whose turns they are. -/
def noted {α : Type} (f : Woken → Option α) (s : Service) (ms : List Service.Move) : List (PromiseId × α) :=
  (taken s ms).filterMap fun w => (f w).map (w.task, ·)

theorem noted_snoc {α : Type} {f : Woken → Option α} : noted f s (ms ++ [mv]) = noted f s ms ++
    (((s.moves ms).turnOf? mv).bind fun w => (f w).map (w.task, ·)).toList := by
  rw [noted, taken_snoc, List.filterMap_append, noted]
  cases (s.moves ms).turnOf? mv with
  | none => rfl
  | some w => cases hx : f w <;> simp [hx]

theorem mem_noted_snoc {α : Type} {f : Woken → Option α} {x : α} : (t, x) ∈ noted f s (ms ++ [mv]) ↔
    (t, x) ∈ noted f s ms ∨ ∃ w, (s.moves ms).turnOf? mv = some w ∧ f w = some x ∧ w.task = t := by
  rw [noted_snoc, List.mem_append]
  cases (s.moves ms).turnOf? mv with
  | none => simp
  | some w => cases hx : f w <;> simp [hx, eq_comm, and_comm]

/-- The closings of a run, with the tasks whose turns they are. -/
abbrev closings : Service → List Service.Move → List (PromiseId × Closing) := noted Woken.closing?

/-- What the warm-ups come to in the course of a run with which the service is entered, with their tasks. -/
abbrev warmUps : Service → List Service.Move → List (PromiseId × Except Fault Bool) := noted Woken.warmed?

/-- The call has done what it is there for: it has closed the service, or the warm-up has come to something
    with which it enters. -/
def HasClosed (s : Service) (ms : List Service.Move) (t : PromiseId) : Call → Prop
  | .close => (t, .asked) ∈ closings s ms
  | .leave body => (t, .left body) ∈ closings s ms
  | .enter => ∃ r, (t, r) ∈ warmUps s ms
  | _ => False

theorem hasClosed_append {call : Call} (h : Barred s ms t ∨ HasClosed s ms t call) (mv : Service.Move) :
    Barred s (ms ++ [mv]) t ∨ HasClosed s (ms ++ [mv]) t call := by
  rcases h with ⟨w, hw, h⟩ | h
  · refine .inl ⟨w, ?_, h⟩
    rw [taken_snoc]
    exact List.mem_append_left _ hw
  · refine .inr ?_
    unfold HasClosed at h ⊢
    rw [closings, warmUps, noted_snoc, noted_snoc]
    cases call with
    | close | leave => exact List.mem_append_left _ h
    | enter =>
      obtain ⟨r, hr⟩ := h
      exact ⟨r, List.mem_append_left _ hr⟩
    | _ => exact h

/-- The law for a run. -/
structure Lifespan (c : Config) (stuck : Option Fault) (s : Service) (ms : List Service.Move) : Prop where
  /-- Every move is tidy. -/
  tidy : Along Tidy s ms
  /-- Dismissing the workers goes on to fail as it does, or to succeed. -/
  stays : (s.moves ms).workers.stuck = stuck
  /-- Workers that can be dismissed are dismissed by the first closing; else every closing tries. -/
  dismissals : (s.moves ms).workers.dismissals =
    if 0 < c.workers then if stuck.isSome then (closings s ms).length else min 1 (closings s ms).length
    else 0
  /-- Workers are held until they have been dismissed. -/
  holds : (s.moves ms).holdsWorkers = (decide (0 < c.workers) && (stuck.isSome || (closings s ms).isEmpty))
  /-- Only calls close the service that may do so, and each once. -/
  begun : ∀ {t x}, (t, x) ∈ closings s ms → Began s ms x.call t
  single : ((closings s ms).map (·.1)).Nodup
  /-- Who has closed the service is told what he would be told without it. -/
  told : ∀ {t x}, (t, x) ∈ closings s ms → (s.moves ms).loop.outcome? t =
    some (Program.ended (x.result (decide (0 < c.workers) && stuck.isSome)))
  /-- Who has entered the service is told of a fault exactly if it has come out of the warm-up. -/
  warmed : ∀ {t r}, (t, r) ∈ warmUps s ms → (s.moves ms).loop.outcome? t =
    some (Program.ended (Work.reply (fun _ => .nothing) r))
  /-- A call that may close the service is on its way, or it has ended and done what it is there for, unless
      it was cancelled before it began. -/
  ends : ∀ {t call}, Began s ms call t → call.closes = true →
    (∃ point on, (s.moves ms).loop.place? t = some (point, on) ∧ point.Suits call) ∨
      (Barred s ms t ∨ HasClosed s ms t call) ∧ ∃ o, (s.moves ms).loop.outcome? t = some o

/-! ## The law is kept -/

/-- A task that closes the service is one of the call that closes it so. -/
theorem Woken.stage_of_closing? {x : Closing} (hx : w.closing? = some x) :
    w.stage = .start x.call ∨ x.call = .enter ∧ ∃ point, w.stage = .enter point := by
  unfold Woken.closing? at hx
  split at hx
  · split at hx <;> cases hx
    exact .inl (by assumption)
  · split at hx <;> cases hx
    exact .inl (by assumption)
  · obtain ⟨r, hr, hf⟩ := Option.bind_eq_some_iff.1 hx
    have hcall : x.call = .enter := by
      cases r <;> cases hf
      rfl
    unfold Woken.warmed? at hr
    split at hr
    · exact .inl (hcall ▸ by assumption)
    · exact .inr ⟨hcall, _, by assumption⟩
    · cases hr

theorem Woken.call_of_closing? {x : Closing} (hx : w.closing? = some x) {call : Call}
    (hs : w.stage.Suits call) : call = x.call := by
  rcases Woken.stage_of_closing? hx with hstage | ⟨hcall, point, hstage⟩
  · rw [hstage] at hs
    exact hs.symm
  · rw [hstage] at hs
    exact hs.trans hcall.symm

/-- The call has been begun whose task closes the service. -/
theorem HasTurn.began_of_closing? {x : Closing} (ht : HasTurn (s.moves ms) roles w m turn)
    (hb : CallsBegun s ms) (hx : w.closing? = some x) : Began s ms x.call w.task := by
  obtain ⟨on, hp⟩ := ht.place
  have hrole : w.stage.role = .call := by
    rcases Woken.stage_of_closing? hx with hs | ⟨-, point, hs⟩
    · rw [hs]
      rfl
    · rw [hs]
      rfl
  obtain ⟨call, hbegan, hsuits⟩ := hb.suits hp hrole
  obtain rfl := Woken.call_of_closing? hx hsuits
  refine hbegan.resolve_right ?_
  rintro ⟨language, he⟩
  cases x <;> cases he

/-- A task of a call that may close the service is about to begin, or its warm-up is on its way. -/
theorem cases_of_closes {point : Stage} {call : Call} (hs : point.Suits call) (hc : call.closes = true) :
    point = .start call ∨ call = .enter ∧ ∃ warming, point = .enter warming := by
  cases point with
  | start call' =>
    obtain rfl : call' = call := hs
    exact .inl rfl
  | enter warming => exact .inr ⟨hs, warming, rfl⟩
  | init =>
    obtain rfl : call = .init := hs
    cases hc
  | grammar | parser | warm =>
    obtain ⟨_, rfl⟩ := hs
    cases hc
  | lease | holding =>
    obtain ⟨_, _, rfl⟩ := hs
    cases hc
  | parse =>
    obtain ⟨hparses, -⟩ := hs
    cases call with
    | close | leave | enter => cases hparses
    | _ => cases hc
  | boot | fetch => exact hs.elim

section

variable (hsome : (s.moves ms).turnOf? mv = some w)

include hsome

theorem mem_closings {x : Closing} (hx : w.closing? = some x) : (w.task, x) ∈ closings s (ms ++ [mv]) :=
  mem_noted_snoc.2 (.inr ⟨w, hsome, hx, rfl⟩)

/-- A task of a call that may close the service ends as it should. -/
theorem HasTurn.hasClosed {result : Except Fault Reply}
    (ht : HasTurn (s.moves ms) roles w m (.finish result))
    (hstuck : ∀ f ∈ (s.moves ms).workers.stuck, f.kind.isOrdinary = true) {call : Call}
    (hs : w.stage.Suits call) (hc : call.closes = true) :
    Barred s (ms ++ [mv]) w.task ∨ HasClosed s (ms ++ [mv]) w.task call := by
  have hwarm : ((w.stage = .start .enter ∧ ∃ r, w.given = .ok r) ∨ ∃ point, w.stage = .enter point) →
      Barred s (ms ++ [mv]) w.task ∨ HasClosed s (ms ++ [mv]) w.task .enter := by
    intro henters
    have hwarmed := Calls.warmed_resume (by rw [ht.sameStaff_before.stuck]; exact hstuck) henters
    cases hr : w.warmed? with
    | none =>
      rw [hr, ht.resumed] at hwarmed
      cases hwarmed.1
    | some r => exact .inr ⟨r, mem_noted_snoc.2 (.inr ⟨w, hsome, hr, rfl⟩)⟩
  rcases cases_of_closes hs hc with hstage | ⟨rfl, henter⟩
  · rcases ht.given_of_start hstage with hg | hg
    · cases call with
      | close | leave => exact .inr (mem_closings hsome (by rw [Woken.closing?, hstage, hg]; rfl))
      | enter => exact hwarm (.inl ⟨hstage, _, hg⟩)
      | _ => cases hc
    · exact .inl ⟨w, mem_taken hsome, rfl, by rw [Woken.isBarred, hstage, hg]; rfl⟩
  · exact hwarm (.inr henter)

end

namespace Lifespan

variable {stuck : Option Fault}

/-- Nothing has happened yet. -/
theorem opened (c : Config) (world : World) (eager : Bool) (stuck : Option Fault) (log : List LogLine) :
    Lifespan c stuck (Service.opened c world eager stuck log) [] := by
  have hnot : ∀ {t call}, ¬ Began (Service.opened c world eager stuck log) [] call t := by
    rintro t call ⟨before, after, he, -⟩
    cases before <;> cases he
  refine ⟨trivial, ?_, ?_, ?_, nofun, .nil, nofun, nofun, fun hb => absurd hb hnot⟩
  · show (Service.opened c world eager stuck log).workers.stuck = stuck
    rw [opened_eq]
  · show (Service.opened c world eager stuck log).workers.dismissals = _
    rw [opened_eq]
    simp [noted, taken]
  · show (Service.opened c world eager stuck log).holdsWorkers = _
    rw [opened_eq]
    simp [noted, taken]

/-- What a tidy move counts. -/
theorem counted (h : Lifespan c stuck s ms) (ht : Tidy (s.moves ms) mv) :
    ((s.moves ms).move mv).workers.dismissals =
      (if 0 < c.workers then
        if stuck.isSome then (closings s (ms ++ [mv])).length else min 1 (closings s (ms ++ [mv])).length
      else 0) ∧
    ((s.moves ms).move mv).holdsWorkers =
      (decide (0 < c.workers) && (stuck.isSome || (closings s (ms ++ [mv])).isEmpty)) := by
  rw [closings, noted_snoc]
  unfold Tidy at ht
  cases hx : ((s.moves ms).turnOf? mv).bind Woken.closing? with
  | none =>
    have hsame : ((s.moves ms).turnOf? mv).bind (fun w => w.closing?.map (w.task, ·)) = none := by
      simp only [Option.bind_eq_none_iff, Option.map_eq_none_iff] at hx ⊢
      exact hx
    rw [hx] at ht
    rw [hsame, ht.dismissals, ht.holds]
    simpa using ⟨h.dismissals, h.holds⟩
  | some x =>
    obtain ⟨w, hw, hx'⟩ := Option.bind_eq_some_iff.1 hx
    rw [hx] at ht
    rw [hw, Option.bind_some, hx', ht.1.dismissals, ht.1.holds, h.dismissals, h.holds, h.stays]
    by_cases hpos : 0 < c.workers
    · cases stuck with
      | some f => simp [hpos]
      | none =>
        cases closings s ms with
        | nil => simp [hpos]
        | cons y ys => simp [hpos]
    · simp [hpos]

/-- A call that may close the service goes on as it should, or ends so. -/
theorem ends_step (h : Lifespan c stuck s ms) (ho : AtRest (s.moves ms) roles)
    (hstuck : ∀ f ∈ stuck, f.kind.isOrdinary = true)
    (hst : Step (s.moves ms) roles mv (s.moves (ms ++ [mv])) roles') {call : Call}
    (hb : Began s (ms ++ [mv]) call t) (hc : call.closes = true) :
    (∃ point on, (s.moves (ms ++ [mv])).loop.place? t = some (point, on) ∧ point.Suits call) ∨
      (Barred s (ms ++ [mv]) t ∨ HasClosed s (ms ++ [mv]) t call) ∧
        ∃ o, (s.moves (ms ++ [mv])).loop.outcome? t = some o := by
  rcases hb.of_snoc with hold | ⟨rfl, rfl⟩
  swap
  · refine .inl ⟨.start call, none, ?_, rfl⟩
    rw [moves_append]
    exact place?_spawned ..
  rcases h.ends hold hc with ⟨point, on, hp, hsuits⟩ | ⟨hclosed, o, hout⟩
  swap
  · exact .inr ⟨hasClosed_append hclosed mv, o, hst.outcome?_of_some hout⟩
  rcases hst.aside_or_given ho with ⟨-, ha⟩ | ⟨w, m, turn, hsome, ht, hmove, -⟩
  · exact .inl ⟨point, on, ha.stays hp, hsuits⟩
  by_cases hw : t = w.task
  swap
  · refine .inl ⟨point, on, ?_, hsuits⟩
    rw [hmove]
    exact ht.stays ho hw hp
  -- It is the task's own turn.
  subst hw
  obtain ⟨on', hplace⟩ := ht.place
  obtain rfl : point = w.stage := (Prod.mk.inj (Option.some.inj (hp.symm.trans hplace))).1
  have hcomes := Calls.comesTo_resume hsuits w.given w.before
  rw [ht.resumed] at hcomes
  rw [hmove]
  cases turn with
  | rest on point => exact .inl ⟨point, some on, by rw [place?_conclude, if_pos rfl], hcomes⟩
  | giveWay point => exact .inl ⟨point, none, by rw [place?_conclude, if_pos rfl], hcomes⟩
  | finish result =>
    exact .inr ⟨ht.hasClosed hsome (by rw [h.stays]; exact hstuck) hsuits hc, _,
      outcome?_finish ht.inTurn.unfinished.2 result⟩

/-- **Every step keeps the law.** -/
theorem step (h : Lifespan c stuck s ms) (hb : CallsBegun s ms) (ho : AtRest (s.moves ms) roles)
    (hstuck : ∀ f ∈ stuck, f.kind.isOrdinary = true)
    (hst : Step (s.moves ms) roles mv (s.moves (ms ++ [mv])) roles') :
    Lifespan c stuck s (ms ++ [mv]) := by
  have hmoves : s.moves (ms ++ [mv]) = (s.moves ms).move mv := moves_append ..
  have hnow : ∀ f ∈ (s.moves ms).workers.stuck, f.kind.isOrdinary = true := by
    rw [h.stays]
    exact hstuck
  have htidy : Tidy (s.moves ms) mv := (hmoves ▸ hst).tidy ho hnow
  obtain ⟨hdismissals, hholds⟩ := h.counted htidy
  rw [← hmoves] at hdismissals hholds
  refine ⟨(along_append ms [mv]).2 ⟨h.tidy, htidy, trivial⟩, ?_, hdismissals, hholds, ?_, ?_, ?_, ?_,
    h.ends_step ho hstuck hst⟩
  · rw [hmoves, htidy.stuck, h.stays]
  · intro t x hmem
    rcases mem_noted_snoc.1 hmem with hold | ⟨w, hsome, hx, rfl⟩
    · exact (h.begun hold).append [mv]
    · obtain ⟨m, turn, ht, -⟩ := hst.hasTurn ho hsome
      exact (ht.began_of_closing? hb hx).append [mv]
  · rw [closings, noted_snoc, List.map_append, List.nodup_append]
    refine ⟨h.single, ?_, ?_⟩
    · cases ((s.moves ms).turnOf? mv).bind fun w => w.closing?.map (w.task, ·) <;> simp
    · -- Who has closed the service has ended and has no turn any more.
      intro t ht t' ht' he
      obtain ⟨⟨t, x⟩, hmem, rfl⟩ := List.mem_map.1 ht
      obtain ⟨⟨t', x'⟩, hmem', rfl⟩ := List.mem_map.1 ht'
      obtain ⟨w, hsome, hx⟩ := Option.bind_eq_some_iff.1 (Option.mem_toList.1 hmem')
      obtain ⟨y, -, hy⟩ := Option.map_eq_some_iff.1 hx
      cases hy
      obtain ⟨m, turn, ht, -⟩ := hst.hasTurn ho hsome
      obtain ⟨on, hp⟩ := ht.place
      obtain rfl : t = w.task := he
      have hout := h.told hmem
      rw [outcome?_of_isPending (ho.isPending_of_place? hp)] at hout
      cases hout
  · intro t x hmem
    rcases mem_noted_snoc.1 hmem with hold | ⟨w, hsome, hx, rfl⟩
    · exact hst.outcome?_of_some (h.told hold)
    · obtain ⟨m, turn, ht, hmove⟩ := hst.hasTurn ho hsome
      have hstaff := ht.staffed hnow
      rw [hx, ← hmove] at hstaff
      rw [hstaff.2, hholds, List.isEmpty_eq_false_iff.2 (List.ne_nil_of_mem hmem), Bool.or_false]
  · intro t r hmem
    rcases mem_noted_snoc.1 hmem with hold | ⟨w, hsome, hr, rfl⟩
    · exact hst.outcome?_of_some (h.warmed hold)
    · obtain ⟨m, turn, ht, hmove⟩ := hst.hasTurn ho hsome
      rw [hmove]
      exact ht.warmed hnow hr

/-- A call that has ended, and was not cancelled before it began, has done what it is there for. -/
theorem hasClosed (h : Lifespan c stuck s ms) (ho : AtRest s roles) {call : Call} {o : Settled Reply}
    (hb : Began s ms call t) (hc : call.closes = true) (hbarred : ¬ Barred s ms t)
    (hout : (s.moves ms).loop.outcome? t = some o) : HasClosed s ms t call := by
  obtain ⟨_, ho'⟩ := ho.atRest_moves ms
  rcases h.ends hb hc with ⟨point, on, hp, -⟩ | ⟨hclosed, -⟩
  · rw [outcome?_of_isPending (ho'.isPending_of_place? hp)] at hout
    cases hout
  · exact hclosed.resolve_left hbarred

end Lifespan

/-! ## One lifespan -/

/-- The call has ended well. -/
def hasReturned (s : Service) (t : PromiseId) : Bool :=
  match s.loop.outcome? t with
  | some (.value _) => true
  | _ => false

/-- What may happen in a lifespan: one call enters the service, another one leaves it when it has been
    entered, and no other call begins that may close it. -/
def Encloses (enter leave : PromiseId) (s : Service) : Service.Move → Prop
  | .act (.spawn .enter) => s.loop.promises.size = enter
  | .act (.spawn (.leave _)) => s.loop.promises.size = leave ∧ s.hasReturned enter = true
  | .act (.spawn .close) => False
  | _ => True

instance (enter leave : PromiseId) (s : Service) (mv : Service.Move) :
    Decidable (Encloses enter leave s mv) := by
  unfold Encloses
  split <;> infer_instance

/-- The run is one lifespan, whose calls were not cancelled before they began. -/
structure Enclosed (s : Service) (ms : List Service.Move) (enter leave : PromiseId) : Prop where
  encloses : Along (Encloses enter leave) s ms
  enters : Began s ms .enter enter
  begins : ¬ Barred s ms enter ∧ ¬ Barred s ms leave

/-- The lifespan is over: the call that enters has failed, or the call that leaves has ended. -/
def IsOver (s : Service) (ms : List Service.Move) (enter leave : PromiseId) : Prop :=
  (∃ o, (s.moves ms).loop.outcome? enter = some o ∧ ∀ v, o ≠ .value v) ∨
    (∃ body, Began s ms (.leave body) leave) ∧ ∃ o, (s.moves ms).loop.outcome? leave = some o

theorem hasReturned_iff : s.hasReturned t = true ↔ ∃ v, s.loop.outcome? t = some (.value v) := by
  unfold hasReturned
  split
  · rename_i v hout
    exact ⟨fun _ => ⟨v, hout⟩, fun _ => rfl⟩
  · rename_i hnot
    exact ⟨nofun, fun ⟨v, hv⟩ => absurd hv (hnot v)⟩

/-- What every move of a run is, the one is that begins a call. -/
theorem Began.along {A : Service → Service.Move → Prop} {call : Call} (h : Began s ms call t)
    (hA : Along A s ms) :
    ∃ before after, ms = before ++ .act (.spawn call) :: after ∧ t = (s.moves before).loop.promises.size ∧
      A (s.moves before) (.act (.spawn call)) := by
  obtain ⟨before, after, rfl, rfl⟩ := h
  exact ⟨before, after, rfl, rfl, ((along_append before _).1 hA).2.1⟩

/-- A warm-up that comes to a fault closes the service. -/
theorem mem_closings_of_warmUps {f : Fault} (h : (t, .error f) ∈ warmUps s ms) :
    (t, .unentered f) ∈ closings s ms := by
  obtain ⟨w, hw, hr⟩ := List.mem_filterMap.1 h
  refine List.mem_filterMap.2 ⟨w, hw, ?_⟩
  obtain ⟨r, hr, he⟩ := Option.map_eq_some_iff.1 hr
  cases he
  have hx : w.closing? = w.warmed?.bind Closing.unentered? := by
    unfold Woken.warmed? at hr
    split at hr
    · rename_i hs
      rw [Woken.closing?, hs]
    · rename_i hs
      rw [Woken.closing?, hs]
    · cases hr
  rw [hx, hr]
  rfl

namespace Enclosed

variable {enter leave : PromiseId} {stuck : Option Fault}

/-- Who closes the service in a lifespan has failed to enter it, or leaves it when it has been entered. -/
theorem cases_of_closing (he : Enclosed s ms enter leave) (ho : AtRest s roles) (h : Lifespan c stuck s ms)
    {x : Closing} (hx : (t, x) ∈ closings s ms) :
    (∃ f, x = .unentered f) ∧ t = enter ∧ (s.moves ms).hasReturned enter = false ∨
      (∃ body, x = .left body) ∧ t = leave ∧ (s.moves ms).hasReturned enter = true := by
  obtain ⟨before, after, hms, rfl, hmove⟩ := (h.begun hx).along he.encloses
  cases x with
  | asked => exact hmove.elim
  | unentered f =>
    obtain rfl : _ = enter := hmove
    refine .inl ⟨⟨f, rfl⟩, rfl, ?_⟩
    rw [Bool.eq_false_iff]
    intro hreturned
    obtain ⟨v, hv⟩ := hasReturned_iff.1 hreturned
    rw [h.told hx] at hv
    cases Program.ended_eq_value.1 (Option.some.inj hv)
  | left body =>
    obtain ⟨rfl, hreturned⟩ : _ = leave ∧ _ := hmove
    refine .inr ⟨⟨body, rfl⟩, rfl, ?_⟩
    obtain ⟨v, hv⟩ := hasReturned_iff.1 hreturned
    obtain ⟨_, ho'⟩ := ho.atRest_moves before
    rw [hms, moves_append, hasReturned_iff]
    exact ⟨v, ho'.outcome?_moves hv _⟩

/-- The service is closed once at most. -/
theorem length_le (he : Enclosed s ms enter leave) (ho : AtRest s roles) (h : Lifespan c stuck s ms) :
    (closings s ms).length ≤ 1 := by
  have hsame : ∀ {y y'}, y ∈ closings s ms → y' ∈ closings s ms → y.1 = y'.1 := by
    rintro ⟨t, x⟩ ⟨t', x'⟩ hy hy'
    rcases he.cases_of_closing ho h hy with ⟨-, rfl, hr⟩ | ⟨-, rfl, hr⟩ <;>
      rcases he.cases_of_closing ho h hy' with ⟨-, rfl, hr'⟩ | ⟨-, rfl, hr'⟩
    · rfl
    · exact absurd (hr.symm.trans hr') (by decide)
    · exact absurd (hr.symm.trans hr') (by decide)
    · rfl
  have hsingle := h.single
  match hcl : closings s ms with
  | [] => exact Nat.zero_le 1
  | [_] => exact Nat.le_refl 1
  | y :: y' :: _ =>
    rw [hcl] at hsingle
    have hne : y.1 ≠ y'.1 := by
      simp only [List.map_cons, List.nodup_cons, List.mem_cons, not_or] at hsingle
      exact hsingle.1.1
    have hy : y ∈ closings s ms := by simp [hcl]
    have hy' : y' ∈ closings s ms := by simp [hcl]
    exact absurd (hsame hy hy') hne

/-- It is closed when the lifespan is over, and not before. -/
theorem isOver_iff (he : Enclosed s ms enter leave) (ho : AtRest s roles) (h : Lifespan c stuck s ms) :
    IsOver s ms enter leave ↔ closings s ms ≠ [] := by
  constructor
  · rintro (⟨o, hout, hnot⟩ | ⟨⟨body, hb⟩, o, hout⟩)
    · obtain ⟨r, hr⟩ := h.hasClosed ho he.enters rfl he.begins.1 hout
      cases r with
      | ok b =>
        cases hout.symm.trans (h.warmed hr)
        exact absurd rfl (hnot _)
      | error f => exact List.ne_nil_of_mem (mem_closings_of_warmUps hr)
    · exact List.ne_nil_of_mem (h.hasClosed ho hb rfl he.begins.2 hout)
  · intro hne
    obtain ⟨⟨t, x⟩, hx⟩ := List.exists_mem_of_ne_nil _ hne
    rcases he.cases_of_closing ho h hx with ⟨⟨f, rfl⟩, rfl, -⟩ | ⟨⟨body, rfl⟩, rfl, -⟩
    · exact .inl ⟨_, h.told hx, fun v hv => by cases Program.ended_eq_value.1 hv⟩
    · exact .inr ⟨⟨body, h.begun hx⟩, _, h.told hx⟩

end Enclosed

/-- What has become of the workers in a lifespan: until it is over nothing; then dismissing them was tried
    once, and they are given up unless that failed. -/
structure Dismissed (c : Config) (stuck : Option Fault) (finished : Prop) (s : Service) : Prop where
  early : ¬ finished → s.workers.dismissals = 0 ∧ s.holdsWorkers = decide (0 < c.workers)
  late : finished → s.workers.dismissals = (decide (0 < c.workers)).toNat ∧
    s.holdsWorkers = (decide (0 < c.workers) && stuck.isSome)

/-- **A lifespan always cleans up, and hides no fault.**  In every run of a new service, on any configuration
    and in any world, whatever is called and cancelled, and whether or not its workers can be dismissed: who
    closes the service, or enters it in vain, is told of his own faults and no others; and in a lifespan the
    workers are dismissed once. -/
theorem cleans_up (config : Config) (world : World) (eager : Bool) (stuck : Option Fault)
    (log : List LogLine) (ms : List Service.Move) (hstuck : ∀ f ∈ stuck, f.kind.isOrdinary = true) :
    Lifespan config stuck (opened config world eager stuck log) ms ∧
      ∀ enter leave, Enclosed (opened config world eager stuck log) ms enter leave →
        Dismissed config stuck (IsOver (opened config world eager stuck log) ms enter leave)
          ((opened config world eager stuck log).moves ms) := by
  have ho := (Ordered.opened config world eager stuck log).rest
  obtain ⟨_, _, h, -⟩ := exists_course (A := fun _ _ => True)
    (I := fun ms _ _ => Lifespan config stuck (opened config world eager stuck log) ms ∧
      CallsBegun (opened config world eager stuck log) ms)
    ho ⟨.opened .., .opened ..⟩
    (fun ho _ _ ⟨h, hb⟩ hst => ⟨h.step hb ho hstuck hst, hb.step ho hst⟩) ms
    (along_of_forall (fun _ _ => trivial) ms)
  refine ⟨h, fun enter leave he => ?_⟩
  have hover := he.isOver_iff ho h
  have hle := he.length_le ho h
  refine ⟨fun hnot => ?_, fun hyes => ?_⟩
  · rw [hover, not_not] at hnot
    rw [h.dismissals, h.holds, hnot]
    simp
  · have hone : (closings (opened config world eager stuck log) ms).length = 1 :=
      Nat.le_antisymm hle (List.length_pos_of_ne_nil (hover.1 hyes))
    have hempty : (closings (opened config world eager stuck log) ms).isEmpty = false :=
      List.isEmpty_eq_false_iff.2 (hover.1 hyes)
    rw [h.dismissals, h.holds, hone, hempty]
    by_cases hpos : 0 < config.workers <;> simp [hpos]

/-- The fault of workers that cannot be dismissed. -/
def busy : Fault := .plain .running "busy"

/-- The server enters a service without an engine, and leaves it with a fault. -/
def visit : List Service.Move :=
  .act (.spawn .enter) :: List.replicate 7 (.serve 0) ++
    [.act (.spawn (.leave (some (.plain .value "broken")))), .serve 0]

/-- The workers stay; the fault is passed on. -/
theorem cleans_up_visit :
    (∀ f ∈ some busy, f.kind.isOrdinary = true) ∧
      Lifespan { bootAttempts := 1 } (some busy) (opened { bootAttempts := 1 } {} true (some busy) []) visit ∧
      Enclosed (opened { bootAttempts := 1 } {} true (some busy) []) visit 0 4 ∧
      ((opened { bootAttempts := 1 } {} true (some busy) []).moves visit).loop.outcome? 4 =
        some (.value .passedOn) ∧
      ((opened { bootAttempts := 1 } {} true (some busy) []).moves visit).workers.dismissals = 1 ∧
      ((opened { bootAttempts := 1 } {} true (some busy) []).moves visit).holdsWorkers = true := by
  have hstuck : ∀ f ∈ some busy, f.kind.isOrdinary = true := by
    rintro f ⟨⟩
    rfl
  have henclosed : Enclosed (opened { bootAttempts := 1 } {} true (some busy) []) visit 0 4 :=
    ⟨by decide +kernel, ⟨[], _, rfl, rfl⟩, by decide +kernel⟩
  obtain ⟨hlaw, hclosed⟩ := cleans_up { bootAttempts := 1 } {} true (some busy) [] visit hstuck
  have hleaves : Began (opened { bootAttempts := 1 } {} true (some busy) []) visit
      (.leave (some (.plain .value "broken"))) 4 :=
    ⟨.act (.spawn .enter) :: List.replicate 7 (.serve 0), [.serve 0], rfl, by decide +kernel⟩
  obtain ⟨v, hv⟩ := hasReturned_iff.1 (show hasReturned
    ((opened { bootAttempts := 1 } {} true (some busy) []).moves visit) 4 = true by decide +kernel)
  have hout := hlaw.told (hlaw.hasClosed (Ordered.opened ..).rest hleaves rfl henclosed.begins.2 hv)
  obtain ⟨hdismissals, hholds⟩ := (hclosed 0 4 henclosed).late (.inr ⟨⟨_, hleaves⟩, _, hv⟩)
  exact ⟨hstuck, hlaw, henclosed, hout, hdismissals, hholds⟩

/-- The next closing tries again. -/
example : ((opened { bootAttempts := 1 } {} true (some busy) []).moves
    (visit ++ [.act (.spawn .close), .serve 0])).workers.dismissals = 2 := by decide +kernel

end SourceTrees.Service
