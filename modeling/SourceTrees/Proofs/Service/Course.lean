import Mathlib.Data.List.Induction
import SourceTrees.Proofs.Service.Operations

/-!
# The course of a call

From its start a call rests at one stage after the other, until it ends.  A property of calls is told by
the stages to which a call can come and by the outcomes it can have; it is enough to look at single turns.

## Results

* `Service.Began` — the call was begun in the course of a run, as a task.
* `Service.Becomes` — the call rests at a stage of some kind, or it has ended as said.
* `Service.Becomes.step`, `Service.exists_becomes` — what every turn of the call keeps, every run keeps.
* `Service.CameTo` — the task rests at a stage of some kind, or it did on the way.
* `Service.taken` — the turns of a run.
* `Service.Barred` — the task was cancelled before it had begun; then its call does nothing.
-/

set_option autoImplicit false

namespace SourceTrees.Service

open Loop

variable {s s' : Service} {roles roles' : Roles Hook Job} {w : Woken} {m : Midst} {mv : Service.Move}
  {ms : List Service.Move} {c : PromiseId} {call : Call} {turn : Turn Stage Reply}
  {K : Service → Stage → Prop} {Q : Service → Settled Reply → Prop}

/-- A call that has just been begun rests at its start. -/
theorem place?_spawned (s : Service) (call : Call) :
    (s.move (.act (.spawn call))).loop.place? s.loop.promises.size = some (.start call, none) := by
  show (s.loop.spawn _).2.place? _ = _
  rw [place?_spawn, if_pos rfl]

/-- In the course of the run the call was begun, as the task. -/
def Began (s : Service) (ms : List Service.Move) (call : Call) (c : PromiseId) : Prop :=
  ∃ before after, ms = before ++ .act (.spawn call) :: after ∧ c = (s.moves before).loop.promises.size

theorem Began.now (ms : List Service.Move) (call : Call) :
    Began s (ms ++ [.act (.spawn call)]) call (s.moves ms).loop.promises.size :=
  ⟨ms, [], rfl, rfl⟩

/-- What a run has begun, a longer run has begun. -/
theorem Began.append (h : Began s ms call c) (more : List Service.Move) :
    Began s (ms ++ more) call c := by
  obtain ⟨before, after, rfl, rfl⟩ := h
  exact ⟨before, after ++ more, by simp, rfl⟩

/-- A call that a run has begun was begun before the last move, or by it. -/
theorem Began.of_snoc (h : Began s (ms ++ [mv]) call c) :
    Began s ms call c ∨ mv = .act (.spawn call) ∧ c = (s.moves ms).loop.promises.size := by
  obtain ⟨before, after, he, rfl⟩ := h
  rcases List.eq_nil_or_concat after with rfl | ⟨rest, mv', rfl⟩
  · obtain ⟨rfl, hlast⟩ := List.append_inj' he rfl
    exact .inr ⟨(List.cons.inj hlast).1, rfl⟩
  · rw [List.concat_eq_append, ← List.cons_append, ← List.append_assoc] at he
    obtain ⟨rfl, _⟩ := List.append_inj' he rfl
    exact .inl ⟨before, rest, rfl, rfl⟩

/-- The task rests at a stage of the kind, or it has ended as said. -/
def Becomes (K : Service → Stage → Prop) (Q : Service → Settled Reply → Prop) (s : Service)
    (c : PromiseId) : Prop :=
  (∃ point on, s.loop.place? c = some (point, on) ∧ K s point) ∨
    ∃ o, s.loop.outcome? c = some o ∧ Q s o

/-- The turn comes to a stage of the kind, or ends the task as said. -/
def Goes (K : Stage → Prop) (Q : Settled Reply → Prop) : Turn Stage Reply → Prop
  | .rest _ point | .giveWay point => K point
  | .finish result => Q (Program.ended result)

theorem Goes.mono {K K' : Stage → Prop} {Q Q' : Settled Reply → Prop} (h : Goes K Q turn)
    (hK : ∀ point, K point → K' point) (hQ : ∀ o, Q o → Q' o) : Goes K' Q' turn := by
  cases turn with
  | rest on point => exact hK _ h
  | giveWay point => exact hK _ h
  | finish result => exact hQ _ h

/-- What the parts of a turn lead to is what the turn comes to. -/
theorem HasTurn.of_leads (ht : HasTurn s roles w m turn) {P : Turn Stage Reply → Midst → Prop}
    (h : Leads w ⟨w.before, roles, w.stage.grip⟩ (Calls.resume w.stage w.given w.before) P) :
    ∃ m', Strides w ⟨w.before, roles, w.stage.grip⟩ m' ∧ m'.service = m.service ∧ P turn m' := by
  obtain ⟨m', hst, hs, hp⟩ := h ⟨ht.started, roles, .refl⟩
  rw [ht.resumed] at hs hp
  exact ⟨m', hst, hs, hp⟩

/-- The service after a turn. -/
abbrev Midst.after (m : Midst) (t : PromiseId) (turn : Turn Stage Reply) : Service :=
  { m.service with loop := Program.conclude t turn m.service.loop }

/-- A move that gives a task its turn is that turn. -/
theorem Step.hasTurn (ho : AtRest s roles) (hst : Step s roles mv s' roles') (hsome : s.turnOf? mv = some w) :
    ∃ m turn, HasTurn s roles w m turn ∧ s' = m.after w.task turn := by
  rcases hst.aside_or_given ho with ⟨hnone, -⟩ | ⟨w', m, turn, hsome', ht, hmove, -⟩
  · cases hsome.symm.trans hnone
  · cases hsome.symm.trans hsome'
    exact ⟨m, turn, ht, hmove⟩

/-- The turn ends the task with the result. -/
theorem HasTurn.outcome?_of_finish (ht : HasTurn s roles w m turn) {result : Except Fault Reply}
    (h : (Calls.resume w.stage w.given w.before).1 = .finish result) :
    (m.after w.task turn).loop.outcome? w.task = some (Program.ended result) := by
  rw [ht.resumed] at h
  obtain rfl : turn = .finish result := h
  exact outcome?_finish ht.inTurn.unfinished.2 result

/-- A task that rests on nothing goes on, unless it has been cancelled. -/
theorem HasTurn.given_of_nothing (ht : HasTurn s roles w m turn) (hs : w.stage.rest = .nothing) :
    w.given = .ok default ∨ w.given = .error .cancellation := by
  obtain ⟨task, given, hget, _, hplaced, hgives, hmet⟩ := ht.woken
  have hrest := hplaced.rest
  rw [hs] at hrest
  unfold Loop.Gives at hgives
  rw [show task.restsOn = none from hrest] at hgives
  obtain rfl : given = .ok default := hgives
  rw [hmet, Program.met]
  split
  · exact .inr rfl
  · exact .inl rfl

/-- So does a task that has not begun yet. -/
theorem HasTurn.given_of_start (ht : HasTurn s roles w m turn) {call : Call} (hs : w.stage = .start call) :
    w.given = .ok default ∨ w.given = .error .cancellation :=
  ht.given_of_nothing (by rw [hs]; rfl)

/-- What becomes of the task is told by its own turns. -/
theorem Becomes.step (h : Becomes K Q s c) (ho : AtRest s roles) (hst : Step s roles mv s' roles')
    (hturn : ∀ {w m turn}, HasTurn s roles w m turn → w.task = c → K s w.stage →
      s' = m.after w.task turn → roles' = m.roles → Goes (K s') (Q s') turn)
    (hstay : ∀ point, K s point → K s' point) (hkeep : ∀ o, Q s o → Q s' o) : Becomes K Q s' c := by
  rcases h with ⟨point, on, hp, hk⟩ | ⟨o, hout, hq⟩
  · rcases hst.stays_or_turn ho hp with hp' | ⟨w, m, turn, ht, rfl, rfl, rfl, rfl⟩
    · exact .inl ⟨point, on, hp', hstay point hk⟩
    · have hgoes := hturn ht rfl hk rfl rfl
      cases turn with
      | rest on' point' =>
        exact .inl ⟨point', some on', by rw [place?_conclude, if_pos rfl], hgoes⟩
      | giveWay point' => exact .inl ⟨point', none, by rw [place?_conclude, if_pos rfl], hgoes⟩
      | finish result => exact .inr ⟨_, outcome?_finish ht.inTurn.unfinished.2 result, hgoes⟩
  · exact .inr ⟨o, hst.outcome?_of_some hout, hkeep o hq⟩

/-- Every step keeps what is known of the state, and the task's turns and all steps keep what is said of
    the task. -/
structure Keeps (A : Service → Service.Move → Prop) (I : Service → Roles Hook Job → Prop)
    (c : PromiseId) (K : Service → Stage → Prop) (Q : Service → Settled Reply → Prop) : Prop where
  step : ∀ {s s' roles roles' mv}, AtRest s roles → AtRest s' roles' → A s mv → I s roles →
    Step s roles mv s' roles' → I s' roles'
  turn : ∀ {s roles mv w m turn}, AtRest s roles → A s mv → I s roles → HasTurn s roles w m turn →
    w.task = c → I (m.after w.task turn) m.roles → K s w.stage →
    Goes (K (m.after w.task turn)) (Q (m.after w.task turn)) turn
  stay : ∀ {s s' roles roles' mv point}, AtRest s roles → I s roles → Step s roles mv s' roles' →
    I s' roles' → K s point → K s' point
  keep : ∀ {s s' roles roles' mv o}, AtRest s roles → I s roles → Step s roles mv s' roles' →
    I s' roles' → Q s o → Q s' o

section

variable {A : Service → Service.Move → Prop} {I : Service → Roles Hook Job → Prop}

/-- What every turn of a task keeps, every run keeps. -/
theorem Becomes.along (hk : Keeps A I c K Q) (ho : AtRest s roles) (hA : Along A s ms) (hI : I s roles)
    (hb : Becomes K Q s c) :
    ∃ roles', AtRest (s.moves ms) roles' ∧ I (s.moves ms) roles' ∧ Becomes K Q (s.moves ms) c := by
  have hkept : ∀ {now next : Service} {roles roles' mv}, AtRest now roles → AtRest next roles' →
      A now mv → I now roles ∧ Becomes K Q now c → Step now roles mv next roles' →
      I next roles' ∧ Becomes K Q next c := by
    intro now next roles roles' mv ho ho' hmv ⟨hI, hb⟩ hst
    have hI' := hk.step ho ho' hmv hI hst
    refine ⟨hI', hb.step ho hst (fun ht hc hp he hr => ?_) (fun _ => hk.stay ho hI hst hI')
      fun _ => hk.keep ho hI hst hI'⟩
    subst he hr
    exact hk.turn ho hmv hI ht hc hI' hp
  obtain ⟨roles', ho', _, hI', hb'⟩ := exists_along hkept ms ho hA ⟨hI, hb⟩
  exact ⟨roles', ho', hI', hb'⟩

/-- What every turn of a call keeps, every run keeps from its start on. -/
theorem exists_becomes (hk : Keeps A I c K Q) (hstart : ∀ s, K s (.start call)) (ho : AtRest s roles)
    (hA : Along A s ms) (hI : I s roles) (hc : Began s ms call c) :
    ∃ roles', AtRest (s.moves ms) roles' ∧ I (s.moves ms) roles' ∧ Becomes K Q (s.moves ms) c := by
  obtain ⟨before, after, rfl, rfl⟩ := hc
  obtain ⟨hbefore, hspawn, hafter⟩ := (along_append before _).1 hA
  obtain ⟨roles₁, ho₁, _, hI₁⟩ := exists_along hk.step before ho hbefore hI
  obtain ⟨roles₂, hst⟩ := exists_step ho₁ (.act (.spawn call))
  have ho₂ := (ho₁.step hst).1
  have hbegun : Becomes K Q ((s.moves before).move (.act (.spawn call)))
      (s.moves before).loop.promises.size := by
    refine .inl ⟨.start call, none, ?_, hstart _⟩
    show ((s.moves before).loop.spawn (.start call)).2.place? _ = _
    rw [place?_spawn, if_pos rfl]
  have hfin := hbegun.along hk ho₂ hafter (hk.step ho₁ ho₂ hspawn hI₁ hst)
  rw [moves_append]
  exact hfin

/-- A call that has ended has ended as said. -/
theorem outcome_of_began (hk : Keeps A I c K Q) (hstart : ∀ s, K s (.start call)) (ho : AtRest s roles)
    (hA : Along A s ms) (hI : I s roles) (hc : Began s ms call c) {o : Settled Reply}
    (hout : (s.moves ms).loop.outcome? c = some o) : Q (s.moves ms) o := by
  obtain ⟨_, ho', _, hb⟩ := exists_becomes hk hstart ho hA hI hc
  rcases hb with ⟨point, on, hp, _⟩ | ⟨o', hout', hq⟩
  · rw [outcome?_of_isPending (ho'.isPending_of_place? hp)] at hout
    cases hout
  · cases hout.symm.trans hout'
    exact hq

/-- A call that rests somewhere rests at a stage of the kind. -/
theorem stage_of_began (hk : Keeps A I c K Q) (hstart : ∀ s, K s (.start call)) (ho : AtRest s roles)
    (hA : Along A s ms) (hI : I s roles) (hc : Began s ms call c) {point : Stage}
    {on : Option PromiseId} (hp : (s.moves ms).loop.place? c = some (point, on)) :
    K (s.moves ms) point := by
  obtain ⟨_, ho', _, hb⟩ := exists_becomes hk hstart ho hA hI hc
  rcases hb with ⟨point', on', hp', hpoint⟩ | ⟨o, hout, _⟩
  · cases hp.symm.trans hp'
    exact hpoint
  · rw [outcome?_of_isPending (ho'.isPending_of_place? hp)] at hout
    cases hout

end

/-- What has been settled stays so, however the run goes on. -/
theorem Ordered.outcome?_moves {o : Settled Reply} (ho : AtRest s roles)
    (h : s.loop.outcome? c = some o) (ms : List Service.Move) :
    (s.moves ms).loop.outcome? c = some o := by
  obtain ⟨_, _, _, h'⟩ := exists_atRest (I := fun now _ => now.loop.outcome? c = some o)
    (fun _ _ h hst => hst.outcome?_of_some h) ms ho h
  exact h'

/-! ## Where tasks came to rest -/

/-- On the way, or at its end, the task rests at a stage of the kind. -/
def CameTo (R : Stage → Prop) (s : Service) (ms : List Service.Move) (t : PromiseId) : Prop :=
  ∃ before after, ms = before ++ after ∧
    ∃ point on, (s.moves before).loop.place? t = some (point, on) ∧ R point

namespace CameTo

variable {R : Stage → Prop}

theorem now {point : Stage} {on : Option PromiseId}
    (h : (s.moves ms).loop.place? c = some (point, on)) (hk : R point) : CameTo R s ms c :=
  ⟨ms, [], (List.append_nil ms).symm, point, on, h, hk⟩

theorem append (h : CameTo R s ms c) (after : List Service.Move) : CameTo R s (ms ++ after) c := by
  obtain ⟨before, rest, rfl, h⟩ := h
  exact ⟨before, rest ++ after, List.append_assoc .., h⟩

/-- A task has come to a stage before the last move, or it rests there now. -/
theorem of_snoc (h : CameTo R s (ms ++ [mv]) c) :
    CameTo R s ms c ∨ ∃ point on, (s.moves (ms ++ [mv])).loop.place? c = some (point, on) ∧ R point := by
  obtain ⟨before, after, he, h⟩ := h
  rcases List.eq_nil_or_concat after with rfl | ⟨after, mv', rfl⟩
  · rw [List.append_nil] at he
    exact .inr (he ▸ h)
  · rw [List.concat_eq_append, ← List.append_assoc] at he
    exact .inl ⟨before, after, (List.append_inj' he rfl).1, h⟩

end CameTo

/-- Whatever every step keeps, given the moves that led to it, a run keeps. -/
theorem exists_course {A : Service → Service.Move → Prop}
    {I : List Service.Move → Service → Roles Hook Job → Prop} (ho : AtRest s roles)
    (hstart : I [] s roles)
    (hstep : ∀ {ms roles roles' mv}, AtRest (s.moves ms) roles →
      AtRest (s.moves (ms ++ [mv])) roles' → A (s.moves ms) mv → I ms (s.moves ms) roles →
      Step (s.moves ms) roles mv (s.moves (ms ++ [mv])) roles' →
      I (ms ++ [mv]) (s.moves (ms ++ [mv])) roles') :
    ∀ ms : List Service.Move, Along A s ms →
      ∃ roles', AtRest (s.moves ms) roles' ∧ I ms (s.moves ms) roles' := by
  intro ms
  induction ms using List.reverseRecOn with
  | nil => exact fun _ => ⟨roles, ho, hstart⟩
  | append_singleton ms mv ih =>
    intro hA
    obtain ⟨hms, hmv, _⟩ := (along_append ms [mv]).1 hA
    obtain ⟨roles₁, ho₁, hI₁⟩ := ih hms
    obtain ⟨roles₂, hst⟩ := exists_step ho₁ mv
    have hmove : s.moves (ms ++ [mv]) = (s.moves ms).move mv := moves_append ..
    rw [← hmove] at hst
    have ho₂ := (ho₁.step hst).1
    exact ⟨roles₂, ho₂, hstep ho₁ ho₂ hmv hI₁ hst⟩

/-! ## The turns of a run -/

/-- The turns that tasks have had in the course of a run. -/
def taken : Service → List Service.Move → List Woken
  | _, [] => []
  | s, mv :: ms => (s.turnOf? mv).toList ++ taken (s.move mv) ms

theorem taken_append (ms ms' : List Service.Move) : ∀ {s : Service},
    taken s (ms ++ ms') = taken s ms ++ taken (s.moves ms) ms' := by
  induction ms with
  | nil => exact rfl
  | cons mv ms ih =>
    intro s
    show _ ++ taken (s.move mv) (ms ++ ms') = _
    rw [ih]
    exact (List.append_assoc ..).symm

theorem taken_snoc (mv : Service.Move) :
    taken s (ms ++ [mv]) = taken s ms ++ ((s.moves ms).turnOf? mv).toList := by
  rw [taken_append]
  exact congrArg _ (List.append_nil _)

theorem mem_taken (hsome : (s.moves ms).turnOf? mv = some w) : w ∈ taken s (ms ++ [mv]) := by
  rw [taken_snoc, hsome]
  exact List.mem_append_right _ (List.mem_singleton_self w)

/-- The task has been cancelled before it has begun. -/
def Woken.isBarred (w : Woken) : Bool :=
  match w.stage, w.given with
  | .start _, .error f => f.kind = .cancelled
  | _, _ => false

/-- The task was cancelled before it began. -/
def Barred (s : Service) (ms : List Service.Move) (t : PromiseId) : Prop :=
  ∃ w ∈ taken s ms, w.task = t ∧ w.isBarred = true

instance (t : PromiseId) : Decidable (Barred s ms t) :=
  inferInstanceAs (Decidable (∃ w ∈ taken s ms, w.task = t ∧ w.isBarred = true))

/-! ## Operations of a run -/

/-- The operations are the tasks that have come to run in their place. -/
def Recorded (s : Service) (ms : List Service.Move) (roles : Roles Hook Job) : Prop :=
  ∀ t k, roles t = .operation k ↔ CameTo (fun point => point.role = .operation k) s ms t

namespace Recorded

theorem opened (config : Config) (world : World) (eager : Bool) (stuck : Option Fault)
    (log : List LogLine) : Recorded (Service.opened config world eager stuck log) [] fun _ => .unused := by
  refine fun t k => ⟨nofun, ?_⟩
  rintro ⟨before, after, he, point, on, hp, _⟩
  obtain ⟨rfl, _⟩ := List.append_eq_nil_iff.1 he.symm
  have hp' : (Service.opened config world eager stuck log).loop.place? t = some (point, on) := hp
  simp [place?, Keyed.get?, Keyed.empty, Keyed.lookIn] at hp'

theorem step (h : Recorded s ms roles) (ho : AtRest (s.moves ms) roles)
    (hst : Step (s.moves ms) roles mv (s.moves (ms ++ [mv])) roles') :
    Recorded s (ms ++ [mv]) roles' := by
  obtain ⟨ho', hext⟩ := ho.step hst
  refine fun t k => ⟨fun hr => ?_, fun hc => ?_⟩
  · by_cases hold : roles t = .operation k
    · exact ((h t k).1 hold).append [mv]
    · obtain ⟨point, on, hp⟩ := hst.place?_of_new ho hr hold
      exact .now hp ((ho'.placed hp).role.symm.trans hr)
  · rcases hc.of_snoc with hc | ⟨point, on, hp, hk⟩
    · exact hext.eq ((h t k).2 hc) (by simp)
    · exact (ho'.placed hp).role.trans hk

end Recorded

end SourceTrees.Service
