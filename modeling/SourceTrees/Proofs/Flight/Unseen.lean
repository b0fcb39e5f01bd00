import SourceTrees.Proofs.Flight.Twins

/-!
# Cancelled waiters are not seen

Callers that wait for the outcome of an operation are cancelled.  Whoever is not one of them cannot tell:
the run in which they are cancelled and the run in which they are not agree, whenever they have come
equally far, in the table and the counters of the flight, in what every operation and every other caller
does, and in how they end, whatever callers come later, and even if nobody is left who waits.

## Results

* `Callers.Leaving` — the invariant of a caller that is cancelled while it waits.
* `Callers.Unseen` — the law of a run and a set of callers; `Callers.cancelled_unseen` — it holds if each
  caller of the set is cancelled while it waits.
-/

set_option autoImplicit false

namespace SourceTrees.Flight.Callers

open Loop

variable {C : Finset PromiseId} {H : PromiseId → Prop} {roles roles' : Roles String Empty}
  {s s' : Callers} {m : Move} {ms ms' : List Move} {t c : PromiseId}

/-! ## One caller of the set -/

/-- The order through a run. -/
theorem exists_extends (h : Ordered roles s) (ms : List Move) :
    ∃ roles', Extends roles roles' ∧ Ordered roles' (s.moves ms) := by
  induction ms generalizing roles s with
  | nil => exact ⟨roles, .refl _, h⟩
  | cons m ms ih =>
    obtain ⟨roles', hstep⟩ := exists_step h m
    obtain ⟨h', hext⟩ := h.step hstep
    obtain ⟨roles'', hext', h''⟩ := ih h'
    exact ⟨roles'', hext.trans hext', h''⟩

/-- What every step keeps, a run keeps. -/
theorem keeps_moves {I : Callers → Prop}
    (hI : ∀ {roles roles' s s' m}, Ordered roles s → Step roles s m roles' s' → I s → I s')
    (h : Ordered roles s) (hs : I s) (ms : List Move) : I (s.moves ms) := by
  induction ms generalizing roles s with
  | nil => exact hs
  | cons m ms ih =>
    obtain ⟨roles', hstep⟩ := exists_step h m
    exact ih (h.step hstep).1 (hI h hstep hs)

theorem lt_size_step (h : Ordered roles s) (hstep : Step roles s m roles' s')
    (hc : c < s.loop.promises.size) : c < s'.loop.promises.size := by
  obtain ⟨h', hext⟩ := h.step hstep
  have hne := h.sound.assigned.role_ne_unused hc
  refine h'.sound.assigned.lt_size ?_
  rw [hext c hne]
  exact hne

/-- The caller has asked: it does not wait to have its first turn. -/
def HasAsked (c : PromiseId) (s : Callers) : Prop :=
  c < s.loop.promises.size ∧
    ∀ task, s.loop.tasks.get? c = some task → ∀ name key work, task.point ≠ .arriving name key work

theorem HasAsked.step (h : Ordered roles s) (hstep : Step roles s m roles' s')
    (ha : HasAsked c s) : HasAsked c s' := by
  refine ⟨lt_size_step h hstep ha.1, fun task' ht' => ?_⟩
  cases Comes.of_step h hstep ht' with
  | same ht => exact ha.2 task' ht
  | @marked task ht he =>
    have hold := ha.2 task ht
    rw [he]
    exact hold
  | fresh hle _ => exact absurd ha.1 (Nat.not_lt.2 hle)
  | attached _ _ _ _ he => simp [he]
  | gated _ _ _ he => simp [he]

/-- The caller is cancelled before it has asked, so that it never asks. -/
def Forestalled (c : PromiseId) (s : Callers) : Prop :=
  c < s.loop.promises.size ∧ ∀ task, s.loop.tasks.get? c = some task →
    task.marked = true ∧ ∃ name key work, task.point = .arriving name key work

theorem Forestalled.step (h : Ordered roles s) (hstep : Step roles s m roles' s')
    (hf : Forestalled c s) : Forestalled c s' := by
  refine ⟨lt_size_step h hstep hf.1, fun task' ht' => ?_⟩
  cases Comes.of_step h hstep ht' with
  | same ht => exact hf.2 task' ht
  | @marked task ht he =>
    have hold := (hf.2 task ht).2
    rw [he]
    exact ⟨rfl, hold⟩
  | fresh hle _ => exact absurd hf.1 (Nat.not_lt.2 hle)
  | attached ht _ hm _ _ =>
    rw [(hf.2 _ ht).1] at hm
    cases hm
  | gated ht hp _ _ =>
    obtain ⟨_, name, key, work, hp'⟩ := hf.2 _ ht
    rw [hp] at hp'
    cases hp'

/-- The caller was cancelled while it waited: a cancellation is on its way to it, or has ended it. -/
inductive Leaving (c : PromiseId) (s : Callers) : Prop
  | resting {task : Task CallerPoint} {outer : PromiseId} {o : Settled Json}
      (ht : s.loop.tasks.get? c = some task) (hp : task.point = .attached)
      (hon : task.restsOn = some outer) (ho : s.loop.outcome? outer = some o)
      (hc : o = .cancelled ∨ task.marked = true)
  | gone (h : s.loop.outcome? c = some .cancelled)

/-- The caller has been cancelled, or its next turn is on the agenda. -/
def Dismissed (s : Callers) (c : PromiseId) : Prop :=
  s.outcome? c = some .cancelled ∨
    s.loop.isPending c = true ∧ ∃ outer, .react (.wake c) outer ∈ s.loop.agenda

/-- A cancellation that a task meets cancels it. -/
theorem ended_met {task : Task CallerPoint} {o : Settled Json}
    (h : o = .cancelled ∨ task.marked = true) :
    Program.ended (Program.met task o.result) = .cancelled := by
  have hkind : Fault.cancellation.kind = .cancelled := rfl
  have hended : Program.ended (.error .cancellation : Except Fault Json) = .cancelled := by
    simp [Program.ended, hkind]
  have hmet : Program.met task (.error .cancellation : Except Fault Json) = .error .cancellation := by
    simp [Program.met]
  cases o with
  | cancelled => exact (congrArg Program.ended hmet).trans hended
  | value v =>
    have hm := h.resolve_left (by simp)
    simp [Program.met, Settled.result, hm, hended]
  | failed f =>
    have hm := h.resolve_left (by simp)
    by_cases hk : f.kind = .cancelled
    · simp [Program.met, Settled.result, hk, Program.ended]
    · simp [Program.met, Settled.result, hm, hk, hended]

theorem Leaving.step (h : Ordered roles s) (hstep : Step roles s m roles' s')
    (hl : Leaving c s) : Leaving c s' := by
  cases hl with
  | gone ho => exact .gone (outcome?_step hstep ho)
  | @resting task outer o ht hp hon ho hc =>
    cases hg : s'.loop.tasks.get? c with
    | none =>
      obtain ⟨i, given, result, hw, hr, hend⟩ := ended_of_gone h hstep ht hg
      have hgives := hw.gives
      unfold Gives at hgives
      simp only [hon] at hgives
      obtain ⟨o', ho', rfl⟩ := hgives
      rw [ho] at ho'
      cases ho'
      have hresult : result = Program.met task o.result := by
        rw [hp] at hr
        cases hmet : Program.met task o.result with
        | error f =>
          rw [hmet] at hr
          exact (Turn.finish.inj hr).symm
        | ok v =>
          rw [hmet] at hr
          exact (Turn.finish.inj hr).symm
      rw [hresult, ended_met hc] at hend
      exact .gone hend
    | some task' =>
      have ho' := outcome?_step hstep ho
      have hlt := h.sound.known ht
      cases Comes.of_step h hstep hg with
      | same hold =>
        rw [ht] at hold
        cases hold
        exact .resting hg hp hon ho' hc
      | marked hold he =>
        rw [ht] at hold
        cases hold
        refine .resting hg ?_ ?_ ho' (.inr ?_)
        · rw [he]
          exact hp
        · rw [he]
          exact hon
        · rw [he]
      | fresh hle _ => exact absurd hlt (Nat.not_lt.2 hle)
      | attached hold hp' _ _ _ =>
        rw [ht] at hold
        cases hold
        rw [hp] at hp'
        cases hp'
      | gated hold hp' _ _ =>
        rw [ht] at hold
        cases hold
        rw [hp] at hp'
        cases hp'

/-- A caller that is cancelled while it waits is leaving. -/
theorem leaving_of_cancel (h : Ordered roles s) (hw : s.Waits c) : Leaving c (s.move (.cancel c)) := by
  obtain ⟨outer, hplace⟩ := hw
  obtain ⟨task, ht, hp, hon⟩ := place?_eq_some_iff.1 hplace
  have hmove : s.move (.cancel c) = { s with loop := (s.loop.cancelMember c).2 } := by
    simp [move, apply, cancelTask_eq h.alone]
  have hlt : outer < s.loop.promises.size := (h.sound.tended.resting (by simp) ht hon).1
  rw [hmove]
  rcases isPending_or_settled hlt with hopen | ⟨o, ho⟩
  · have hcancel : (s.loop.cancelMember c).2 = s.loop.settle outer .cancelled := by
      simp [Loop.cancelMember, ht, hon, hopen]
    rw [hcancel]
    refine .resting ?_ hp hon ?_ (.inl rfl)
    · rw [tasks_settle]
      exact ht
    · rw [outcome?_settle, if_pos ⟨rfl, hopen⟩]
  · have hcancel : (s.loop.cancelMember c).2 = s.loop.mark c := by
      simp [Loop.cancelMember, ht, hon, isPending_of_outcome? ho]
    rw [hcancel]
    have ht' : (s.loop.mark c).tasks.get? c = some { task with marked := true } := by
      rw [get?_tasks_mark, ht]
      simp
    exact .resting ht' hp hon ho (.inr rfl)

theorem Leaving.dismissed (h : Ordered roles s) (hl : Leaving c s) : s.Dismissed c := by
  cases hl with
  | gone ho => exact .inl ho
  | @resting task outer o ht hp hon ho hc =>
    refine .inr ⟨h.sound.isPending ht, outer, ?_⟩
    refine (h.sound.tended.resting (by simp) ht hon).2.resolve_left fun hsub => ?_
    have hopen := hsub.isPending
    rw [isPending_of_outcome? ho] at hopen
    cases hopen

/-! ## Each caller of the set is cancelled while it waits -/

/-- Each caller of the set is cancelled in the run at a moment when it waits. -/
def Withdrawn (C : Finset PromiseId) (ms : List Move) : Prop :=
  ∀ c ∈ C, ∃ a b, ms = a ++ .cancel c :: b ∧ (moves {} a).Waits c

/-- A caller that waits at some moment is not cancelled before it has asked. -/
theorem Withdrawn.late (h : Withdrawn C ms) {a b : List Move} (hc : c ∈ C)
    (hms : ms = a ++ .cancel c :: b) (name key : String) (work : Work) (on : Option PromiseId) :
    (moves {} a).loop.place? c ≠ some (.arriving name key work, on) := by
  intro hplace
  obtain ⟨a', b', hms', outer, hwait⟩ := h c hc
  obtain ⟨roles, hord⟩ := exists_ordered_moves .init a
  obtain ⟨roles', hord'⟩ := exists_ordered_moves .init a'
  have hpre : a <+: ms := ⟨_, hms.symm⟩
  have hpre' : a' <+: ms := ⟨_, hms'.symm⟩
  rcases List.prefix_or_prefix_of_prefix hpre hpre' with ⟨d, rfl⟩ | ⟨d, rfl⟩
  · -- the cancellation comes first, and forestalls the request
    cases d with
    | nil =>
      rw [List.append_nil, hplace] at hwait
      cases hwait
    | cons m d =>
      have hm : m = .cancel c := by
        rw [hms, List.append_assoc] at hms'
        exact (List.cons.inj (List.append_cancel_left hms')).1.symm
      subst hm
      obtain ⟨roles₁, hstep⟩ := exists_step hord (.cancel c)
      obtain ⟨task, ht, hp, hon⟩ := place?_eq_some_iff.1 hplace
      have hfore : Forestalled c ((moves {} a).move (.cancel c)) := by
        have hplaced := hord.placed hplace
        have hnone : task.restsOn = none := hon.trans hplaced.2
        refine ⟨lt_size_step hord hstep (hord.sound.known ht), fun task' ht' => ?_⟩
        have hmove : (moves {} a).move (.cancel c) =
            { moves {} a with loop := (moves {} a).loop.mark c } := by
          simp [move, apply, cancelTask_eq hord.alone, Loop.cancelMember, ht, hnone]
        rw [hmove] at ht'
        replace ht' := (get?_tasks_mark (l := (moves {} a).loop)).symm.trans ht'
        rw [ht] at ht'
        simp only [Option.map_some, if_true, Option.some.injEq] at ht'
        rw [← ht']
        exact ⟨rfl, name, key, work, hp⟩
      have hend := keeps_moves (fun h hs => Forestalled.step h hs) (hord.step hstep).1 hfore d
      rw [moves_append] at hwait
      obtain ⟨task', ht', hp', _⟩ := place?_eq_some_iff.1 hwait
      obtain ⟨_, name', key', work', hp''⟩ := hend.2 task' ht'
      rw [hp'] at hp''
      cases hp''
  · -- the caller has asked already
    obtain ⟨task, ht, hp, _⟩ := place?_eq_some_iff.1 hwait
    have hasked : HasAsked c (moves {} a') := by
      refine ⟨hord'.sound.known ht, fun task' ht' => ?_⟩
      rw [ht] at ht'
      cases ht'
      rw [hp]
      simp
    have hend := keeps_moves (fun h hs => HasAsked.step h hs) hord' hasked d
    rw [moves_append] at hplace
    obtain ⟨task', ht', hp', _⟩ := place?_eq_some_iff.1 hplace
    exact hend.2 task' ht' _ _ _ hp'

/-- A caller that waits at some moment is never an operation. -/
theorem Withdrawn.noOperation (h : Withdrawn C ms) {a : List Move} (hpre : a <+: ms) :
    NoOperation C (moves {} a) := by
  intro c hc point on hplace
  obtain ⟨a', b', hms', outer, hwait⟩ := h c hc
  have hpre' : a' <+: ms := ⟨_, hms'.symm⟩
  have hcall : ∀ {roles}, Ordered roles (moves {} a') → roles c = .call :=
    fun h => (h.placed hwait).1
  have hop : ∀ {roles}, Ordered roles (moves {} a) → point.isOperation = true →
      ∃ key, roles c = .operation key := by
    intro roles h hk
    have hplaced := h.placed hplace
    cases point with
    | arriving name key work => cases hk
    | attached => cases hk
    | beginning name work => exact hplaced.1
    | gated => exact hplaced.1
  refine Bool.eq_false_iff.2 fun hk => ?_
  rcases List.prefix_or_prefix_of_prefix hpre hpre' with ⟨d, rfl⟩ | ⟨d, rfl⟩
  · obtain ⟨roles, hord⟩ := exists_ordered_moves .init a
    obtain ⟨roles', hext, hord'⟩ := exists_extends hord d
    rw [← moves_append] at hord'
    obtain ⟨key, hr⟩ := hop hord hk
    have hr' := hext.eq hr (by simp)
    rw [hcall hord'] at hr'
    cases hr'
  · obtain ⟨roles, hord⟩ := exists_ordered_moves .init a'
    obtain ⟨roles', hext, hord'⟩ := exists_extends hord d
    rw [← moves_append] at hord'
    obtain ⟨key, hr⟩ := hop hord' hk
    have hr' := hext.eq (hcall hord) (by simp)
    rw [hr] at hr'
    cases hr'

theorem Withdrawn.proper (h : Withdrawn C ms) {a b : List Move} (hms : ms = a ++ m :: b) :
    Proper C (moves {} a) m := by
  constructor
  · rintro c hc rfl name key work on
    exact h.late hc hms name key work on
  · have hpre : a ++ [m] <+: ms := ⟨b, by simp [hms]⟩
    have hno := h.noOperation hpre
    rw [moves_append] at hno
    exact hno

/-! ## The law -/

/-- The task is unfinished at some moment of the run. -/
def Ran (ms : List Move) (t : PromiseId) : Prop :=
  ∃ a, a <+: ms ∧ ((moves {} a).loop.tasks.get? t).isSome = true

/-- Everyone outside the set is as well off after the one run as after the other. -/
structure SameOutside (C : Finset PromiseId) (ms ms' : List Move) : Prop where
  flight : (moves {} ms').flight = (moves {} ms).flight
  begun : (moves {} ms').begun = (moves {} ms).begun
  gates : (moves {} ms').gates = (moves {} ms).gates
  /-- Operations and other callers are at the same points, resting on the same promises. -/
  tasks : ∀ {t}, t ∉ C → (moves {} ms').loop.tasks.get? t = (moves {} ms).loop.tasks.get? t
  /-- They have ended alike. -/
  ends : ∀ {t}, t ∉ C → Ran ms t → (moves {} ms').outcome? t = (moves {} ms).outcome? t

/-- The cancellations of the callers of the set are not seen from outside of it. -/
structure Unseen (C : Finset PromiseId) (ms : List Move) : Prop where
  /-- There is the same run without the cancellations, and it keeps the order of the agenda if the run
      does. -/
  companion : ∃ ms', (∀ c ∈ C, Move.cancel c ∉ ms') ∧ seenMoves C ms' {} = seenMoves C ms {} ∧
    ((∀ i, Move.serve i ∈ ms → i = 0) → ∀ i, Move.serve i ∈ ms' → i = 0)
  /-- At every moment of the run, a run without the cancellations that has come as far is no different. -/
  same : ∀ {a ms'}, a <+: ms → (∀ c ∈ C, Move.cancel c ∉ ms') →
    seenMoves C ms' {} = seenMoves C a {} → SameOutside C a ms'
  dismissed : ∀ c ∈ C, (moves {} ms).Dismissed c

/-- Two runs in step, one of them from the start of the other. -/
theorem Withdrawn.same (h : Withdrawn C ms) {a : List Move} (hpre : a <+: ms)
    (hc : ∀ c ∈ C, Move.cancel c ∉ ms') (hseen : seenMoves C ms' {} = seenMoves C a {}) :
    SameOutside C a ms' := by
  have hproper : ∀ x m y, a = x ++ m :: y → Proper C (moves {} x) m := by
    intro x m y ha
    obtain ⟨b, hb⟩ := hpre
    exact h.proper (b := y ++ b) (by rw [← hb, ha]; simp)
  obtain ⟨H, roles, roles', _, _, ht⟩ := Twins.init.moves a hproper hc hseen
  refine ⟨ht.alike.flight, ht.alike.begun, ht.alike.gates, fun {t} htC => ?_, fun {t} htC hran => ?_⟩
  · by_cases hH : H t
    · have hnone : ∀ {roles s}, Ordered roles s → Aside C H roles s → s.loop.tasks.get? t = none := by
        intro roles s hord ha
        cases hg : s.loop.tasks.get? t with
        | none => rfl
        | some task => exact absurd (ha.mem_of_task hord hH hg).1 htC
      rw [hnone ht.left ht.leftAside, hnone ht.right ht.rightAside]
    · exact ht.alike.loop.task hH
  · -- the two runs up to the moment at which the task is unfinished, and from there on
    obtain ⟨x, ⟨y, rfl⟩, hg⟩ := hran
    rw [seenMoves_append] at hseen
    obtain ⟨x', y', rfl, hx, hy⟩ := exists_split hseen
    have hcx : ∀ c ∈ C, Move.cancel c ∉ x' := fun c hC hm => hc c hC (List.mem_append_left _ hm)
    have hcy : ∀ c ∈ C, Move.cancel c ∉ y' := fun c hC hm => hc c hC (List.mem_append_right _ hm)
    obtain ⟨H₁, roles₁, roles₁', _, _, h₁⟩ := Twins.init.moves x
      (fun a m b ha => hproper a m (b ++ y) (by rw [ha]; simp)) hcx hx
    obtain ⟨H₂, roles₂, roles₂', hext, _, h₂⟩ := h₁.moves y (fun a m b ha => by
      have hp := hproper (x ++ a) m b (by rw [ha]; simp)
      rw [moves_append] at hp
      exact hp) hcy hy
    obtain ⟨task, hg⟩ := Option.isSome_iff_exists.1 hg
    have htask : (roles₂ t).isTask = true := by
      have hr := h₁.left.sound.isTask hg
      rw [hext t (h₁.left.sound.assigned.role_ne_unused (h₁.left.sound.known hg))]
      exact hr
    have hnot : ¬ H₂ t := by
      intro hH
      rcases h₂.leftAside.role hH with ⟨hC, _⟩ | ⟨op, hr⟩
      · exact htC hC
      · rw [hr] at htask
        cases htask
    rw [moves_append, moves_append]
    exact h₂.alike.loop.outcome? hnot

/-- **Cancelled waiters are not seen**, be they all who wait, and the one who started the operation among
    them. -/
theorem cancelled_unseen (C : Finset PromiseId) (ms : List Move) (h : Withdrawn C ms) :
    Unseen C ms where
  companion := Twins.init.exists_companion ms fun _ _ _ hms => h.proper hms
  same hpre hc hseen := h.same hpre hc hseen
  dismissed c hc := by
    obtain ⟨a, b, rfl, hw⟩ := h c hc
    obtain ⟨roles, hord⟩ := exists_ordered_moves .init a
    obtain ⟨roles₁, hstep⟩ := exists_step hord (.cancel c)
    have hord₁ := (hord.step hstep).1
    have hl := keeps_moves (fun h hs => Leaving.step h hs) hord₁ (leaving_of_cancel hord hw) b
    obtain ⟨roles₂, _, hord₂⟩ := exists_extends hord₁ b
    rw [moves_append]
    exact hl.dismissed hord₂

/-- Two callers share an operation, and both are cancelled while it waits at its gate. -/
def deserted : List Move :=
  [.call "a" "k" .gate, .call "b" "k" .gate, .serve 0, .serve 0, .serve 0, .cancel 0, .cancel 1,
    .serve 0, .serve 0, .call "c" "k" .gate, .serve 0, .finish "a" (.ok .null), .serve 0, .serve 0,
    .serve 0, .serve 0, .serve 0, .serve 0]

/-- The operation that both have left ends, and a caller that came later has its outcome. -/
theorem cancelled_unseen_deserted :
    Withdrawn {0, 1} deserted ∧ Unseen {0, 1} deserted := by
  have h : Withdrawn {0, 1} deserted := by
    intro c hc
    rw [Finset.mem_insert, Finset.mem_singleton] at hc
    rcases hc with rfl | rfl
    · exact ⟨deserted.take 5, deserted.drop 6, rfl, 3, rfl⟩
    · exact ⟨deserted.take 6, deserted.drop 7, rfl, 4, rfl⟩
  exact ⟨h, cancelled_unseen {0, 1} deserted h⟩

end SourceTrees.Flight.Callers
