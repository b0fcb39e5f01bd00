import SourceTrees.Proofs.Flight.Moves
import SourceTrees.Proofs.Loop.Cancels

/-!
# What callers receive

A caller that has attached to an operation rests on a shield of it.  Unless the caller is cancelled
itself, nothing but the end of the operation settles that shield, so that whatever else happens the
caller ends as the operation ended.

## Results

* `Callers.Follows` — the invariant of one caller and its operation; `Callers.Follows.step` — every move
  keeps it, but the cancellation of the caller.
* `Callers.Follows.receives` — the caller has the outcome, or it is on its way.
-/

set_option autoImplicit false

namespace SourceTrees.Flight.Callers

open Loop

/-- The caller has the outcome of the operation, or the operation has not ended, or an errand is on the
    agenda that hands the outcome on. -/
def Receives (s : Callers) (c op : PromiseId) : Prop :=
  (∃ o, s.loop.outcome? op = some o ∧ s.loop.outcome? c = some o) ∨
  (s.loop.isPending c = true ∧ (s.loop.isPending op = true ∨
    ∃ outer, .react (.relay outer) op ∈ s.loop.agenda ∨ .react (.wake c) outer ∈ s.loop.agenda))

/-- The caller rests on a shield that has no outcome but the operation's, or has ended with it. -/
inductive Follows (roles : Roles String Empty) (s : Callers) (c op : PromiseId) : Prop
  | waiting {outer : PromiseId} {key : String}
      (ht : s.loop.tasks.get? c = some { point := .attached, restsOn := some outer })
      (hs : roles outer = .shield op) (hr : roles op = .operation key)
      (ho : ∀ {o}, s.loop.outcome? outer = some o → s.loop.outcome? op = some o)
  | served {o : Settled Json} (hop : s.loop.outcome? op = some o) (hc : s.loop.outcome? c = some o)

variable {roles roles' : Roles String Empty} {s s' : Callers} {m : Move} {t c op : PromiseId}

theorem outcome?_step (hstep : Step roles s m roles' s') {p : PromiseId} {o : Settled Json}
    (ho : s.loop.outcome? p = some o) : s'.loop.outcome? p = some o := by
  cases hstep with
  | idle _ => exact ho
  | carried hi hw hk => exact ((Later.pick hi hk).trans (Later.effect _)).outcome ho
  | forgotten hi => exact ho
  | called name key work => exact (Later.spawn _).outcome ho
  | cancelled t _ => exact (Later.cancelTask t).outcome ho
  | opened hg outcome => exact (Later.settle ..).outcome ho
  | ended begun hw hr => exact ((Later.wakes hw).trans (Later.conclude ..)).outcome ho
  | joined hw hp hm hr =>
    exact (((Later.wakes hw).trans (Later.shield _)).trans (Later.conclude ..)).outcome ho
  | launched hw hp hm hn hwork =>
    exact ((((Later.wakes hw).trans (later_launch ..)).trans (Later.shield _)).trans
      (Later.conclude ..)).outcome ho
  | gated hw hp =>
    exact (((Later.wakes hw).trans Later.promise).trans (Later.conclude ..)).outcome ho

/-- A task that ends with what a promise gave it ends as the promise was settled, unless that was a
    cancellation that had been put for a fault. -/
theorem ended_result {o : Settled Json} (h : ∀ f, o = .failed f → f.kind ≠ .cancelled) :
    Program.ended o.result = o := by
  cases o with
  | value v => rfl
  | failed f =>
    show (if f.kind = .cancelled then Settled.cancelled else .failed f) = .failed f
    rw [if_neg (h f rfl)]
  | cancelled => rfl

/-- A cancellation from outside leaves who rests alone on a promise, and is not meant, alone. -/
theorem cancelMember_other {l : Loop Json CallerPoint String} (h : l.Sound roles none l.promises.size)
    {task : Task CallerPoint} {outer : PromiseId} (hc : l.tasks.get? c = some task)
    (hon : task.restsOn = some outer) (hne : c ≠ t) :
    (l.cancelMember t).2.tasks.get? c = some task ∧
      (l.cancelMember t).2.outcome? outer = l.outcome? outer := by
  have hmark : (l.mark t).tasks.get? c = some task := by
    rw [get?_tasks_mark, hc, Option.map_some, if_neg hne]
  unfold Loop.cancelMember
  split
  · exact ⟨hc, rfl⟩
  · rename_i task' ht
    split
    · rename_i p hr
      split
      · refine ⟨by rw [tasks_settle]; exact hc, ?_⟩
        rw [outcome?_settle, if_neg]
        rintro ⟨rfl, _⟩
        exact hne (h.tended.alone (by simp) (by simp) hc ht hon hr)
      · exact ⟨hmark, rfl⟩
    · exact ⟨hmark, rfl⟩

/-- The caller still rests, and no new outcome has come to its shield but the operation's. -/
theorem Follows.still {outer : PromiseId} {key : String} (hr : Extends roles roles')
    (hstep : Step roles s m roles' s') (hs : roles outer = .shield op)
    (hop : roles op = .operation key)
    (ho : ∀ {o}, s.loop.outcome? outer = some o → s.loop.outcome? op = some o)
    (ht : s'.loop.tasks.get? c = some { point := .attached, restsOn := some outer })
    (hnew : ∀ {o}, s'.loop.outcome? outer = some o →
      s.loop.outcome? outer = some o ∨ s.loop.outcome? op = some o) : Follows roles' s' c op := by
  refine .waiting ht (hr.eq hs (by simp)) (hr.eq hop (by simp)) fun ho' => ?_
  exact outcome?_step hstep ((hnew ho').elim ho id)

/-- The turn of another task. -/
theorem Follows.turn {outer : PromiseId} {key : String} {i : Nat} {task : Task CallerPoint}
    {given : Except Fault Json} (turn : Turn CallerPoint Json) (l : Loop Json CallerPoint String)
    (hl : s'.loop = Program.conclude t turn l) (h : Ordered roles s) (hr : Extends roles roles') (hstep : Step roles s m roles' s')
    (hs : roles outer = .shield op) (hop : roles op = .operation key)
    (ho : ∀ {o}, s.loop.outcome? outer = some o → s.loop.outcome? op = some o)
    (hw : s.loop.Wakes i t task given) (hne : c ≠ t)
    (ht : l.tasks.get? c = some { point := .attached, restsOn := some outer })
    (hout : l.outcome? outer = s.loop.outcome? outer) : Follows roles' s' c op := by
  refine .still hr hstep hs hop ho ?_ fun ho' => .inl ?_
  · rw [hl, get?_tasks_conclude hne]
    exact ht
  · rw [hl, outcome?_conclude, hout] at ho'
    · exact ho'
    · rintro rfl
      have htask := h.sound.isTask hw.unfinished
      rw [hs] at htask
      cases htask

/-- The turn of the caller itself: it ends as the operation has ended. -/
theorem Follows.serve (h : Ordered roles s) {i : Nat} {task : Task CallerPoint}
    {given result : Except Fault Json} {outer : PromiseId} {key : String}
    (hw : s.loop.Wakes i c task given) (begun : List String)
    (ht : s.loop.tasks.get? c = some { point := .attached, restsOn := some outer })
    (hop : roles op = .operation key)
    (ho : ∀ {o}, s.loop.outcome? outer = some o → s.loop.outcome? op = some o)
    (hr : (resume task.point (Program.met task given) { s with loop := s.loop.pick i }).1 =
      .finish result) :
    Follows roles { s with begun, loop := Program.conclude c (.finish result) (s.loop.pick i) }
      c op := by
  have hlater : s.loop.Later (Program.conclude c (.finish result) (s.loop.pick i)) :=
    (Later.wakes hw).trans (Later.conclude ..)
  have htask := hw.unfinished
  rw [ht] at htask
  cases htask
  obtain ⟨o, hout, rfl⟩ := hw.gives
  have hend := ho hout
  have hmet : Program.met { point := CallerPoint.attached, restsOn := some outer } o.result =
      o.result := by
    unfold Program.met
    split <;> simp
  rw [hmet] at hr
  cases hr
  have hkind : ∀ f, o = .failed f → f.kind ≠ .cancelled := by
    rintro f rfl
    exact h.sound.assigned.ending (by rw [hop]; rfl) hend
  refine .served (hlater.outcome hend) ?_
  have hc := outcome?_finish (V := Json) (l := s.loop.pick i) (h.sound.isPending ht)
  exact (hc _).trans (congrArg some (ended_result hkind))

/-- **A caller that is not cancelled follows its operation.** -/
theorem Follows.step (h : Ordered roles s) (hstep : Step roles s m roles' s')
    (hf : Follows roles s c op) (hm : m ≠ .cancel c) : Follows roles' s' c op := by
  have hr := (h.step hstep).2
  rcases hf with ⟨ht, hs, hop, ho⟩ | ⟨hop, hc⟩
  swap
  · exact .served (outcome?_step hstep hop) (outcome?_step hstep hc)
  rename_i outer key
  have hplace := h.placed (place?_of_get? ht)
  have hlt : outer < s.loop.promises.size := h.sound.assigned.lt_size (by simp [hs])
  have hcall : roles c = .call := hplace.1
  have hother : ∀ {t task}, s.loop.tasks.get? t = some task → task.point ≠ .attached → c ≠ t := by
    rintro t task htask hp rfl
    rw [ht] at htask
    cases htask
    exact hp rfl
  have hsame := hstep
  cases hstep with
  | idle _ => exact .waiting ht hs hop ho
  | @carried i e hi hw hk =>
    refine .still hr hsame hs hop ho ?_ fun ho' => outcome?_effect_shield h.sound hi hs ho'
    rw [tasks_effect]
    exact ht
  | forgotten hi => exact .still hr hsame hs hop ho ht .inl
  | called name key work =>
    refine .still hr hsame hs hop ho ?_ fun ho' => .inl ?_
    · rw [get?_tasks_spawn, if_neg (Nat.ne_of_lt (h.sound.known ht))]
      exact ht
    · rw [outcome?_spawn] at ho'
      exact ho'
  | cancelled t hc =>
    have hne : c ≠ t := by
      rintro rfl
      rcases hc with rfl | ⟨key, _, he⟩
      · exact hm rfl
      · have hr := (h.kept.entry he).1
        rw [hcall] at hr
        cases hr
    obtain ⟨ht', ho'⟩ := cancelMember_other h.sound ht rfl hne
    rw [← cancelTask_eq h.alone] at ht' ho'
    exact .still hr hsame hs hop ho ht' fun hout => .inl (ho' ▸ hout)
  | opened hg outcome =>
    refine .still hr hsame hs hop ho ?_ fun ho' => .inl ?_
    · rw [tasks_settle]
      exact ht
    · rw [outcome?_settle, if_neg] at ho'
      · exact ho'
      · rintro ⟨rfl, _⟩
        have hgate := h.gates hg
        rw [hs] at hgate
        cases hgate
  | @ended i t task given result begun hw hres =>
    by_cases hne : c = t
    · subst hne
      exact Follows.serve h hw begun ht hop ho hres
    · exact .turn (.finish result) (s.loop.pick i) rfl h hr hsame hs hop ho hw hne ht rfl
  | @joined i t op' task given name key work hw hp hmark hrun =>
    refine .turn (.rest ..) ((s.loop.pick i).shield op').2 rfl h hr hsame hs hop ho hw
      (hother hw.unfinished (by simp [hp])) ?_ ?_
    · rw [Loop.shield, tasks_subscribe]
      exact ht
    · rw [Loop.shield, outcome?_subscribe, outcome?_promise]
      rfl
  | @launched i t task given name key work hw hp hmark hn hwork =>
    refine .turn (.rest ..)
      ((s.flight.launch (s.loop.pick i) key (.beginning name work) key).2.2.shield
        s.loop.promises.size).2
      rfl h hr hsame hs hop ho hw (hother hw.unfinished (by simp [hp])) ?_ ?_
    · have hold : c ≠ (s.loop.pick i).promises.size := Nat.ne_of_lt (h.sound.known ht)
      rw [Loop.shield, tasks_subscribe, tasks_promise, launch, tasks_subscribe, get?_tasks_spawn,
        if_neg hold]
      exact ht
    · rw [Loop.shield, outcome?_subscribe, outcome?_promise, launch, outcome?_subscribe,
        outcome?_spawn]
      rfl
  | @gated i t task given name hw hp =>
    refine .turn (.rest ..) (s.loop.pick i).promise.2 rfl h hr hsame hs hop ho hw
      (hother hw.unfinished (by simp [hp])) ht ?_
    rw [outcome?_promise]
    rfl

/-- The invariant through a run. -/
theorem Follows.moves (later : List Move) : ∀ {roles : Roles String Empty} {s : Callers},
    Ordered roles s → Follows roles s c op → Move.cancel c ∉ later →
      ∃ roles', Ordered roles' (s.moves later) ∧ Follows roles' (s.moves later) c op := by
  induction later with
  | nil => exact fun h hf _ => ⟨_, h, hf⟩
  | cons m later ih =>
    intro roles s h hf hc
    obtain ⟨roles', hstep⟩ := exists_step h m
    rw [List.mem_cons, not_or] at hc
    exact ih (h.step hstep).1 (hf.step h hstep (Ne.symm hc.1)) hc.2

/-- The outcome of the operation has reached the caller, or it is on its way. -/
theorem Follows.receives (h : Ordered roles s) (hf : Follows roles s c op) : s.Receives c op := by
  rcases hf with @⟨outer, key, ht, hs, hop, ho⟩ | ⟨hop, hc⟩
  · refine .inr ⟨h.sound.isPending ht, ?_⟩
    have hlt : op < s.loop.promises.size := h.sound.assigned.lt_size (by simp [hop])
    rcases isPending_or_settled hlt with hopen | ⟨o, hend⟩
    · exact .inl hopen
    · refine .inr ⟨outer, ?_⟩
      have hlt' : outer < s.loop.promises.size := h.sound.assigned.lt_size (by simp [hs])
      rcases isPending_or_settled hlt' with hopen | ⟨o', hend'⟩
      · refine .inl ((h.sound.assigned.relayed hs hopen).resolve_left fun hsub => ?_)
        have := hsub.isPending
        rw [isPending_of_outcome? hend] at this
        cases this
      · refine .inr ((h.sound.tended.resting (by simp) ht rfl).2.resolve_left fun hsub => ?_)
        have := hsub.isPending
        rw [isPending_of_outcome? hend'] at this
        cases this
  · exact .inl ⟨_, hop, hc⟩

end SourceTrees.Flight.Callers
