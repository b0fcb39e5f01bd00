import SourceTrees.Proofs.Flight.Outcomes
import Mathlib.Data.Finset.Card

/-!
# Run once per key

Whatever happens to a flight, in whatever order: at most one operation of a key is unfinished, a caller
starts an operation only if there is none, and else it attaches to the one there is; every caller that is
not cancelled itself gets the outcome of that operation.

An operation of a key is told by its hook, which the flight adds when it starts the operation, and which
stays with the operation until it has ended and the errand of the hook has been served.

## Results

* `Callers.RunOnce` — the law of a state; `Callers.run_once` — every run obeys it, and the counters tell
  how many operations were started and how many callers attached.
-/

set_option autoImplicit false

namespace SourceTrees.Flight

open Loop

/-- Does a task that rests here run an operation? -/
def CallerPoint.isOperation : CallerPoint → Bool
  | beginning .. | gated => true
  | _ => false

/-- Is a caller that rests here attached to an operation? -/
def CallerPoint.isAttached : CallerPoint → Bool
  | attached => true
  | _ => false

namespace Callers

/-- The unfinished tasks that rest at a point of some kind. -/
def restingAt (s : Callers) (kind : CallerPoint → Bool) : Finset PromiseId :=
  (Finset.range s.loop.promises.size).filter fun t => (s.loop.place? t).any fun p => kind p.1

/-- How many tasks come to rest at a point of some kind in a run. -/
def arrivals (kind : CallerPoint → Bool) : List Move → Callers → Nat
  | [], _ => 0
  | m :: ms, s =>
    ((s.move m).restingAt kind \ s.restingAt kind).card + arrivals kind ms (s.move m)

/-- The operations that are created in a run. -/
def executions : List Move → Callers → Nat := arrivals CallerPoint.isOperation

/-- The callers that are attached in a run. -/
def attachments : List Move → Callers → Nat := arrivals CallerPoint.isAttached

/-- The operation is one of the key and has not ended. -/
def Unfinished (s : Callers) (key : String) (op : PromiseId) : Prop :=
  s.loop.Subscribed op (.hook key)

/-- The errand at the place gives the caller its turn, in which it asks for the key. -/
def Asks (s : Callers) (i : Nat) (c : PromiseId) (key : String) (work : Work) : Prop :=
  ∃ task given name, s.loop.Wakes i c task given ∧ task.point = .arriving name key work ∧
    task.marked = false

/-- The caller rests on a shield of the operation. -/
def Awaits (s : Callers) (c op : PromiseId) : Prop :=
  ∃ outer, s.loop.place? c = some (.attached, some outer) ∧ s.loop.Due op (.relay outer)

/-- The caller is attached to the operation, and whatever happens then, except that the caller is
    cancelled, it receives the outcome. -/
def Bound (s : Callers) (c op : PromiseId) : Prop :=
  s.Awaits c op ∧ ∀ later, Move.cancel c ∉ later → (s.moves later).Receives c op

/-- The law of a state, and of what can happen next. -/
structure RunOnce (s : Callers) : Prop where
  /-- Operations are the tasks that are told by their hooks. -/
  told : ∀ t, (∃ key, s.Unfinished key t) ↔ t ∈ s.restingAt CallerPoint.isOperation
  single : ∀ {key op op'}, s.Unfinished key op → s.Unfinished key op' → op = op'
  joins : ∀ {i c key work op}, s.Asks i c key work → s.Unfinished key op →
    (s.move (.serve i)).Bound c op ∧ (s.move (.serve i)).flight = s.flight.join
  starts : ∀ {i c key work}, s.Asks i c key work → (∀ op, ¬ s.Unfinished key op) →
    (∀ f, work ≠ .refused f) → ∃ op, s.loop.promises.size ≤ op ∧
      (s.move (.serve i)).Unfinished key op ∧ (s.move (.serve i)).Bound c op
  /-- Work that cannot be begun starts no operation; its fault comes out of the caller. -/
  refuses : ∀ {i c key f}, s.Asks i c key (.refused f) → (∀ op, ¬ s.Unfinished key op) →
    (s.move (.serve i)).loop.outcome? c = some (Program.ended (.error f)) ∧
      (s.move (.serve i)).flight = s.flight
  /-- No operation comes to be in another way. -/
  onlyAsked : ∀ {m op}, op ∈ (s.move m).restingAt CallerPoint.isOperation →
    op ∉ s.restingAt CallerPoint.isOperation → ∃ i c key work, m = .serve i ∧
      s.Asks i c key work ∧ (∀ op', ¬ s.Unfinished key op') ∧ (s.move m).Unfinished key op
  mapped : ∀ {key op}, s.Unfinished key op →
    s.flight.inFlight key = true ∧ s.flight.entries.get? key = some op
  /-- The late hook of an older operation leaves the entry of a newer one. -/
  spared : ∀ {i key older newer}, s.loop.agenda[i]? = some (.react (.hook key) older) →
    s.flight.entries.get? key = some newer → newer ≠ older →
    (s.move (.serve i)).flight.entries.get? key = some newer
  cleared : ∀ {key}, (∀ op, ¬ s.loop.Due op (.hook key)) → s.flight.inFlight key = false

variable {roles roles' : Roles String Empty} {s s' : Callers} {m : Move} {t c op : PromiseId}
  {key : String} {i : Nat} {work : Work} {kind : CallerPoint → Bool}

/-! ## Unfinished operations -/

theorem unfinished_iff (h : Ordered roles s) :
    s.Unfinished key op ↔ roles op = .operation key ∧ s.loop.isPending op = true := by
  constructor
  · intro hu
    exact ⟨h.sound.assigned.fits (.inl hu), hu.isPending⟩
  · rintro ⟨hr, hp⟩
    rcases (h.kept.entry (h.kept.current hr hp)).2 with hd | hd
    · exact hd
    · obtain ⟨o, ho⟩ := h.sound.tended.settled hd
      rw [isPending_of_outcome? ho] at hp
      cases hp

theorem running?_iff_unfinished (h : Ordered roles s) :
    s.flight.running? s.loop key = some op ↔ s.Unfinished key op := by
  rw [h.kept.running?_iff, unfinished_iff h]
  rfl

theorem running?_eq_none_iff_unfinished (h : Ordered roles s) :
    s.flight.running? s.loop key = none ↔ ∀ op, ¬ s.Unfinished key op := by
  rw [Option.eq_none_iff_forall_ne_some]
  exact forall_congr' fun op => not_congr (running?_iff_unfinished h)

theorem mem_restingAt (h : Ordered roles s) :
    t ∈ s.restingAt kind ↔ (s.loop.place? t).any (fun p => kind p.1) = true := by
  unfold restingAt
  rw [Finset.mem_filter, and_iff_right_iff_imp, Option.any_eq_true]
  rintro ⟨p, hp, _⟩
  obtain ⟨task, ht, _⟩ := place?_eq_some_iff.1 hp
  exact Finset.mem_range.2 (h.sound.known ht)

/-- An operation is unfinished while its task is. -/
theorem told (h : Ordered roles s) :
    (∃ key, s.Unfinished key t) ↔ t ∈ s.restingAt CallerPoint.isOperation := by
  rw [mem_restingAt h, Option.any_eq_true]
  constructor
  · rintro ⟨key, hu⟩
    obtain ⟨hr, hp⟩ := (unfinished_iff h).1 hu
    obtain ⟨task, ht⟩ := Option.isSome_iff_exists.1 ((h.sound.listed t).2 ⟨by rw [hr]; rfl, hp⟩)
    have hplaced := h.placed (place?_of_get? ht)
    refine ⟨_, place?_of_get? ht, ?_⟩
    show task.point.isOperation = true
    cases hpoint : task.point with
    | arriving name key' work =>
      rw [hpoint] at hplaced
      exact absurd (hr.symm.trans hplaced.1) (by simp)
    | attached =>
      rw [hpoint] at hplaced
      exact absurd (hr.symm.trans hplaced.1) (by simp)
    | beginning name work => rfl
    | gated => rfl
  · rintro ⟨⟨point, on⟩, hp, hk⟩
    have hplaced := h.placed hp
    obtain ⟨task, ht, _⟩ := place?_eq_some_iff.1 hp
    have hopen := h.sound.isPending ht
    cases point with
    | arriving name key' work => cases hk
    | attached => cases hk
    | beginning name work =>
      obtain ⟨⟨key, hr⟩, _⟩ := hplaced
      exact ⟨key, (unfinished_iff h).2 ⟨hr, hopen⟩⟩
    | gated =>
      obtain ⟨⟨key, hr⟩, _⟩ := hplaced
      exact ⟨key, (unfinished_iff h).2 ⟨hr, hopen⟩⟩

/-! ## Who comes to rest -/

theorem card_new_eq_zero (hp : ∀ p ∈ s'.restingAt kind, p ∈ s.restingAt kind) :
    (s'.restingAt kind \ s.restingAt kind).card = 0 := by
  rw [Finset.card_eq_zero, Finset.sdiff_eq_empty_iff_subset]
  exact hp

theorem card_new_eq_one (ht : t ∈ s'.restingAt kind) (hn : t ∉ s.restingAt kind)
    (hp : ∀ p ∈ s'.restingAt kind, p = t ∨ p ∈ s.restingAt kind) :
    (s'.restingAt kind \ s.restingAt kind).card = 1 := by
  refine Finset.card_eq_one.2 ⟨t, Finset.ext fun p => ?_⟩
  rw [Finset.mem_sdiff, Finset.mem_singleton]
  constructor
  · rintro ⟨hp', hn'⟩
    exact (hp p hp').resolve_right hn'
  · rintro rfl
    exact ⟨ht, hn⟩

/-- Nobody comes to rest at work or on a shield. -/
def Quiet (s s' : Callers) : Prop :=
  ∀ t point on, s'.loop.place? t = some (point, on) → s.loop.place? t = some (point, on) ∨
    point.isAttached = false ∧
      (point.isOperation = true → t ∈ s.restingAt CallerPoint.isOperation)

theorem Quiet.of_eq (hp : ∀ t, s'.loop.place? t = s.loop.place? t) : Quiet s s' :=
  fun t _ _ h => .inl (hp t ▸ h)

theorem Quiet.mem (hq : Quiet s s') (h : Ordered roles s) (h' : Ordered roles' s') :
    (∀ p ∈ s'.restingAt CallerPoint.isOperation, p ∈ s.restingAt CallerPoint.isOperation) ∧
    (∀ p ∈ s'.restingAt CallerPoint.isAttached, p ∈ s.restingAt CallerPoint.isAttached) := by
  constructor
  · intro p hp
    obtain ⟨⟨point, on⟩, hplace, hk⟩ := (Option.any_eq_true ..).1 ((mem_restingAt h').1 hp)
    rcases hq p point on hplace with hold | ⟨_, hold⟩
    · exact (mem_restingAt h).2 ((Option.any_eq_true ..).2 ⟨_, hold, hk⟩)
    · exact hold hk
  · intro p hp
    obtain ⟨⟨point, on⟩, hplace, hk⟩ := (Option.any_eq_true ..).1 ((mem_restingAt h').1 hp)
    rcases hq p point on hplace with hold | ⟨hold, _⟩
    · exact (mem_restingAt h).2 ((Option.any_eq_true ..).2 ⟨_, hold, hk⟩)
    · rw [hold] at hk
      cases hk

/-- A step is quiet, or it attaches a caller, or it attaches a caller and creates its operation. -/
theorem quiet_or_attaches (h : Ordered roles s) (hstep : Step roles s m roles' s') :
    (Quiet s s' ∧ s'.flight.started = s.flight.started ∧ s'.flight.joined = s.flight.joined) ∨
    (∃ t outer name key work on, s'.flight = s.flight.join ∧
      s.loop.place? t = some (.arriving name key work, on) ∧ ∀ p, s'.loop.place? p =
        if p = t then some (.attached, some outer) else s.loop.place? p) ∨
    (∃ t outer op key work, (∃ i, m = .serve i ∧ s.Asks i t key work) ∧
      s.flight.running? s.loop key = none ∧ s'.flight = s.flight.start key op ∧ t ≠ op ∧
      (t ∉ s.restingAt CallerPoint.isAttached ∧ s.loop.place? op = none) ∧ ∃ name,
      ∀ p, s'.loop.place? p = if p = t then some (.attached, some outer)
        else if p = op then some (.beginning name work, none) else s.loop.place? p) := by
  cases hstep with
  | idle _ => exact .inl ⟨.of_eq fun _ => rfl, rfl, rfl⟩
  | carried hi hw hk => exact .inl ⟨.of_eq fun _ => place?_congr (tasks_effect _), rfl, rfl⟩
  | forgotten hi =>
    refine .inl ⟨.of_eq fun _ => rfl, ?_, ?_⟩
    · unfold Flight.forget
      split <;> rfl
    · unfold Flight.forget
      split <;> rfl
  | called name key work =>
    refine .inl ⟨fun t point on hp => ?_, rfl, rfl⟩
    rw [place?_spawn] at hp
    split at hp
    · cases hp
      exact .inr ⟨rfl, fun hk => by cases hk⟩
    · exact .inl hp
  | cancelled t _ => exact .inl ⟨.of_eq fun _ => place?_cancelTask, rfl, rfl⟩
  | opened hg outcome => exact .inl ⟨.of_eq fun _ => place?_congr tasks_settle, rfl, rfl⟩
  | ended begun hw hr =>
    refine .inl ⟨fun t point on hp => ?_, rfl, rfl⟩
    rw [place?_conclude] at hp
    split at hp
    · cases hp
    · exact .inl hp
  | @gated i t task _ name hw hp =>
    refine .inl ⟨fun t' point on hp' => ?_, rfl, rfl⟩
    rw [place?_conclude] at hp'
    split at hp'
    · rename_i he
      subst he
      cases hp'
      refine .inr ⟨rfl, fun _ => (mem_restingAt h).2 ?_⟩
      rw [place?_of_get? hw.unfinished, hp]
      rfl
    · exact .inl hp'
  | @joined i t op task _ name key work hw hp hm hr =>
    refine .inr (.inl ⟨t, s.loop.promises.size, name, key, work, task.restsOn, rfl, ?_, fun p => ?_⟩)
    · rw [place?_of_get? hw.unfinished, hp]
    · rw [place?_conclude, place?_shield]
      rfl
  | @launched i t task _ name key work hw hp hm hn hwork =>
    have hne : t ≠ s.loop.promises.size := Nat.ne_of_lt (h.sound.known hw.unfinished)
    refine .inr (.inr ⟨t, s.loop.promises.size + 1, s.loop.promises.size, key, work,
      ⟨i, rfl, task, _, name, hw, hp, hm⟩, hn, rfl, hne, ⟨?_, ?_⟩, name, fun p => ?_⟩)
    · rw [mem_restingAt h, place?_of_get? hw.unfinished, hp]
      exact Bool.false_ne_true
    · rw [place?, h.sound.get?_size]
      rfl
    · rw [place?_conclude, place?_shield]
      split
      · rfl
      · exact place?_launch ..

/-- A step counts the operation that it creates and the caller that it attaches. -/
theorem counts_step (h : Ordered roles s) (hstep : Step roles s m roles' s') :
    s'.flight.started = s.flight.started +
        (s'.restingAt CallerPoint.isOperation \ s.restingAt CallerPoint.isOperation).card ∧
      s'.flight.started + s'.flight.joined = s.flight.started + s.flight.joined +
        (s'.restingAt CallerPoint.isAttached \ s.restingAt CallerPoint.isAttached).card := by
  have h' := (h.step hstep).1
  rcases quiet_or_attaches h hstep with ⟨hq, hs, hj⟩ | ⟨t, outer, name, key, work, on, hf, ht, hp⟩ |
    ⟨t, outer, op, key, work, _, _, hf, hne, ⟨ht, hop⟩, name, hp⟩
  · obtain ⟨ho, ha⟩ := hq.mem h h'
    rw [card_new_eq_zero ho, card_new_eq_zero ha, hs, hj]
    exact ⟨rfl, rfl⟩
  · have hnew : (s'.restingAt CallerPoint.isAttached \ s.restingAt CallerPoint.isAttached).card = 1 := by
      refine card_new_eq_one (t := t) ?_ ?_ fun p hp' => ?_
      · rw [mem_restingAt h', hp, if_pos rfl]
        rfl
      · rw [mem_restingAt h, ht]
        exact Bool.false_ne_true
      · rw [mem_restingAt h', hp] at hp'
        split at hp'
        · rename_i he
          exact .inl he
        · exact .inr ((mem_restingAt h).2 hp')
    have hold : ∀ p ∈ s'.restingAt CallerPoint.isOperation,
        p ∈ s.restingAt CallerPoint.isOperation := by
      intro p hp'
      rw [mem_restingAt h', hp] at hp'
      split at hp'
      · cases hp'
      · exact (mem_restingAt h).2 hp'
    rw [hnew, card_new_eq_zero hold, hf]
    exact ⟨rfl, rfl⟩
  · have hnew : (s'.restingAt CallerPoint.isAttached \ s.restingAt CallerPoint.isAttached).card = 1 := by
      refine card_new_eq_one (t := t) ?_ ?_ fun p hp' => ?_
      · rw [mem_restingAt h', hp, if_pos rfl]
        rfl
      · exact ht
      · rw [mem_restingAt h', hp] at hp'
        split at hp'
        · rename_i he
          exact .inl he
        · split at hp'
          · cases hp'
          · exact .inr ((mem_restingAt h).2 hp')
    have hone : (s'.restingAt CallerPoint.isOperation \
        s.restingAt CallerPoint.isOperation).card = 1 := by
      refine card_new_eq_one (t := op) ?_ ?_ fun p hp' => ?_
      · rw [mem_restingAt h', hp, if_neg hne.symm, if_pos rfl]
        rfl
      · rw [mem_restingAt h, hop]
        exact Bool.false_ne_true
      · rw [mem_restingAt h', hp] at hp'
        split at hp'
        · cases hp'
        · split at hp'
          · rename_i he
            exact .inl he
          · exact .inr ((mem_restingAt h).2 hp')
    rw [hnew, hone, hf]
    exact ⟨rfl, by simp [Flight.start]; omega⟩

/-- The counters tell what happened in a run. -/
theorem counts_moves (ms : List Move) : ∀ {roles : Roles String Empty} {s : Callers}, Ordered roles s →
    (s.moves ms).flight.started = s.flight.started + executions ms s ∧
      (s.moves ms).flight.started + (s.moves ms).flight.joined =
        s.flight.started + s.flight.joined + attachments ms s := by
  induction ms with
  | nil => exact fun _ => ⟨rfl, rfl⟩
  | cons m ms ih =>
    intro roles s h
    obtain ⟨roles', hstep⟩ := exists_step h m
    obtain ⟨hs, ha⟩ := counts_step h hstep
    obtain ⟨ihs, iha⟩ := ih (h.step hstep).1
    constructor
    · show (((s.move m).moves ms).flight.started = _)
      rw [ihs, hs, Nat.add_assoc]
      rfl
    · show (((s.move m).moves ms).flight.started + ((s.move m).moves ms).flight.joined = _)
      rw [iha, ha, Nat.add_assoc]
      rfl

/-! ## What comes of a request -/

theorem attached_of (h : Ordered roles s) {outer : PromiseId}
    (ht : s.loop.tasks.get? c = some { point := .attached, restsOn := some outer })
    (hs : roles outer = .shield op) (hr : roles op = .operation key)
    (hop : s.loop.isPending op = true) (ho : s.loop.isPending outer = true) :
    s.Unfinished key op ∧ s.Awaits c op ∧ Follows roles s c op := by
  refine ⟨(unfinished_iff h).2 ⟨hr, hop⟩, ⟨outer, place?_of_get? ht, ?_⟩, .waiting ht hs hr ?_⟩
  · exact h.sound.assigned.relayed hs ho
  · intro o hout
    rw [isPending_of_outcome? hout] at ho
    cases ho

/-- The step in which a caller asks: it is attached to the unfinished operation, or to a new one, or
    its work cannot be begun. -/
theorem Asks.step (h : Ordered roles s) (ha : s.Asks i c key work)
    (hstep : Step roles s (.serve i) roles' s') :
    (∃ op, (s'.Unfinished key op ∧ s'.Awaits c op ∧ Follows roles' s' c op) ∧
      (s.Unfinished key op ∧ s'.flight = s.flight.join ∨
        (∀ op', ¬ s.Unfinished key op') ∧ (∀ f, work ≠ .refused f) ∧
          s.loop.promises.size ≤ op)) ∨
    ((∀ op, ¬ s.Unfinished key op) ∧ ∃ f, work = .refused f ∧
      s'.loop.outcome? c = some (Program.ended (.error f)) ∧ s'.flight = s.flight) := by
  obtain ⟨task, given, name, hw, hp, hm⟩ := ha
  obtain ⟨e, hi, he⟩ := hw.errand
  have h' := (h.step hstep).1
  have hsame : ∀ {t task' given'}, s.loop.Wakes i t task' given' → t = c ∧ task' = task := by
    rintro t task' given' ⟨⟨e', hi', he'⟩, ht', _⟩
    rw [hi] at hi'
    cases hi'
    rw [he] at he'
    cases he'
    rw [hw.unfinished] at ht'
    cases ht'
    exact ⟨rfl, rfl⟩
  cases hstep with
  | idle hn =>
    rw [hn i rfl] at hi
    cases hi
  | carried hi' hw' hk =>
    rw [hi] at hi'
    cases hi'
    rw [he] at hw'
    cases hw'
  | forgotten hi' =>
    rw [hi] at hi'
    cases hi'
    cases he
  | cancelled t hc => rcases hc with hc | ⟨_, hc, _⟩ <;> cases hc
  | gated hw' hp' =>
    obtain ⟨rfl, rfl⟩ := hsame hw'
    rw [hp] at hp'
    cases hp'
  | @joined _ t op _ _ name' key' work' hw' hp' hm' hr =>
    obtain ⟨rfl, rfl⟩ := hsame hw'
    rw [hp] at hp'
    cases hp'
    have hold := (h.kept.running?_iff.1 hr)
    have hne : op ≠ s.loop.promises.size := Nat.ne_of_lt (isPending_lt hold.2)
    refine .inl ⟨op, attached_of h' get?_tasks_rest (Function.update_self ..) ?_ ?_ ?_,
      .inl ⟨(running?_iff_unfinished h).1 hr, rfl⟩⟩
    · rw [Function.update_of_ne hne]
      exact hold.1
    · rw [isPending_rest, isPending_shield, Bool.or_eq_true]
      exact .inr hold.2
    · rw [isPending_rest, isPending_shield, Bool.or_eq_true]
      exact .inl (decide_eq_true rfl)
  | @launched _ t _ _ name' key' work' hw' hp' hm' hn hwork =>
    obtain ⟨rfl, rfl⟩ := hsame hw'
    rw [hp] at hp'
    cases hp'
    refine .inl ⟨s.loop.promises.size, attached_of h' get?_tasks_rest (Function.update_self ..) ?_ ?_ ?_,
      .inr ⟨(running?_eq_none_iff_unfinished h).1 hn, hwork, Nat.le_refl _⟩⟩
    · rw [Function.update_of_ne (Nat.ne_of_lt (Nat.lt_succ_self _)), Function.update_self]
    · rw [isPending_rest, isPending_shield, isPending_launch, Bool.or_eq_true, Bool.or_eq_true]
      exact .inr (.inl (decide_eq_true rfl))
    · rw [isPending_rest, isPending_shield, size_launch, Bool.or_eq_true]
      exact .inl (decide_eq_true rfl)
  | @ended _ t task' given' result begun hw' hr =>
    obtain ⟨rfl, rfl⟩ := hsame hw'
    have hon : task'.restsOn = none := by
      have hplaced := h.placed (place?_of_get? hw.unfinished)
      rw [hp] at hplaced
      exact hplaced.2
    have hgiven : given' = .ok default := by
      have hg := hw'.gives
      rw [Gives, hon] at hg
      exact hg
    have hmet : Program.met task' given' = .ok default := by simp [Program.met, hgiven, hm]
    rw [hmet, hp] at hr
    have hfinish : s.flight.running? s.loop key = none ∧ ∃ f, work = .refused f ∧ result = .error f := by
      have hreq : (request name key work { s with loop := s.loop.pick i }).1 = .finish result := hr
      unfold request at hreq
      split at hreq
      · rename_i f hn
        cases hreq
        exact ⟨hn, f, rfl, rfl⟩
      · cases hreq
    obtain ⟨hn, f, rfl, rfl⟩ := hfinish
    refine .inr ⟨(running?_eq_none_iff_unfinished h).1 hn, f, rfl, ?_, rfl⟩
    exact outcome?_finish (l := s.loop.pick i) (h.sound.isPending hw.unfinished) _

/-- Whoever follows an operation is bound to it. -/
theorem Follows.bound (h : Ordered roles s) (hf : Follows roles s c op) (ha : s.Awaits c op) :
    s.Bound c op := by
  refine ⟨ha, fun later hc => ?_⟩
  obtain ⟨roles', h', hf'⟩ := hf.moves later h hc
  exact hf'.receives h'

/-- An operation is created by a caller that asks for its key. -/
theorem asked_of_new (h : Ordered roles s) (hstep : Step roles s m roles' s')
    (hnew : op ∈ s'.restingAt CallerPoint.isOperation)
    (hold : op ∉ s.restingAt CallerPoint.isOperation) :
    ∃ i c key work, m = .serve i ∧ s.Asks i c key work ∧ (∀ op', ¬ s.Unfinished key op') ∧
      s'.Unfinished key op := by
  have h' := (h.step hstep).1
  rcases quiet_or_attaches h hstep with ⟨hq, _⟩ | ⟨t, outer, name, key, work, on, _, _, hp⟩ |
    ⟨t, outer, op', key, work, ⟨i, rfl, ha⟩, hn, hf, hne, _, name, hp⟩
  · exact absurd ((hq.mem h h').1 op hnew) hold
  · rw [mem_restingAt h', hp] at hnew
    split at hnew
    · cases hnew
    · exact absurd ((mem_restingAt h).2 hnew) hold
  · have hop : op = op' := by
      rw [mem_restingAt h', hp] at hnew
      split at hnew
      · cases hnew
      · split at hnew
        · assumption
        · exact absurd ((mem_restingAt h).2 hnew) hold
    subst hop
    obtain ⟨key', hu⟩ := (told h').2 hnew
    have hentry : s'.flight.entries.get? key = some op := by
      rw [hf]
      exact (Keyed.get?_put ..).trans (if_pos rfl)
    obtain ⟨hr, hopen⟩ := (unfinished_iff h').1 hu
    exact ⟨i, t, key, work, rfl, ha, (running?_eq_none_iff_unfinished h).1 hn,
      (unfinished_iff h').2 ⟨(h'.kept.entry hentry).1, hopen⟩⟩

/-- **The law of every state that is in order.** -/
theorem Ordered.runOnce (h : Ordered roles s) : RunOnce s where
  told t := told h
  single hu hu' := by
    obtain ⟨hr, hp⟩ := (unfinished_iff h).1 hu
    obtain ⟨hr', hp'⟩ := (unfinished_iff h).1 hu'
    exact h.kept.unique hr hp hr' hp'
  joins {i c key work op} ha hu := by
    obtain ⟨roles', hstep⟩ := exists_step h (.serve i)
    have h' := (h.step hstep).1
    rcases ha.step h hstep with ⟨op', ⟨_, haw, hf⟩, ⟨hold, hj⟩ | ⟨hn, _⟩⟩ | ⟨hn, _⟩
    · have he := (running?_iff_unfinished h).2 hu
      rw [(running?_iff_unfinished h).2 hold] at he
      cases he
      exact ⟨hf.bound h' haw, hj⟩
    · exact absurd hu (hn op)
    · exact absurd hu (hn op)
  starts {i c key work} ha hn hw := by
    obtain ⟨roles', hstep⟩ := exists_step h (.serve i)
    have h' := (h.step hstep).1
    rcases ha.step h hstep with ⟨op, ⟨hu, haw, hf⟩, ⟨hold, _⟩ | ⟨_, _, hle⟩⟩ | ⟨_, f, rfl, _⟩
    · exact absurd hold (hn op)
    · exact ⟨op, hle, hu, hf.bound h' haw⟩
    · exact absurd rfl (hw f)
  refuses {i c key f} ha hn := by
    obtain ⟨roles', hstep⟩ := exists_step h (.serve i)
    rcases ha.step h hstep with ⟨op, _, ⟨hold, _⟩ | ⟨_, hw, _⟩⟩ | ⟨_, f', hf, ho, hs⟩
    · exact absurd hold (hn op)
    · exact absurd rfl (hw f)
    · cases hf
      exact ⟨ho, hs⟩
  onlyAsked {m op} hnew hold := by
    obtain ⟨roles', hstep⟩ := exists_step h m
    exact asked_of_new h hstep hnew hold
  mapped hu := by
    obtain ⟨hr, hp⟩ := (unfinished_iff h).1 hu
    have he := h.kept.current hr hp
    refine ⟨?_, he⟩
    rw [inFlight, Keyed.contains, he]
    rfl
  spared {i key older newer} hi he hne := by
    have hs : s.move (.serve i) =
        { s with loop := s.loop.pick i, flight := s.flight.forget key older } :=
      Program.serveAt_hook program hi
    rw [hs]
    show (s.flight.forget key older).entries.get? key = some newer
    rw [forget_newer he (Ne.symm hne)]
    exact he
  cleared {key} hn := by
    rw [inFlight, Keyed.contains, Option.isSome_eq_false_iff, Option.isNone_iff_eq_none]
    cases he : s.flight.entries.get? key with
    | none => rfl
    | some op => exact absurd (h.kept.entry he).2 (hn op)

/-- **Run once.**  Whatever happens to a flight, the law holds, and the counters tell how many operations
    were created and how many callers were attached. -/
theorem run_once (ms : List Move) :
    RunOnce (moves {} ms) ∧ (moves {} ms).flight.started = executions ms {} ∧
      (moves {} ms).flight.started + (moves {} ms).flight.joined = attachments ms {} := by
  obtain ⟨roles, h⟩ := exists_ordered_moves .init ms
  obtain ⟨hs, ha⟩ := counts_moves ms .init
  refine ⟨h.runOnce, ?_, ?_⟩
  · rw [hs]
    exact Nat.zero_add _
  · rw [ha]
    exact Nat.zero_add _

end Callers

end SourceTrees.Flight
