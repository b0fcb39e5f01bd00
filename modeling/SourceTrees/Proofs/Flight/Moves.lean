import SourceTrees.Flight.Callers
import SourceTrees.Proofs.Flight.Kept

/-!
# Everything that can happen to a flight

Callers come and are cancelled, operations are cancelled and end in any way, and the errands of the loop
are served in any order.  In particular the hook of an operation may be served at any time after the
operation has ended.

## Protocol

* A **move** is one thing that happens; a run is a list of moves, from a flight without callers.
* What a move does is one of the few things listed in `Callers.Step`, under roles for the promises.
  Callers are the tasks in the role of a call, and operations those in the role of an operation of
  their key.

## Results

* `Callers.exists_step` — a move does one of these things.
* `Callers.Ordered` — the order that all moves keep; `Callers.exists_ordered` — every run keeps it.
-/

set_option autoImplicit false

namespace SourceTrees.Flight

open Loop

/-- One thing that happens. -/
inductive Move where
  | serve (place : Nat)
  | call (name key : String) (work : Work)
  | cancel (task : PromiseId)
  | cancelShared (key : String)
  | finish (gate : String) (outcome : Except Fault Json)

namespace Callers

/-- Makes a move. -/
def move (s : Callers) : Move → Callers
  | .serve place => program.serveAt place s
  | .call name key work => (apply (.spawn name key work) s).2
  | .cancel task => (apply (.cancel task) s).2
  | .cancelShared key => (apply (.cancelShared key) s).2
  | .finish gate outcome => (apply (.resolve gate outcome) s).2

/-- Makes moves, one after the other. -/
def moves (s : Callers) (ms : List Move) : Callers := ms.foldl move s

theorem lawful : program.Lawful := ⟨fun _ _ => rfl, fun _ => rfl, fun _ _ _ => rfl⟩

/-- What a move does. -/
inductive Step (roles : Roles String Empty) (s : Callers) :
    Move → Roles String Empty → Callers → Prop
  | idle {m : Move} (h : ∀ i, m = .serve i → s.loop.agenda[i]? = none) : Step roles s m roles s
  | carried {i : Nat} {e : Errand Json String} (hi : s.loop.agenda[i]? = some e)
      (hw : e.woken? = none) (hk : ∀ k p, e ≠ .react (.hook k) p) :
      Step roles s (.serve i) roles
        { s with loop := Program.Errand.effect e (s.loop.pick i) }
  | forgotten {i : Nat} {key : String} {op : PromiseId}
      (hi : s.loop.agenda[i]? = some (.react (.hook key) op)) :
      Step roles s (.serve i) roles
        { s with loop := s.loop.pick i, flight := s.flight.forget key op }
  | called (name key : String) (work : Work) :
      Step roles s (.call name key work) (Function.update roles s.loop.promises.size .call)
        { s with loop := (s.loop.spawn (.arriving name key work)).2 }
  | cancelled {m : Move} (t : PromiseId) (h : m = .cancel t ∨ ∃ key, m = .cancelShared key ∧
        s.flight.entries.get? key = some t) :
      Step roles s m roles { s with loop := s.loop.cancelTask t }
  | opened {name : String} {gate : PromiseId} (hg : s.gates.get? name = some gate)
      (outcome : Except Fault Json) :
      Step roles s (.finish name outcome) roles
        { s with loop := s.loop.settle gate (.ofResult outcome) }
  | ended {i : Nat} {t : PromiseId} {task : Task CallerPoint} {given result : Except Fault Json}
      (begun : List String) (h : s.loop.Wakes i t task given)
      (hr : (resume task.point (Program.met task given) { s with loop := s.loop.pick i }).1 =
        .finish result) :
      Step roles s (.serve i) roles
        { s with begun, loop := Program.conclude t (.finish result) (s.loop.pick i) }
  | joined {i : Nat} {t op : PromiseId} {task : Task CallerPoint} {given : Except Fault Json}
      {name key : String} {work : Work} (h : s.loop.Wakes i t task given)
      (hp : task.point = .arriving name key work) (hm : task.marked = false)
      (hr : s.flight.running? s.loop key = some op) :
      Step roles s (.serve i) (Function.update roles s.loop.promises.size (.shield op))
        { s with
          flight := s.flight.join
          loop := Program.conclude t (.rest s.loop.promises.size .attached)
            ((s.loop.pick i).shield op).2 }
  | launched {i : Nat} {t : PromiseId} {task : Task CallerPoint} {given : Except Fault Json}
      {name key : String} {work : Work} (h : s.loop.Wakes i t task given)
      (hp : task.point = .arriving name key work) (hm : task.marked = false)
      (hn : s.flight.running? s.loop key = none) (hw : ∀ f, work ≠ .refused f) :
      Step roles s (.serve i)
        (Function.update (Function.update roles s.loop.promises.size (.operation key))
          (s.loop.promises.size + 1) (.shield s.loop.promises.size))
        { s with
          flight := s.flight.start key s.loop.promises.size
          loop := Program.conclude t (.rest (s.loop.promises.size + 1) .attached)
            ((s.flight.launch (s.loop.pick i) key (.beginning name work) key).2.2.shield
              s.loop.promises.size).2 }
  | gated {i : Nat} {t : PromiseId} {task : Task CallerPoint} {given : Except Fault Json}
      {name : String} (h : s.loop.Wakes i t task given)
      (hp : task.point = .beginning name .gate) :
      Step roles s (.serve i) (Function.update roles s.loop.promises.size .gate)
        { s with
          begun := s.begun ++ [name]
          gates := s.gates.put name s.loop.promises.size
          loop := Program.conclude t (.rest s.loop.promises.size .gated) (s.loop.pick i).promise.2 }

/-! ## The order -/

/-- A task rests where its role lets it rest. -/
def Placed (roles : Roles String Empty) (t : PromiseId) : CallerPoint → Option PromiseId → Prop
  | .arriving .., on => roles t = .call ∧ on = none
  | .attached, on => roles t = .call ∧
      ∃ outer op key, on = some outer ∧ roles outer = .shield op ∧ roles op = .operation key
  | .beginning .., on => (∃ key, roles t = .operation key) ∧ on = none
  | .gated, on => (∃ key, roles t = .operation key) ∧ ∃ gate, on = some gate ∧ roles gate = .gate

/-- Everything is in order, no task having its turn. -/
structure Ordered (roles : Roles String Empty) (s : Callers) : Prop where
  sound : s.loop.Sound roles none s.loop.promises.size
  kept : s.flight.Kept roles id s.loop
  placed : ∀ {t point on}, s.loop.place? t = some (point, on) → Placed roles t point on
  gates : ∀ {name gate}, s.gates.get? name = some gate → roles gate = .gate
  alone : ∀ g, s.loop.groups.get? g = none

namespace Ordered

variable {roles : Roles String Empty} {s : Callers}

theorem init : Ordered (fun _ => .unused) {} where
  sound := .init
  kept := .init
  placed h := by cases h
  gates h := by cases h
  alone _ := rfl

end Ordered

variable {roles roles' : Roles String Empty} {s s' : Callers} {m : Move}

/-- The turn of a task is one of the steps. -/
theorem exists_step_turn {i : Nat} {t : PromiseId} {task : Task CallerPoint}
    {given : Except Fault Json} (h : s.loop.Wakes i t task given)
    (hs : s.move (.serve i) =
      let (turn, s') := resume task.point (Program.met task given) { s with loop := s.loop.pick i }
      program.change s' (Program.conclude t turn)) :
    ∃ roles', Step roles s (.serve i) roles' (s.move (.serve i)) := by
  rw [hs]
  obtain ⟨point, on, marked⟩ := task
  cases hm : Program.met ⟨point, on, marked⟩ given with
  | error f =>
    cases point <;> exact ⟨roles, .ended s.begun h (by rw [hm]; rfl)⟩
  | ok v =>
    obtain ⟨hmarked, rfl⟩ := Program.met_eq_ok hm
    cases point with
    | attached => exact ⟨roles, .ended s.begun h (by rw [hm]; rfl)⟩
    | gated => exact ⟨roles, .ended s.begun h (by rw [hm]; rfl)⟩
    | beginning name work =>
      cases work with
      | gate => exact ⟨_, .gated h rfl⟩
      | now outcome => exact ⟨roles, .ended (s.begun ++ [name]) h (by rw [hm]; rfl)⟩
      | refused f => exact ⟨roles, .ended (s.begun ++ [name]) h (by rw [hm]; rfl)⟩
    | arriving name key work =>
      cases hr : s.flight.running? s.loop key with
      | some op =>
        have hr' : s.flight.running? (s.loop.pick i) key = some op := hr
        have hres : request name key work { s with loop := s.loop.pick i } =
            (.rest s.loop.promises.size .attached,
              { s with loop := ((s.loop.pick i).shield op).2, flight := s.flight.join }) := by
          simp only [request, hr', attach_running hr']
          rfl
        simp only [resume, hres]
        exact ⟨_, .joined h rfl hmarked hr⟩
      | none =>
        have hr' : s.flight.running? (s.loop.pick i) key = none := hr
        by_cases hw : ∃ f, work = .refused f
        · obtain ⟨f, rfl⟩ := hw
          have hres : request name key (.refused f) { s with loop := s.loop.pick i } =
              (.finish (.error f), { s with loop := s.loop.pick i }) := by
            simp only [request, hr']
          simp only [resume, hres]
          exact ⟨roles, .ended s.begun h (by rw [hm]; simp only [resume, hres])⟩
        · have hw' : ∀ f, work ≠ .refused f := fun f hf => hw ⟨f, hf⟩
          have hres : request name key work { s with loop := s.loop.pick i } =
              (.rest (s.loop.promises.size + 1) .attached,
                { s with
                  loop := ((s.flight.launch (s.loop.pick i) key (.beginning name work) key).2.2.shield
                    s.loop.promises.size).2
                  flight := s.flight.start key s.loop.promises.size }) := by
            cases work with
            | refused f => exact absurd rfl (hw' f)
            | gate => simp only [request, hr', attach_idle hr']; rfl
            | now outcome => simp only [request, hr', attach_idle hr']; rfl
          simp only [resume, hres]
          exact ⟨_, .launched h rfl hmarked hr hw'⟩

/-- A move makes one of the steps. -/
theorem exists_step (h : Ordered roles s) (m : Move) :
    ∃ roles', Step roles s m roles' (s.move m) := by
  cases m with
  | serve i =>
    cases hi : s.loop.agenda[i]? with
    | none =>
      have hs : s.move (.serve i) = s := Program.serveAt_none program hi
      rw [hs]
      exact ⟨roles, .idle fun j hj => by cases hj; exact hi⟩
    | some e =>
      cases hw : e.woken? with
      | some t =>
        obtain ⟨task, given, ht, hs⟩ := Program.serveAt_turn program lawful h.sound hi hw
        exact exists_step_turn ht hs
      | none =>
        by_cases hk : ∃ k p, e = .react (.hook k) p
        · obtain ⟨key, op, rfl⟩ := hk
          have hs : s.move (.serve i) =
              { s with loop := s.loop.pick i, flight := s.flight.forget key op } :=
            Program.serveAt_hook program hi
          rw [hs]
          exact ⟨roles, .forgotten hi⟩
        · have hk' : ∀ k p, e ≠ .react (.hook k) p := fun k p he => hk ⟨k, p, he⟩
          have hs : s.move (.serve i) =
              { s with loop := Program.Errand.effect e (s.loop.pick i) } :=
            Program.serveAt_other program lawful hi hw hk'
          rw [hs]
          exact ⟨roles, .carried hi hw hk'⟩
  | call name key work => exact ⟨_, .called name key work⟩
  | cancel t => exact ⟨roles, .cancelled t (.inl rfl)⟩
  | cancelShared key =>
    cases he : s.flight.entries.get? key with
    | none =>
      have hs : s.move (.cancelShared key) = s := by simp [move, apply, he]
      rw [hs]
      exact ⟨roles, .idle fun i hi => by cases hi⟩
    | some op =>
      have hs : s.move (.cancelShared key) = { s with loop := s.loop.cancelTask op } := by
        simp [move, apply, he]
      rw [hs]
      exact ⟨roles, .cancelled op (.inr ⟨key, rfl, he⟩)⟩
  | finish name outcome =>
    cases hg : s.gates.get? name with
    | none =>
      have hs : s.move (.finish name outcome) = s := by simp [move, apply, hg]
      rw [hs]
      exact ⟨roles, .idle fun i hi => by cases hi⟩
    | some gate =>
      have hs : s.move (.finish name outcome) =
          { s with loop := s.loop.settle gate (.ofResult outcome) } := by
        simp [move, apply, hg]
      rw [hs]
      exact ⟨roles, .opened hg outcome⟩

/-! ## Moves keep the order -/

theorem Placed.mono (hr : Extends roles roles') {t : PromiseId} {point : CallerPoint}
    {on : Option PromiseId} (h : Placed roles t point on) : Placed roles' t point on := by
  cases point with
  | arriving name key work => exact ⟨hr.eq h.1 (by simp), h.2⟩
  | attached =>
    obtain ⟨ht, outer, op, key, rfl, ho, hop⟩ := h
    exact ⟨hr.eq ht (by simp), outer, op, key, rfl, hr.eq ho (by simp), hr.eq hop (by simp)⟩
  | beginning name work =>
    obtain ⟨⟨key, hk⟩, hon⟩ := h
    exact ⟨⟨key, hr.eq hk (by simp)⟩, hon⟩
  | gated =>
    obtain ⟨⟨key, hk⟩, gate, rfl, hg⟩ := h
    exact ⟨⟨key, hr.eq hk (by simp)⟩, gate, rfl, hr.eq hg (by simp)⟩

/-- The places of the tasks after a turn, from those before it. -/
theorem placed_conclude {l l' : Loop Json CallerPoint String} {t : PromiseId}
    {turn : Turn CallerPoint Json} {t' : PromiseId} {point : CallerPoint} {on : Option PromiseId}
    (hp : (Program.conclude t turn l').place? t' = some (point, on)) (hr : Extends roles roles')
    (h : ∀ {t point on}, l.place? t = some (point, on) → Placed roles t point on)
    (hl : ∀ {t' point on}, t' ≠ t → l'.place? t' = some (point, on) →
      l.place? t' = some (point, on) ∨ Placed roles' t' point on)
    (ht : ∀ on point, turn = .rest on point → Placed roles' t point (some on))
    (hg : ∀ point, turn ≠ .giveWay point) : Placed roles' t' point on := by
  rw [place?_conclude] at hp
  split at hp
  · rename_i he
    subst he
    cases turn with
    | rest on point =>
      cases hp
      exact ht _ _ rfl
    | giveWay point => exact absurd rfl (hg point)
    | finish result => cases hp
  · rename_i he
    rcases hl he hp with hp | hp
    · exact (h hp).mono hr
    · exact hp

/-- **A move keeps the order.** -/
theorem Ordered.step (h : Ordered roles s) (hstep : Step roles s m roles' s') :
    Ordered roles' s' ∧ Extends roles roles' := by
  have ha := h.sound.assigned
  cases hstep with
  | idle _ => exact ⟨h, .refl _⟩
  | @carried i e hi hw hk =>
    have hl : s.loop.Later (Program.Errand.effect e (s.loop.pick i)) :=
      (Later.pick hi hk).trans (Later.effect e)
    refine ⟨⟨?_, h.kept.later ha hl, fun hp => ?_, h.gates, ?_⟩, .refl _⟩
    · exact (Program.sound_effect h.sound hi hw).mono_base hl.size_le (Nat.le_refl _)
    · rw [place?_congr (tasks_effect e)] at hp
      exact h.placed hp
    · intro g
      rw [groups_effect (l := s.loop.pick i) h.alone e]
      exact h.alone g
  | forgotten hi =>
    refine ⟨⟨?_, h.kept.forget h.sound Function.injective_id hi, h.placed, h.gates, h.alone⟩,
      .refl _⟩
    exact h.sound.pick hi rfl (fun _ _ he => by cases he) fun _ _ he => by cases he
  | called name key work =>
    have hr := ha.extends_update .call
    refine ⟨⟨?_, h.kept.grow ha (Later.spawn _) (by simp), fun {t point on} hp => ?_, ?_, h.alone⟩,
      hr⟩
    · exact (h.sound.spawn _ rfl).mono_base (Later.spawn _).size_le (Nat.le_refl _)
    · rw [place?_spawn] at hp
      split at hp
      · rename_i he
        cases hp
        subst he
        exact ⟨Function.update_self .., rfl⟩
      · exact (h.placed hp).mono hr
    · exact fun hg => hr.eq (h.gates hg) (by simp)
  | cancelled t _ =>
    have hl : s.loop.Later (s.loop.cancelTask t) := .cancelTask t
    refine ⟨⟨?_, h.kept.later ha hl, fun hp => ?_, h.gates, fun g => ?_⟩, .refl _⟩
    · exact (h.sound.cancelTask t).mono_base hl.size_le (Nat.le_refl _)
    · rw [place?_cancelTask] at hp
      exact h.placed hp
    · show (s.loop.cancelTask t).groups.get? g = none
      rw [cancelTask_eq h.alone, groups_cancelMember]
      exact h.alone g
  | @opened _ gate hg outcome =>
    have hl : s.loop.Later (s.loop.settle gate (.ofResult outcome)) := .settle ..
    have hrole := h.gates hg
    refine ⟨⟨?_, h.kept.later ha hl, fun hp => ?_, h.gates, fun g => ?_⟩, .refl _⟩
    · refine Sound.mono_base (h.sound.settle_outer (.inr ?_)) hl.size_le (Nat.le_refl _)
      rw [hrole]
      rfl
    · rw [place?_congr tasks_settle] at hp
      exact h.placed hp
    · rw [groups_settle]
      exact h.alone g
  | @ended i t _ _ result begun hw hr =>
    have hl : s.loop.Later (Program.conclude t (.finish result) (s.loop.pick i)) :=
      (Later.wakes hw).trans (Later.conclude ..)
    refine ⟨⟨?_, h.kept.later ha hl, fun hp => ?_, h.gates, fun g => ?_⟩, .refl _⟩
    · exact (hw.takeUp h.sound).finish.mono_base (Nat.le_of_eq size_conclude.symm) (Nat.le_refl _)
    · exact placed_conclude hp (.refl _) h.placed (fun _ hp => .inl hp) (by simp) (by simp)
    · rw [groups_conclude]
      exact h.alone g
  | @joined i t op _ _ name key work hw hp hm hr =>
    have hl : s.loop.Later (Program.conclude t (.rest s.loop.promises.size .attached)
        ((s.loop.pick i).shield op).2) :=
      ((Later.wakes hw).trans (Later.shield op)).trans (Later.conclude ..)
    have hr' := ha.extends_update (.shield op)
    have hop : roles op = .operation key := (h.kept.running?_iff.1 hr).1
    have ht := h.placed (place?_of_get? hw.unfinished)
    rw [hp] at ht
    have hs : Sound (Function.update roles s.loop.promises.size (.shield op)) (some t)
        s.loop.promises.size ((s.loop.pick i).shield op).2 :=
      (hw.takeUp h.sound).shield (ha.lt_size (p := op) (by simp [hop]))
    refine ⟨⟨?_, (h.kept.grow ha hl (by simp)).join, fun hp => ?_,
      fun hg => hr'.eq (h.gates hg) (by simp), fun g => ?_⟩, hr'⟩
    · refine Sound.mono_base (hs.rest (Nat.le_refl _) ?_ ?_) (Nat.le_of_eq size_conclude.symm)
        (Nat.le_refl _)
      · simp [Loop.shield, Loop.pick]
      · rw [Function.update_self]
        rfl
    · have hplace : ∀ t', ((s.loop.pick i).shield op).2.place? t' = s.loop.place? t' :=
        fun _ => place?_shield
      refine placed_conclude hp hr' h.placed (fun _ hp => .inl (hplace _ ▸ hp)) (fun on point he => ?_)
        (by simp)
      cases he
      exact ⟨hr'.eq ht.1 (by simp), _, op, key, rfl, Function.update_self .., hr'.eq hop (by simp)⟩
    · rw [groups_conclude, Loop.shield, groups_subscribe]
      exact h.alone g
  | @launched i t _ _ name key work hw hp hm hn hwork =>
    let l := (s.flight.launch (s.loop.pick i) key (.beginning name work) key).2.2
    have hsize : l.promises.size = s.loop.promises.size + 1 := size_launch ..
    have hpick := hw.takeUp h.sound
    have hs : Sound (Function.update roles s.loop.promises.size (.operation key)) (some t)
        s.loop.promises.size l := sound_launch hpick _ _
    have hr₁ := ha.extends_update (.operation key)
    have hk : (s.flight.start key s.loop.promises.size).Kept
        (Function.update roles s.loop.promises.size (.operation key)) id l :=
      (h.kept.later ha (Later.wakes hw)).launch hpick Function.injective_id hn
        (.beginning name work)
    have hs' := hs.shield (p := s.loop.promises.size) (by rw [hsize]; exact Nat.lt_succ_self _)
    have hr₂ := hs.assigned.extends_update (.shield s.loop.promises.size)
    have hl : l.Later (Program.conclude t (.rest (s.loop.promises.size + 1) .attached)
        (l.shield s.loop.promises.size).2) := (Later.shield _).trans (Later.conclude ..)
    rw [hsize] at hs' hr₂
    have hr' := hr₁.trans hr₂
    have ht := h.placed (place?_of_get? hw.unfinished)
    rw [hp] at ht
    refine ⟨⟨?_, ?_, fun hp => ?_, fun hg => hr'.eq (h.gates hg) (by simp), fun g => ?_⟩, hr'⟩
    · refine Sound.mono_base (hs'.rest (Nat.le_succ _) ?_ ?_) (Nat.le_of_eq size_conclude.symm)
        (Nat.le_refl _)
      · simp [Loop.shield, hsize]
      · rw [Function.update_self]
        rfl
    · have hrole : ∀ key', (.shield s.loop.promises.size : Role String Empty) ≠
          .operation (id key') := by simp
      rw [← hsize] at hl ⊢
      exact hk.grow hs.assigned hl hrole
    · have hplace : ∀ t', (l.shield s.loop.promises.size).2.place? t' =
          if t' = s.loop.promises.size then some (.beginning name work, none)
          else s.loop.place? t' := by
        intro t'
        rw [place?_shield]
        exact place?_launch ..
      refine placed_conclude hp hr' h.placed (fun _ hp => ?_) (fun on point he => ?_) (by simp)
      · rw [hplace] at hp
        split at hp
        · rename_i he
          cases hp
          subst he
          exact .inr ⟨⟨key, hr₂.eq (Function.update_self ..) (by simp)⟩, rfl⟩
        · exact .inl hp
      · cases he
        exact ⟨hr'.eq ht.1 (by simp), _, s.loop.promises.size, key, rfl, Function.update_self ..,
          hr₂.eq (Function.update_self ..) (by simp)⟩
    · rw [groups_conclude, Loop.shield, groups_subscribe, groups_promise, groups_launch]
      exact h.alone g
  | @gated i t _ _ name hw hp =>
    have hl : s.loop.Later (Program.conclude t (.rest s.loop.promises.size .gated)
        (s.loop.pick i).promise.2) :=
      ((Later.wakes hw).trans Later.promise).trans (Later.conclude ..)
    have hr' := ha.extends_update .gate
    have hs : Sound (Function.update roles s.loop.promises.size .gate) (some t)
        s.loop.promises.size (s.loop.pick i).promise.2 := (hw.takeUp h.sound).promise rfl
    have ht := h.placed (place?_of_get? hw.unfinished)
    rw [hp] at ht
    obtain ⟨⟨key, hkey⟩, _⟩ := ht
    refine ⟨⟨?_, h.kept.grow ha hl (by simp), fun hp => ?_, fun {name' gate} hg => ?_, fun g => ?_⟩,
      hr'⟩
    · refine Sound.mono_base (hs.rest (Nat.le_refl _) ?_ ?_) (Nat.le_of_eq size_conclude.symm)
        (Nat.le_refl _)
      · simp [Loop.pick]
      · rw [Function.update_self]
        rfl
    · refine placed_conclude hp hr' h.placed (fun _ hp => .inl hp) (fun on point he => ?_) (by simp)
      cases he
      exact ⟨⟨key, hr'.eq hkey (by simp)⟩, _, rfl, Function.update_self ..⟩
    · rw [Keyed.get?_put] at hg
      split at hg
      · cases hg
        exact Function.update_self ..
      · exact hr'.eq (h.gates hg) (by simp)
    · rw [groups_conclude]
      exact h.alone g

/-- Every run is in order. -/
theorem exists_ordered_moves (h : Ordered roles s) (ms : List Move) :
    ∃ roles', Ordered roles' (s.moves ms) := by
  induction ms generalizing roles s with
  | nil => exact ⟨roles, h⟩
  | cons m ms ih =>
    obtain ⟨roles', hstep⟩ := exists_step h m
    exact ih (h.step hstep).1

end Callers

end SourceTrees.Flight
