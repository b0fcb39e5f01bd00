import SourceTrees.Proofs.Service.Answers

/-!
# What becomes of shared operations

An operation is started by a turn that finds none running, it is unfinished as long as its task is, and
nothing but the end of its own turn settles its promise.

## Results

* `Service.Stride.operation_cases` — how operations come to be.
* `Service.Aside.outcome?_operation`, `Service.HasTurn.outcome?_operation` — how they end.
* `Service.InTurn.shielded` — a caller that is given something while it waits for an operation is given
  what the operation ended with.
-/

set_option autoImplicit false

namespace SourceTrees

theorem Stage.grip_ne_ended (stage : Stage) (result : Except Fault Reply) :
    stage.grip ≠ .ended result := by
  rcases stage with _ | ⟨_ | _ | _⟩ | ⟨_ | _⟩ | _ | _ | _ | ⟨_, _ | _⟩ | _ |
    ⟨_, _ | ⟨_, _, _, _ | _⟩ | _ | _ | _⟩ | _ | _ <;> simp [Stage.grip, LeaseStage.grip, ParseStage.grip]

theorem Program.ended_eq_value {V : Type} {result : Except Fault V} {v : V} :
    ended result = .value v ↔ result = .ok v := by
  cases result with
  | ok x => simp [ended]
  | error f =>
    unfold ended
    dsimp only
    split <;> simp

theorem Program.eq_error_of_ended {V : Type} {result : Except Fault V} {f : Fault}
    (h : ended result = .failed f) : result = .error f := by
  cases result with
  | ok x => simp [ended] at h
  | error g =>
    unfold ended at h
    dsimp only at h
    split at h <;> simp_all

namespace Service

open Loop

variable {s s' : Service} {roles roles' : Roles Hook Job} {w : Woken} {m m' : Midst} {mv : Service.Move}
  {t : PromiseId} {hook : Hook} {o : Settled Reply} {turn : Turn Stage Reply}
  {busy : Option PromiseId} {base : Nat}

theorem gripAt_ne_ended (s : Service) (t : PromiseId) (result : Except Fault Reply) :
    s.gripAt t ≠ .ended result := by
  unfold gripAt
  split
  · exact Stage.grip_ne_ended _ result
  · simp

/-- Who has a result in hand ends with it. -/
theorem Ends.finish_of_ended {result : Except Fault Reply} (h : Ends w m turn)
    (hg : m.grip = .ended result) : turn = .finish result := by
  cases turn with
  | rest on point => exact absurd (h.1.symm.trans hg) (point.grip_ne_ended result)
  | giveWay point => exact absurd (h.1.symm.trans hg) (point.grip_ne_ended result)
  | finish result' =>
    rcases h with ⟨h, _⟩ | h
    · rw [hg] at h
      cases h
    · rw [hg] at h
      cases h
      rfl

/-- An unfinished task rests somewhere. -/
theorem Ordered.exists_place? (h : Ordered busy base s roles) (ht : (roles t).isTask = true)
    (hp : s.loop.isPending t = true) : ∃ point on, s.loop.place? t = some (point, on) := by
  obtain ⟨task, hget⟩ := Option.isSome_iff_exists.1 ((h.sound.listed t).2 ⟨ht, hp⟩)
  exact ⟨_, _, place?_of_get? hget⟩

/-- A task that rests somewhere is unfinished. -/
theorem Ordered.isPending_of_place? (h : Ordered busy base s roles) {point : Stage}
    {on : Option PromiseId} (hp : s.loop.place? t = some (point, on)) : s.loop.isPending t = true := by
  obtain ⟨task, hget, _⟩ := place?_eq_some_iff.1 hp
  exact h.sound.isPending hget

/-- One boot at most is unfinished. -/
theorem Ordered.boot_unique (h : Ordered busy base s roles) {op op' : PromiseId}
    (hr : roles op = .operation .boot) (hp : s.loop.isPending op = true)
    (hr' : roles op' = .operation .boot) (hp' : s.loop.isPending op' = true) : op = op' := by
  have he : s.bootFlight.entries.get? () = some op := h.boot.current hr hp
  have he' : s.bootFlight.entries.get? () = some op' := h.boot.current hr' hp'
  exact Option.some.inj (he.symm.trans he')

/-- The task that has its turn is unfinished, and has the role of its stage. -/
theorem InTurn.unfinished (h : InTurn w m) :
    m.roles w.task = w.stage.role ∧ m.service.loop.isPending w.task = true := by
  obtain ⟨task, given, hget, hpoint, _⟩ := h.woken
  have hplaced := h.ordered.placed (place?_of_get? hget)
  exact ⟨hpoint ▸ hplaced.role, h.ordered.sound.isPending hget⟩

/-- The tasks whose turn it is not stay where they are. -/
theorem HasTurn.stays (ht : HasTurn s roles w m turn) (h : AtRest s roles) (hne : t ≠ w.task)
    {point : Stage} {on : Option PromiseId} (hp : s.loop.place? t = some (point, on)) :
    (Program.conclude w.task turn m.service.loop).place? t = some (point, on) := by
  obtain ⟨task, hget, hpoint, hon⟩ := place?_eq_some_iff.1 hp
  obtain ⟨i, hb⟩ := ht.before
  have hget' : w.before.loop.tasks.get? t = some task := by
    rw [hb]
    exact hget
  have hm := Strides.get?_tasks (t := t) ht.strides (by rw [hb]; exact h.sound.known hget)
  exact place?_eq_some_iff.2 ⟨task, (get?_tasks_conclude hne).trans (hm.trans hget'), hpoint, hon⟩

/-- A task stays where it is, or has its turn. -/
theorem Step.stays_or_turn (h : AtRest s roles) (hst : Step s roles mv s' roles') {point : Stage}
    {on : Option PromiseId} (hp : s.loop.place? t = some (point, on)) :
    s'.loop.place? t = some (point, on) ∨ ∃ w m turn, HasTurn s roles w m turn ∧ w.task = t ∧
      w.stage = point ∧ s' = { m.service with loop := Program.conclude w.task turn m.service.loop } ∧
      roles' = m.roles := by
  rcases hst.aside_or_turn h with ha | ⟨w, m, turn, ht, rfl, rfl⟩
  · exact .inl (ha.stays hp)
  by_cases he : t = w.task
  · subst he
    obtain ⟨on', hp'⟩ := ht.place
    rw [hp] at hp'
    cases hp'
    exact .inr ⟨w, m, turn, ht, rfl, rfl, rfl, rfl⟩
  · exact .inl (ht.stays h he hp)

/-! ## How operations come to be -/

/-- A stride starts an operation, none of its kind being unfinished, or it starts none. -/
theorem Stride.operation_cases (h : InTurn w m) (hst : Stride w m m') :
    (∃ hook, m'.roles m.service.loop.promises.size = .operation hook ∧
      (∀ t, m.roles t = .operation hook → m.service.loop.isPending t = false) ∧
      (∀ t k, m'.roles t = .operation k → t = m.service.loop.promises.size ∧ k = hook ∨
        m.roles t = .operation k) ∧ m'.grip = m.grip ∧
      m'.service.phase = m.service.phase ∧ m'.service.engine = m.service.engine ∧
      m'.service.counts = m.service.counts ∧ m'.service.grammars = m.service.grammars ∧
      match hook with
      | .boot => m.service.phase ≠ .ready
      | .grammar _ => w.SeesReady m.service) ∨
    ∀ t k, m'.roles t = .operation k → m.roles t = .operation k := by
  have hnew : ∀ {role : Role Hook Job}, (∀ k, role ≠ .operation k) → ∀ t k,
      Function.update m.roles m.service.loop.promises.size role t = .operation k →
        m.roles t = .operation k := by
    intro role hne t k hk
    rw [Function.update_apply] at hk
    split at hk
    · exact absurd hk (hne k)
    · exact hk
  have hlaunch : ∀ {hook : Hook} (t k), Function.update
      (Function.update m.roles m.service.loop.promises.size (.operation hook))
      (m.service.loop.promises.size + 1) (.shield m.service.loop.promises.size) t = .operation k →
      t = m.service.loop.promises.size ∧ k = hook ∨ m.roles t = .operation k := by
    intro hook t k hk
    rw [Function.update_apply] at hk
    split at hk
    · cases hk
    · rw [Function.update_apply] at hk
      split at hk
      · cases hk
        exact .inl ⟨‹_›, rfl⟩
      · exact .inr hk
  have hself : ∀ {hook : Hook}, Function.update
      (Function.update m.roles m.service.loop.promises.size (.operation hook))
      (m.service.loop.promises.size + 1) (.shield m.service.loop.promises.size)
      m.service.loop.promises.size = .operation hook := by
    intro hook
    rw [Function.update_of_ne (Nat.ne_of_lt (Nat.lt_succ_self _))]
    exact Function.update_self ..
  cases hst with
  | bootJoined hb hr => exact .inr (hnew (by simp))
  | bootLaunched hb hn =>
    refine .inl ⟨.boot, hself, fun t ht => Bool.eq_false_iff.2 fun hp => ?_, hlaunch, rfl, rfl, rfl,
      rfl, rfl, hb⟩
    rw [h.ordered.boot.running?_iff.2 ⟨ht, hp⟩] at hn
    cases hn
  | loadJoined language hb hr => exact .inr (hnew (by simp))
  | loadLaunched language hb hn =>
    refine .inl ⟨.grammar language, hself, fun t ht => Bool.eq_false_iff.2 fun hp => ?_, hlaunch, rfl,
      rfl, rfl, rfl, rfl, hb⟩
    rw [h.ordered.load.running?_iff.2 ⟨ht, hp⟩] at hn
    cases hn
  | submitted crew hc hg => exact .inr (hnew (by simp))
  | guarded hg => exact .inr (hnew (by simp))
  | waited hg => exact .inr (hnew (by simp))
  | bootTimed seconds hg => exact .inr (hnew (by simp))
  | drawn hg hp => exact .inr (hnew (by simp))
  | gateMade => exact .inr (hnew (by simp))
  | spawned call => exact .inr (hnew (by simp))
  | grouped hm => exact .inr (hnew (by simp))
  | _ => exact .inr fun _ _ => id

/-- A stride settles no operation. -/
theorem Stride.isPending_operation (h : InTurn w m) (hst : Stride w m m') {k : Hook}
    (ht : m.roles t = .operation k) :
    m'.service.loop.isPending t = m.service.loop.isPending t := by
  have hlt := h.ordered.sound.assigned.lt_size (p := t) (by simp [ht])
  rw [Bool.eq_iff_iff, isPending_iff_outcome?, isPending_iff_outcome?,
    hst.outcome?_eq h (by simp [ht])]
  exact and_congr_left fun _ => ⟨fun _ => hlt, fun _ => Nat.lt_of_lt_of_le hlt hst.later.size_le⟩

/-! ## How operations end -/

/-- Between turns no operation ends. -/
theorem Aside.outcome?_operation (ha : Aside s roles s' roles') (h : AtRest s roles)
    (hst : Step s roles mv s' roles') {k : Hook} (ht : roles' t = .operation k) :
    roles t = .operation k ∧ s'.loop.isPending t = s.loop.isPending t ∧
      s'.loop.outcome? t = s.loop.outcome? t := by
  have ht' := ha.role ht (by simp)
  refine ⟨ht', ?_⟩
  have hlt := h.sound.assigned.lt_size (p := t) (by simp [ht'])
  rcases isPending_or_settled hlt with hp | ⟨o, ho⟩
  · obtain ⟨point, on, hplace⟩ := h.exists_place? (by rw [ht']; rfl) hp
    have hp' := (h.step hst).1.isPending_of_place? (ha.stays hplace)
    exact ⟨hp'.trans hp.symm, by rw [outcome?_of_isPending hp, outcome?_of_isPending hp']⟩
  · have ho' := hst.outcome?_of_some ho
    exact ⟨by rw [isPending_of_outcome? ho, isPending_of_outcome? ho'], ho'.trans ho.symm⟩

/-- A turn keeps what has been settled. -/
theorem HasTurn.outcome?_of_some (h : HasTurn s roles w m turn) (ho : s.loop.outcome? t = some o) :
    (Program.conclude w.task turn m.service.loop).outcome? t = some o := by
  refine (h.strides.later.trans (.conclude _ _)).outcome ?_
  obtain ⟨i, hb⟩ := h.before
  rw [hb]
  exact ho

/-- A turn ends an operation only if it is its own. -/
theorem HasTurn.outcome?_operation (h : HasTurn s roles w m turn) {k : Hook}
    (ht : m.roles t = .operation k)
    (ho : (Program.conclude w.task turn m.service.loop).outcome? t = some o) :
    m.service.loop.outcome? t = some o ∨
      t = w.task ∧ ∃ result, turn = .finish result ∧ o = Program.ended result ∧ m.grip = .ended result := by
  by_cases he : t = w.task
  · subst he
    have hp := h.inTurn.unfinished.2
    have hcall : w.stage.role ≠ .call := by
      rw [← h.inTurn.unfinished.1, ht]
      simp
    cases turn with
    | rest on point =>
      rw [show (Program.conclude w.task (.rest on point) m.service.loop).outcome? w.task =
        m.service.loop.outcome? w.task from outcome?_subscribe] at ho
      exact .inl ho
    | giveWay point => exact .inl ho
    | finish result =>
      rw [outcome?_finish hp] at ho
      refine .inr ⟨rfl, result, rfl, (Option.some.inj ho).symm, ?_⟩
      rcases h.ends with ⟨_, hc⟩ | hg
      · exact absurd hc hcall
      · exact hg
  · rw [Loop.outcome?_conclude he] at ho
    exact .inl ho

/-- An operation that a step has started rests somewhere. -/
theorem Step.place?_of_new (h : AtRest s roles) (hst : Step s roles mv s' roles') {k : Hook}
    (ht : roles' t = .operation k) (hnew : roles t ≠ .operation k) :
    ∃ point on, s'.loop.place? t = some (point, on) := by
  obtain ⟨h', hext⟩ := h.step hst
  have hsettled : ∀ {o}, s.loop.outcome? t ≠ some o := by
    intro o ho
    rw [← hext t (h.sound.assigned.role_ne_unused (outcome?_lt ho))] at hnew
    exact hnew ht
  refine h'.exists_place? (by rw [ht]; rfl) ?_
  rcases isPending_or_settled (h'.sound.assigned.lt_size (p := t) (by simp [ht])) with hp | ⟨o, ho⟩
  · exact hp
  · exfalso
    rcases hst.aside_or_turn h with ha | ⟨w, m, turn, hturn, rfl, rfl⟩
    · exact hnew (ha.role ht (by simp))
    · rcases hturn.outcome?_operation ht ho with ho | ⟨rfl, _⟩
      · rw [Strides.outcome?_eq hturn.started hturn.strides (by simp [ht])] at ho
        obtain ⟨i, hb⟩ := hturn.before
        have ho' : w.before.loop.outcome? t = some o := ho
        rw [hb] at ho'
        exact hsettled ho'
      · have hrole := hturn.started.unfinished.1
        rw [← hturn.inTurn.unfinished.1, ht] at hrole
        exact hnew hrole

/-! ## What callers are given -/

/-- A caller that is given something while it waits for an operation is given what that ended with. -/
theorem InTurn.shielded (h : InTurn w m) (hs : w.stage.rest = .shield hook) {r : Reply}
    (hr : w.given = .ok r) :
    ∃ op, m.roles op = .operation hook ∧ m.service.loop.outcome? op = some (.value r) := by
  obtain ⟨task, given, hplaced, hgives, hmet⟩ := h.placed
  have hrest := hplaced.rest
  rw [hs] at hrest
  obtain ⟨p, op, hon, hp, hop⟩ := hrest
  unfold Loop.Gives at hgives
  rw [hon] at hgives
  obtain ⟨o, ho, rfl⟩ := hgives
  obtain ⟨_, hgiven⟩ := Program.met_eq_ok (hmet.symm.trans hr)
  have ho' : o = .value r := by
    cases o with
    | value v =>
      cases hgiven
      rfl
    | failed f => cases hgiven
    | cancelled => cases hgiven
  rcases h.ordered.sound.assigned.taken hp ho with hc | hend
  · rw [ho'] at hc
    cases hc
  · exact ⟨op, hop, ho' ▸ hend⟩

end Service

end SourceTrees
