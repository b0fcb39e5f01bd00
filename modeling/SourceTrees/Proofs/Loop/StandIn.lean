import SourceTrees.Proofs.Loop.Likeness

/-!
# A task that stands in for another

Two loops may have different tasks under the same name: their points are related, and they may return different
values.  Everything else is the same, with all promises but that of the task, and all tasks but it.

## Results

* `Loop.StandIn` — the relation; `Loop.likeness_standIn` — it is a likeness.
* `Loop.StandIn.conclude` — turns of the two tasks that end alike keep it.
-/

set_option autoImplicit false

namespace SourceTrees

variable {V P K : Type}

/-- Promises that are open with the same reactions, or settled in the same manner. -/
inductive Promise.Like : Promise V K → Promise V K → Prop
  | pending (reactions : List (Reaction K)) : Like (.pending reactions) (.pending reactions)
  | settled {o o' : Settled V} (h : o'.manner = o.manner) : Like (.settled o) (.settled o')

theorem Promise.Like.refl (x : Promise V K) : x.Like x := by
  cases x with
  | pending rs => exact .pending rs
  | settled o => exact .settled rfl

/-- Turns that end alike: at points that are related, or with outcomes that are. -/
inductive Turn.Like (B : P → P → Prop) (A : Settled V → Settled V → Prop) : Turn P V → Turn P V → Prop
  | rest {on : PromiseId} {point point' : P} (h : B point point') : Like B A (.rest on point) (.rest on point')
  | giveWay {point point' : P} (h : B point point') : Like B A (.giveWay point) (.giveWay point')
  | finish {r r' : Except Fault V} (h : A (Program.ended r) (Program.ended r')) :
      Like B A (.finish r) (.finish r')

/-- The outcome of a task whose turn ends so. -/
def Turn.outcome? : Turn P V → Option (Settled V)
  | .finish result => some (Program.ended result)
  | .rest _ _ | .giveWay _ => none

theorem Turn.Like.outcome? {B : P → P → Prop} {A : Settled V → Settled V → Prop} {turn turn' : Turn P V}
    (h : turn.Like B A turn') : Option.Rel A turn.outcome? turn'.outcome? := by
  cases h with
  | rest | giveWay => exact .none
  | finish ha => exact .some ha

namespace Loop

/-- What the outcome of a task is after its turn. -/
theorem outcome?_conclude_self {l : Loop V P K} {t : PromiseId} (h : l.isPending t = true) (turn : Turn P V) :
    (Program.conclude t turn l).outcome? t = turn.outcome? := by
  cases turn with
  | finish result => exact outcome?_finish h result
  | rest on point =>
    refine (outcome?_subscribe ..).trans ?_
    exact outcome?_of_isPending h
  | giveWay point => exact outcome?_of_isPending h

variable {c p : PromiseId} {B : P → P → Prop} {l l' : Loop V P K}

/-- The task is another one in the second loop, and everything else is the same. -/
structure StandIn (c : PromiseId) (B : P → P → Prop) (l l' : Loop V P K) : Prop where
  known : c < l.promises.size
  size : l'.promises.size = l.promises.size
  promise : ∀ {p}, p ≠ c → l'.promises[p]? = l.promises[p]?
  own : Option.Rel Promise.Like l.promises[c]? l'.promises[c]?
  task : ∀ {t}, t ≠ c → l'.tasks.get? t = l.tasks.get? t
  ownTask : l.tasks.get? c = none ∧ l'.tasks.get? c = none ∨
    ∃ point point' on marked, l.tasks.get? c = some ⟨point, on, marked⟩ ∧
      l'.tasks.get? c = some ⟨point', on, marked⟩ ∧ B point point'
  rest : ∃ promises tasks, l' = { l with promises, tasks }

namespace StandIn

/-- Every promise is like the other of its name. -/
theorem like (h : StandIn c B l l') (p : PromiseId) :
    Option.Rel Promise.Like l.promises[p]? l'.promises[p]? := by
  by_cases he : p = c
  · rw [he]
    exact h.own
  · rw [h.promise he]
    cases l.promises[p]? with
    | none => exact .none
    | some x => exact .some (.refl x)

theorem isPending (h : StandIn c B l l') (p : PromiseId) : l'.isPending p = l.isPending p := by
  have hp := h.like p
  unfold Loop.isPending
  cases hx : l.promises[p]? <;> cases hx' : l'.promises[p]? <;> rw [hx, hx'] at hp <;> cases hp
  rename_i hx
  cases hx <;> rfl

theorem manner (h : StandIn c B l l') (p : PromiseId) :
    (l'.outcome? p).map Settled.manner = (l.outcome? p).map Settled.manner := by
  have hp := h.like p
  unfold Loop.outcome?
  cases hx : l.promises[p]? <;> cases hx' : l'.promises[p]? <;> rw [hx, hx'] at hp <;> cases hp
  rename_i hx
  cases hx with
  | pending => rfl
  | settled hm => exact congrArg some hm

theorem outcome?_of_ne (h : StandIn c B l l') (hne : p ≠ c) : l'.outcome? p = l.outcome? p := by
  unfold Loop.outcome?
  rw [h.promise hne]

/-- Promises of the same name are changed alike. -/
theorem setPromise (h : StandIn c B l l') (p : PromiseId) {x x' : Promise V K} (hx : x.Like x')
    (hsame : p ≠ c → x' = x) :
    StandIn c B { l with promises := l.promises.setIfInBounds p x }
      { l' with promises := l'.promises.setIfInBounds p x' } where
  known := by simpa using h.known
  size := by simpa using h.size
  promise {q} hq := by
    rw [Array.getElem?_setIfInBounds, Array.getElem?_setIfInBounds, h.size, h.promise hq]
    split
    · rename_i he
      rw [hsame (he ▸ hq)]
    · rfl
  own := by
    rw [Array.getElem?_setIfInBounds, Array.getElem?_setIfInBounds, h.size]
    split
    · split
      · exact .some hx
      · exact .none
    · exact h.own
  task := h.task
  ownTask := h.ownTask
  rest := by
    obtain ⟨_, _, rfl⟩ := h.rest
    exact ⟨_, _, rfl⟩

theorem withAgenda (h : StandIn c B l l') (agenda : List (Errand V K)) :
    StandIn c B { l with agenda } { l' with agenda } where
  known := h.known
  size := h.size
  promise := h.promise
  own := h.own
  task := h.task
  ownTask := h.ownTask
  rest := by
    obtain ⟨_, _, rfl⟩ := h.rest
    exact ⟨_, _, rfl⟩

theorem agenda_eq (h : StandIn c B l l') : l'.agenda = l.agenda := by
  obtain ⟨_, _, rfl⟩ := h.rest
  rfl

/-- Promises of the same name are settled in the same manner. -/
theorem settleLike (h : StandIn c B l l') (p : PromiseId) {o o' : Settled V} (ho : o'.manner = o.manner)
    (hsame : p ≠ c → o' = o) : StandIn c B (l.settle p o) (l'.settle p o') := by
  have hp := h.like p
  unfold Loop.settle
  cases hx : l.promises[p]? <;> cases hx' : l'.promises[p]? <;> rw [hx, hx'] at hp <;> cases hp
  · exact h
  · rename_i hx
    cases hx with
    | pending rs =>
      dsimp only
      rw [h.agenda_eq]
      exact (h.setPromise p (.settled ho) fun hne => by rw [hsame hne]).withAgenda _
    | settled _ => exact h

end StandIn

/-- **Loops in which one task stands in for another are alike.** -/
theorem likeness_standIn [DecidableEq K] (c : PromiseId) (B : P → P → Prop) :
    Likeness c (StandIn c B : Loop V P K → Loop V P K → Prop) where
  known h := h.known
  size h := h.size
  isPending h := h.isPending
  manner h := h.manner
  task h := h.task
  restsOn {l l'} h t := by
    by_cases he : t = c
    · rw [he]
      rcases h.ownTask with ⟨hn, hn'⟩ | ⟨_, _, _, _, hs, hs', _⟩
      · rw [hn, hn']
      · rw [hs, hs']
        rfl
    · rw [h.task he]
  rest h := h.rest
  replace h groups agenda timers now := by
    refine ⟨h.known, h.size, h.promise, h.own, h.task, h.ownTask, ?_⟩
    obtain ⟨_, _, rfl⟩ := h.rest
    exact ⟨_, _, rfl⟩
  promise {l l'} h := by
    have hlt := h.known
    refine ⟨?_, ?_, fun {q} hq => ?_, ?_, h.task, h.ownTask, ?_⟩
    · rw [size_promise]
      exact Nat.lt_succ_of_lt hlt
    · rw [size_promise, size_promise, h.size]
    · rw [promises_promise, promises_promise, h.size, h.promise hq]
    · rw [promises_promise, promises_promise, h.size, if_neg (Nat.ne_of_lt hlt), if_neg (Nat.ne_of_lt hlt)]
      exact h.own
    · obtain ⟨_, _, rfl⟩ := h.rest
      exact ⟨_, _, rfl⟩
  settle h p o := h.settleLike p rfl fun _ => rfl
  subscribe {l l'} h p r := by
    have hp := h.like p
    unfold Loop.subscribe
    cases hx : l.promises[p]? <;> cases hx' : l'.promises[p]? <;> rw [hx, hx'] at hp <;> cases hp
    · exact h
    · rename_i hx
      cases hx with
      | pending rs => exact h.setPromise p (.pending (rs ++ [r])) fun _ => rfl
      | settled _ =>
        unfold Loop.enqueue
        dsimp only
        rw [h.agenda_eq]
        exact h.withAgenda _
  unsubscribe {l l'} h p r := by
    have hp := h.like p
    unfold Loop.unsubscribe
    cases hx : l.promises[p]? <;> cases hx' : l'.promises[p]? <;> rw [hx, hx'] at hp <;> cases hp
    · exact h
    · rename_i hx
      cases hx with
      | pending rs => exact h.setPromise p (.pending (rs.filter (· ≠ r))) fun _ => rfl
      | settled _ => exact h
  putTask {l l'} h t hne task := by
    refine ⟨h.known, h.size, h.promise, h.own, fun {q} hq => ?_, ?_, ?_⟩
    · rw [Keyed.get?_put, Keyed.get?_put, h.task hq]
    · rw [Keyed.get?_put, Keyed.get?_put, if_neg hne.symm, if_neg hne.symm]
      exact h.ownTask
    · obtain ⟨_, _, rfl⟩ := h.rest
      exact ⟨_, _, rfl⟩
  eraseTask {l l'} h t hne := by
    refine ⟨h.known, h.size, h.promise, h.own, fun {q} hq => ?_, ?_, ?_⟩
    · rw [Keyed.get?_erase, Keyed.get?_erase, h.task hq]
    · rw [Keyed.get?_erase, Keyed.get?_erase, if_neg hne.symm, if_neg hne.symm]
      exact h.ownTask
    · obtain ⟨_, _, rfl⟩ := h.rest
      exact ⟨_, _, rfl⟩
  mark {l l'} h t := by
    refine ⟨h.known, h.size, h.promise, h.own, fun {q} hq => ?_, ?_, ?_⟩
    · rw [get?_tasks_mark, get?_tasks_mark, h.task hq]
    · rw [get?_tasks_mark, get?_tasks_mark]
      rcases h.ownTask with ⟨hn, hn'⟩ | ⟨point, point', on, marked, hs, hs', hb⟩
      · rw [hn, hn']
        exact .inl ⟨rfl, rfl⟩
      · rw [hs, hs']
        by_cases he : c = t
        · exact .inr ⟨point, point', on, true, by simp [he], by simp [he], hb⟩
        · exact .inr ⟨point, point', on, marked, by simp [he], by simp [he], hb⟩
    · obtain ⟨_, _, rfl⟩ := h.rest
      exact ⟨_, _, rfl⟩

namespace StandIn

/-- The task itself goes on in both loops, from points that are related. -/
theorem putOwn (h : StandIn c B l l') {point point' : P} (hb : B point point') (on : Option PromiseId) :
    StandIn c B { l with tasks := l.tasks.put c { point, restsOn := on } }
      { l' with tasks := l'.tasks.put c { point := point', restsOn := on } } := by
  refine ⟨h.known, h.size, h.promise, h.own, fun {q} hq => ?_, ?_, ?_⟩
  · rw [Keyed.get?_put, Keyed.get?_put, if_neg hq, if_neg hq]
    exact h.task hq
  · rw [Keyed.get?_put, Keyed.get?_put, if_pos rfl, if_pos rfl]
    exact .inr ⟨point, point', on, false, rfl, rfl, hb⟩
  · obtain ⟨_, _, rfl⟩ := h.rest
    exact ⟨_, _, rfl⟩

theorem eraseOwn (h : StandIn c B l l') :
    StandIn c B { l with tasks := l.tasks.erase c } { l' with tasks := l'.tasks.erase c } := by
  refine ⟨h.known, h.size, h.promise, h.own, fun {q} hq => ?_, .inl ?_, ?_⟩
  · rw [Keyed.get?_erase, Keyed.get?_erase, h.task hq]
  · rw [Keyed.get?_erase, Keyed.get?_erase]
    exact ⟨if_pos rfl, if_pos rfl⟩
  · obtain ⟨_, _, rfl⟩ := h.rest
    exact ⟨_, _, rfl⟩

/-- **The turns of the two tasks end alike**, if outcomes that are related are of the same manner. -/
theorem conclude [DecidableEq K] (h : StandIn c B l l') {A : Settled V → Settled V → Prop}
    (hA : ∀ {o o'}, A o o' → o'.manner = o.manner) {turn turn' : Turn P V} (ht : turn.Like B A turn') :
    StandIn c B (Program.conclude c turn l) (Program.conclude c turn' l') := by
  cases ht with
  | rest hb => exact (likeness_standIn c B).subscribe (h.putOwn hb _) _ _
  | giveWay hb => exact (likeness_standIn c B).enqueueAll (h.putOwn hb _) _
  | finish ha => exact h.eraseOwn.settleLike c (hA ha) fun hne => absurd rfl hne

/-- A task that has just been started, and another one in its place. -/
theorem spawned {point point' : P} (l : Loop V P K) (hb : B point point') :
    StandIn l.promises.size B (l.spawn point).2 (l.spawn point').2 := by
  refine ⟨?_, rfl, fun _ => rfl, ?_, fun {q} hq => ?_, .inr ?_, ⟨_, _, rfl⟩⟩
  · rw [size_spawn]
    exact Nat.lt_succ_self _
  · show Option.Rel _ _ (l.spawn point).2.promises[l.promises.size]?
    cases (l.spawn point).2.promises[l.promises.size]? with
    | none => exact .none
    | some x => exact .some (.refl x)
  · rw [get?_tasks_spawn, get?_tasks_spawn, if_neg hq, if_neg hq]
  · rw [get?_tasks_spawn, get?_tasks_spawn, if_pos rfl, if_pos rfl]
    exact ⟨point, point', none, false, rfl, rfl, hb⟩

end StandIn

end Loop

end SourceTrees
