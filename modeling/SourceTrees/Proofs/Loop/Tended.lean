import SourceTrees.Proofs.Loop.Reactions
import Mathlib.Data.List.Perm.Basic

/-!
# Every task is woken once

An unfinished task has its turn coming in exactly one place.  If it rests on nothing, an errand on the
agenda starts or continues it.  If it rests on a promise, it is due to be woken by that promise and by
no other.

While a task has its turn it is **busy**: nothing is coming for it, and where it rested does not count.
A promise that it is going to rest on is one that was made during the turn, so that no two tasks ever
rest on the same promise; `base` is the number of promises at the start of the turn.

## Results

* `Loop.Tended` — the discipline, kept by every operation of a loop.
* `Loop.Tended.takeUp` — the errand that wakes a task is the only one for it.
* `Loop.Tended.rest`, `Loop.Tended.giveWay`, `Loop.Tended.finish` — the three ends of a turn.
-/

set_option autoImplicit false

namespace SourceTrees

variable {V P K : Type}

/-- The task that an errand gives its turn. -/
def Errand.woken? : Errand V K → Option PromiseId
  | .step t => some t
  | .react (.wake t) _ => some t
  | _ => none

/-- The task that a reaction wakes. -/
def Reaction.woken? : Reaction K → Option PromiseId
  | .wake t => some t
  | _ => none

theorem Errand.woken?_eq_some_iff {e : Errand V K} {t : PromiseId} :
    e.woken? = some t ↔ e = .step t ∨ ∃ p, e = .react (.wake t) p := by
  rcases e with t' | ⟨r, p⟩ | ⟨p, o⟩ | p
  · simp [woken?]
  · cases r <;> simp [woken?]
  · simp [woken?]
  · simp [woken?]

theorem Reaction.woken?_eq_some_iff {r : Reaction K} {t : PromiseId} :
    r.woken? = some t ↔ r = .wake t := by
  cases r <;> simp [woken?]

@[simp] theorem Errand.woken?_react (r : Reaction K) (p : PromiseId) :
    (Errand.react r p : Errand V K).woken? = r.woken? := by
  cases r <;> rfl

namespace Loop

variable {l l' : Loop V P K} {busy : Option PromiseId} {base : Nat} {t : PromiseId}

/-- The tasks that errands on the agenda give their turn, in order. -/
def wakes (l : Loop V P K) : List PromiseId := l.agenda.filterMap Errand.woken?

theorem wakes_subscribe (l : Loop V P K) (p : PromiseId) (r : Reaction K) :
    (l.subscribe p r).wakes = l.wakes ∨ (l.subscribe p r).wakes = l.wakes ++ r.woken?.toList := by
  unfold subscribe wakes
  split
  · exact .inl rfl
  · refine .inr ?_
    cases r <;> simp [enqueue, Reaction.woken?]
  · exact .inl rfl

/-- Every task that is not busy is woken once. -/
structure Tended (busy : Option PromiseId) (base : Nat) (l : Loop V P K) : Prop where
  base_le : base ≤ l.promises.size
  settled : ∀ {r p}, .react r p ∈ l.agenda → ∃ o, l.outcome? p = some o
  stepped : ∀ {t}, .step t ∈ l.agenda →
    busy ≠ some t ∧ ∃ task, l.tasks.get? t = some task ∧ task.restsOn = none
  woken : ∀ {p t}, l.Due p (.wake t) →
    busy ≠ some t ∧ ∃ task, l.tasks.get? t = some task ∧ task.restsOn = some p
  once : l.wakes.Nodup
  single : ∀ {p : PromiseId} {rs : List (Reaction K)}, l.promises[p]? = some (.pending rs) →
    (rs.filterMap Reaction.woken?).Nodup
  ready : ∀ {t task}, busy ≠ some t → l.tasks.get? t = some task → task.restsOn = none →
    .step t ∈ l.agenda
  resting : ∀ {t task p}, busy ≠ some t → l.tasks.get? t = some task → task.restsOn = some p →
    p < base ∧ l.Due p (.wake t)
  alone : ∀ {t t' task task' p}, busy ≠ some t → busy ≠ some t' → l.tasks.get? t = some task →
    l.tasks.get? t' = some task' → task.restsOn = some p → task'.restsOn = some p → t = t'
  known : ∀ {t task}, l.tasks.get? t = some task → t < l.promises.size

namespace Tended

/-- The discipline is about promises, tasks and the agenda. -/
theorem congr (h : l.Tended busy base) (hp : l'.promises = l.promises) (ht : l'.tasks = l.tasks)
    (ha : l'.agenda = l.agenda) : l'.Tended busy base := by
  obtain ⟨promises, tasks, groups, agenda, timers, now⟩ := l
  obtain ⟨promises', tasks', groups', agenda', timers', now'⟩ := l'
  cases hp
  cases ht
  cases ha
  exact ⟨h.base_le, h.settled, h.stepped, h.woken, h.once, h.single, h.ready, h.resting, h.alone,
    h.known⟩

theorem mono_base {base' : Nat} (h : l.Tended busy base) (hle : base ≤ base')
    (hsize : base' ≤ l.promises.size) : l.Tended busy base' where
  base_le := hsize
  settled := h.settled
  stepped := h.stepped
  woken := h.woken
  once := h.once
  single := h.single
  ready := h.ready
  resting hb ht hr := ⟨Nat.lt_of_lt_of_le (h.resting hb ht hr).1 hle, (h.resting hb ht hr).2⟩
  alone := h.alone
  known := h.known

theorem init : (({} : Loop V P K)).Tended none 0 where
  base_le := Nat.zero_le _
  settled h := by cases h
  stepped h := by cases h
  woken h := by
    rcases h with ⟨rs, h, _⟩ | h
    · simp at h
    · cases h
  once := List.nodup_nil
  single h := by simp at h
  ready _ h := by cases h
  resting _ h := by cases h
  alone _ _ h := by cases h
  known h := by cases h

/-- A task that an errand on the agenda wakes. -/
theorem mem_wakes (h : l.Tended busy base) (hm : t ∈ l.wakes) :
    busy ≠ some t ∧ ∃ task, l.tasks.get? t = some task ∧
      ∀ p, task.restsOn = some p → ∃ o, l.outcome? p = some o := by
  obtain ⟨e, he, ht⟩ := List.mem_filterMap.1 hm
  rcases Errand.woken?_eq_some_iff.1 ht with rfl | ⟨p, rfl⟩
  · obtain ⟨hb, task, hget, hrest⟩ := h.stepped he
    refine ⟨hb, task, hget, fun p hp => ?_⟩
    rw [hrest] at hp
    cases hp
  · obtain ⟨hb, task, hget, hrest⟩ := h.woken (.inr he)
    refine ⟨hb, task, hget, fun q hq => ?_⟩
    rw [hrest] at hq
    cases hq
    exact h.settled he

/-! ## Operations that wake no one -/

theorem promise (h : l.Tended busy base) : l.promise.2.Tended busy base where
  base_le := by
    have := h.base_le
    rw [size_promise]
    omega
  settled hm := by
    rw [outcome?_promise]
    exact h.settled hm
  stepped := h.stepped
  woken hd := h.woken (due_promise.1 hd)
  once := h.once
  single hp := by
    rw [promises_promise] at hp
    split at hp
    · cases hp
      exact List.nodup_nil
    · exact h.single hp
  ready := h.ready
  resting hb ht hr := ⟨(h.resting hb ht hr).1, due_promise.2 (h.resting hb ht hr).2⟩
  alone := h.alone
  known ht := by
    rw [size_promise]
    exact Nat.lt_succ_of_lt (h.known ht)

/-- The reactions of a settled promise wake other tasks than the agenda does. -/
theorem wakes_settle (h : l.Tended busy base) (p : PromiseId) (s : Settled V) :
    (l.settle p s).wakes.Nodup := by
  unfold Loop.settle
  split
  · rename_i rs hrs
    have hp : l.isPending p = true := isPending_iff.2 ⟨rs, hrs⟩
    have hmap : (rs.map fun r => (Errand.react r p : Errand V K)).filterMap Errand.woken? =
        rs.filterMap Reaction.woken? := by
      rw [List.filterMap_map]
      exact List.filterMap_congr fun r _ => Errand.woken?_react r p
    simp only [wakes, List.filterMap_append, hmap]
    refine List.nodup_append.2 ⟨h.once, h.single hrs, fun t ht t' ht' heq => ?_⟩
    subst heq
    obtain ⟨r, hr, hw⟩ := List.mem_filterMap.1 ht'
    rw [Reaction.woken?_eq_some_iff.1 hw] at hr
    obtain ⟨_, task, hget, hrest⟩ := h.woken (.inl ⟨rs, hrs, hr⟩)
    obtain ⟨_, task', hget', hset⟩ := h.mem_wakes ht
    rw [hget] at hget'
    cases hget'
    obtain ⟨o, ho⟩ := hset p hrest
    rw [outcome?_of_isPending hp] at ho
    cases ho
  · exact h.once

theorem settle (h : l.Tended busy base) (p : PromiseId) (s : Settled V) :
    (l.settle p s).Tended busy base where
  base_le := by
    rw [size_settle]
    exact h.base_le
  settled {r q} hm := by
    rcases mem_agenda_settle.1 hm with hm | ⟨r', he, hs⟩
    · obtain ⟨o, ho⟩ := h.settled hm
      exact ⟨o, outcome?_settle_of_some ho⟩
    · cases he
      exact ⟨s, by rw [outcome?_settle, if_pos ⟨rfl, hs.isPending⟩]⟩
  stepped hm := by
    rw [tasks_settle]
    rcases mem_agenda_settle.1 hm with hm | ⟨r', he, _⟩
    · exact h.stepped hm
    · cases he
  woken hd := by
    rw [tasks_settle]
    exact h.woken (due_settle.1 hd)
  once := h.wakes_settle p s
  single hp := by
    rw [promises_settle] at hp
    split at hp
    · cases hp
    · exact h.single hp
  ready hb ht hr := by
    rw [tasks_settle] at ht
    exact mem_agenda_settle.2 (.inl (h.ready hb ht hr))
  resting hb ht hr := by
    rw [tasks_settle] at ht
    exact ⟨(h.resting hb ht hr).1, due_settle.2 (h.resting hb ht hr).2⟩
  alone hb hb' ht ht' := by
    rw [tasks_settle] at ht ht'
    exact h.alone hb hb' ht ht'
  known ht := by
    rw [tasks_settle] at ht
    rw [size_settle]
    exact h.known ht

/-- Adding a reaction that wakes no one. -/
theorem subscribe (h : l.Tended busy base) (p : PromiseId) {r : Reaction K}
    (hr : r.woken? = none) : (l.subscribe p r).Tended busy base := by
  have hdue : ∀ {q t}, (l.subscribe p r).Due q (.wake t) ↔ l.Due q (.wake t) := by
    intro q t
    have hne : Reaction.wake t ≠ r := fun he => by
      rw [← he] at hr
      cases hr
    unfold Due
    rw [subscribed_subscribe, mem_agenda_subscribe]
    constructor
    · rintro ((hd | ⟨_, he, _⟩) | hd | ⟨he, _⟩)
      · exact .inl hd
      · exact absurd he hne
      · exact .inr hd
      · cases he
        exact absurd rfl hne
    · rintro (hd | hd)
      · exact .inl (.inl hd)
      · exact .inr (.inl hd)
  have hwakes : (l.subscribe p r).wakes = l.wakes := by
    rcases wakes_subscribe l p r with hw | hw
    · exact hw
    · rw [hw, hr, Option.toList_none, List.append_nil]
  refine ⟨?_, ?_, ?_, ?_, ?_, ?_, ?_, ?_, ?_, ?_⟩
  · rw [size_subscribe]
    exact h.base_le
  · intro r' q hm
    rw [outcome?_subscribe]
    rcases mem_agenda_subscribe.1 hm with hm | ⟨he, ho⟩
    · exact h.settled hm
    · cases he
      exact ho
  · intro t hm
    rw [tasks_subscribe]
    rcases mem_agenda_subscribe.1 hm with hm | ⟨he, _⟩
    · exact h.stepped hm
    · cases he
  · intro q t hd
    rw [tasks_subscribe]
    exact h.woken (hdue.1 hd)
  · rw [hwakes]
    exact h.once
  · intro q rs hq
    rcases promises_subscribe (l := l) (p := p) (q := q) (r := r) with he | ⟨rfl, rs', hrs, he⟩
    · rw [he] at hq
      exact h.single hq
    · rw [he] at hq
      cases hq
      simpa [hr] using h.single hrs
  · intro t task hb ht hr'
    rw [tasks_subscribe] at ht
    exact mem_agenda_subscribe.2 (.inl (h.ready hb ht hr'))
  · intro t task q hb ht hr'
    rw [tasks_subscribe] at ht
    exact ⟨(h.resting hb ht hr').1, hdue.2 (h.resting hb ht hr').2⟩
  · intro t t' task task' q hb hb' ht ht'
    rw [tasks_subscribe] at ht ht'
    exact h.alone hb hb' ht ht'
  · intro t task ht
    rw [tasks_subscribe] at ht
    rw [size_subscribe]
    exact h.known ht

/-- Removing a reaction that wakes no one. -/
theorem unsubscribe [DecidableEq K] (h : l.Tended busy base) (p : PromiseId) {r : Reaction K}
    (hr : r.woken? = none) : (l.unsubscribe p r).Tended busy base := by
  have hdue : ∀ {q t}, (l.unsubscribe p r).Due q (.wake t) ↔ l.Due q (.wake t) := by
    intro q t
    have hne : ¬(q = p ∧ Reaction.wake t = r) := fun he => by
      rw [← he.2] at hr
      cases hr
    unfold Due
    rw [subscribed_unsubscribe, agenda_unsubscribe]
    simp [hne]
  refine ⟨?_, ?_, ?_, ?_, ?_, ?_, ?_, ?_, ?_, ?_⟩
  · rw [size_unsubscribe]
    exact h.base_le
  · intro r' q hm
    rw [outcome?_unsubscribe]
    exact h.settled (by simpa using hm)
  · intro t hm
    rw [tasks_unsubscribe]
    exact h.stepped (by simpa using hm)
  · intro q t hd
    rw [tasks_unsubscribe]
    exact h.woken (hdue.1 hd)
  · unfold wakes
    rw [agenda_unsubscribe]
    exact h.once
  · intro q rs hq
    rcases promises_unsubscribe (l := l) (p := p) (q := q) (r := r) with he | ⟨rfl, rs', hrs, he⟩
    · rw [he] at hq
      exact h.single hq
    · rw [he] at hq
      cases hq
      exact (h.single hrs).sublist (List.filter_sublist.filterMap _)
  · intro t task hb ht hr'
    rw [tasks_unsubscribe] at ht
    rw [agenda_unsubscribe]
    exact h.ready hb ht hr'
  · intro t task q hb ht hr'
    rw [tasks_unsubscribe] at ht
    exact ⟨(h.resting hb ht hr').1, hdue.2 (h.resting hb ht hr').2⟩
  · intro t t' task task' q hb hb' ht ht'
    rw [tasks_unsubscribe] at ht ht'
    exact h.alone hb hb' ht ht'
  · intro t task ht
    rw [tasks_unsubscribe] at ht
    rw [size_unsubscribe]
    exact h.known ht

/-- Putting errands on the agenda that wake no one and react to nothing. -/
theorem enqueueAll (h : l.Tended busy base) {es : List (Errand V K)}
    (hw : ∀ e ∈ es, e.woken? = none) (hr : ∀ r p, .react r p ∉ es) :
    ({ l with agenda := l.agenda ++ es } : Loop V P K).Tended busy base where
  base_le := h.base_le
  settled hm := by
    rcases List.mem_append.1 hm with hm | hm
    · exact h.settled hm
    · exact absurd hm (hr _ _)
  stepped hm := by
    rcases List.mem_append.1 hm with hm | hm
    · exact h.stepped hm
    · exact absurd (hw _ hm) (by simp [Errand.woken?])
  woken hd := by
    rcases hd with hd | hm
    · exact h.woken (.inl hd)
    · rcases List.mem_append.1 hm with hm | hm
      · exact h.woken (.inr hm)
      · exact absurd hm (hr _ _)
  once := by
    have hnil : es.filterMap Errand.woken? = [] := List.filterMap_eq_nil_iff.2 hw
    simpa [wakes, hnil] using h.once
  single := h.single
  ready hb ht hn := List.mem_append_left _ (h.ready hb ht hn)
  resting hb ht hn := by
    refine ⟨(h.resting hb ht hn).1, ?_⟩
    rcases (h.resting hb ht hn).2 with hd | hd
    · exact .inl hd
    · exact .inr (List.mem_append_left _ hd)
  alone := h.alone
  known := h.known

end Tended

/-! ## Errands leave the agenda -/

/-- The loop without the errand at a position of the agenda. -/
def pick (l : Loop V P K) (i : Nat) : Loop V P K := { l with agenda := l.agenda.eraseIdx i }

theorem mem_agenda_of_mem_pick {i : Nat} {e : Errand V K} (h : e ∈ (l.pick i).agenda) :
    e ∈ l.agenda := List.mem_of_mem_eraseIdx h

theorem mem_agenda_pick {i : Nat} {e e' : Errand V K} (hi : l.agenda[i]? = some e)
    (h : e' ∈ l.agenda) : e' = e ∨ e' ∈ (l.pick i).agenda := by
  obtain ⟨j, hj⟩ := List.getElem?_of_mem h
  by_cases hij : j = i
  · subst hij
    rw [hi] at hj
    exact .inl (Option.some.inj hj).symm
  · exact .inr (List.mem_eraseIdx_iff_getElem?.2 ⟨j, hij, hj⟩)

/-- An errand on the agenda stands beside the others. -/
theorem agenda_perm_pick {i : Nat} {e : Errand V K} (hi : l.agenda[i]? = some e) :
    (e :: (l.pick i).agenda).Perm l.agenda := by
  obtain ⟨hlt, rfl⟩ := List.getElem?_eq_some_iff.1 hi
  exact List.getElem_cons_eraseIdx_perm hlt

theorem due_of_due_pick {i : Nat} {p : PromiseId} {r : Reaction K} (h : (l.pick i).Due p r) :
    l.Due p r := h.imp id mem_agenda_of_mem_pick

theorem due_pick {i : Nat} {e : Errand V K} {p : PromiseId} {r : Reaction K}
    (hi : l.agenda[i]? = some e) (hne : e ≠ .react r p) (h : l.Due p r) : (l.pick i).Due p r := by
  rcases h with h | h
  · exact .inl h
  · rcases mem_agenda_pick hi h with h | h
    · exact absurd h.symm hne
    · exact .inr h

/-- Settling a promise and taking an errand from the agenda can change places. -/
theorem pick_settle {i : Nat} {e : Errand V K} {p : PromiseId} {o : Settled V}
    (hi : l.agenda[i]? = some e) :
    (l.settle p o).pick i = (l.pick i).settle p o ∧ (l.settle p o).agenda[i]? = some e := by
  have hlt := (List.getElem?_eq_some_iff.1 hi).1
  unfold settle pick
  split
  · rename_i rs hrs
    simp only [hrs, List.eraseIdx_append_of_lt_length hlt, true_and]
    rw [← hi]
    exact List.getElem?_append_left hlt
  · exact ⟨rfl, hi⟩

namespace Tended

variable {i : Nat} {e : Errand V K}

/-- An errand is served that wakes no one. -/
theorem pick (h : l.Tended busy base) (hi : l.agenda[i]? = some e) (hw : e.woken? = none) :
    (l.pick i).Tended busy base where
  base_le := h.base_le
  settled hm := h.settled (mem_agenda_of_mem_pick hm)
  stepped hm := h.stepped (mem_agenda_of_mem_pick hm)
  woken hd := h.woken (due_of_due_pick hd)
  once := h.once.sublist ((List.eraseIdx_sublist ..).filterMap _)
  single := h.single
  ready hb ht hn := by
    rcases mem_agenda_pick hi (h.ready hb ht hn) with he | hm
    · subst he
      cases hw
    · exact hm
  resting hb ht hn := by
    refine ⟨(h.resting hb ht hn).1, due_pick hi ?_ (h.resting hb ht hn).2⟩
    rintro rfl
    cases hw
  alone := h.alone
  known := h.known

/-- An errand gives a task its turn: it was the only one for it. -/
theorem takeUp (h : l.Tended none base) (hi : l.agenda[i]? = some e) (hw : e.woken? = some t) :
    (l.pick i).Tended (some t) base := by
  have hperm : (t :: (l.pick i).wakes).Perm l.wakes := by
    have hp := (agenda_perm_pick hi).filterMap Errand.woken?
    rwa [List.filterMap_cons_some hw] at hp
  have hnodup := hperm.nodup_iff.2 h.once
  have hout : t ∉ (l.pick i).wakes := (List.nodup_cons.1 hnodup).1
  have hin : t ∈ l.wakes := hperm.subset List.mem_cons_self
  obtain ⟨_, task, hget, hset⟩ := h.mem_wakes hin
  refine ⟨h.base_le, ?_, ?_, ?_, (List.nodup_cons.1 hnodup).2, h.single, ?_, ?_, ?_, h.known⟩
  · intro r p hm
    exact h.settled (mem_agenda_of_mem_pick hm)
  · intro t' hm
    obtain ⟨_, htask⟩ := h.stepped (mem_agenda_of_mem_pick hm)
    refine ⟨?_, htask⟩
    rintro ⟨⟩
    exact hout (List.mem_filterMap.2 ⟨_, hm, rfl⟩)
  · intro p t' hd
    obtain ⟨_, task', hget', hrest'⟩ := h.woken (due_of_due_pick hd)
    refine ⟨?_, task', hget', hrest'⟩
    rintro ⟨⟩
    rcases hd with hd | hd
    · rw [hget] at hget'
      cases hget'
      obtain ⟨o, ho⟩ := hset p hrest'
      have hp : l.isPending p = true := Subscribed.isPending hd
      rw [outcome?_of_isPending hp] at ho
      cases ho
    · exact hout (List.mem_filterMap.2 ⟨_, hd, rfl⟩)
  · intro t' task' hb ht hn
    rcases mem_agenda_pick hi (h.ready (by simp) ht hn) with he | hm
    · subst he
      exact absurd hw.symm hb
    · exact hm
  · intro t' task' p hb ht hn
    obtain ⟨hlt, hd⟩ := h.resting (by simp) ht hn
    refine ⟨hlt, due_pick hi ?_ hd⟩
    rintro rfl
    exact hb hw.symm
  · intro t' t'' task' task'' p _ _
    exact h.alone (by simp) (by simp)

/-! ## Tasks -/

theorem spawn (h : l.Tended busy base) (hb : ∀ t, busy = some t → t < l.promises.size) (point : P) :
    (l.spawn point).2.Tended busy base := by
  have hfresh : l.tasks.get? l.promises.size = none := by
    cases hg : l.tasks.get? l.promises.size with
    | none => rfl
    | some task => exact absurd (h.known hg) (Nat.lt_irrefl _)
  have hbusy : busy ≠ some l.promises.size := fun hc => Nat.lt_irrefl _ (hb _ hc)
  have hp := h.promise
  have hget : ∀ t', (l.spawn point).2.tasks.get? t' =
      if t' = l.promises.size then some { point } else l.tasks.get? t' := fun _ => get?_tasks_spawn
  have hdue : ∀ {q t'}, (l.spawn point).2.Due q (.wake t') ↔ l.Due q (.wake t') := due_spawn
  have hmem : ∀ {e}, e ∈ (l.spawn point).2.agenda ↔ e ∈ l.agenda ∨ e = .step l.promises.size :=
    mem_agenda_spawn
  have hne : ∀ {t' task}, l.tasks.get? t' = some task → t' ≠ l.promises.size := by
    rintro t' task hg rfl
    rw [hfresh] at hg
    cases hg
  refine ⟨?_, ?_, ?_, ?_, ?_, ?_, ?_, ?_, ?_, ?_⟩
  · exact hp.base_le
  · intro r q hm
    rcases hmem.1 hm with hm | he
    · exact hp.settled hm
    · cases he
  · intro t' hm
    rcases hmem.1 hm with hm | he
    · obtain ⟨hb', task, hg, hn⟩ := h.stepped hm
      exact ⟨hb', task, by rw [hget, if_neg (hne hg), hg], hn⟩
    · cases he
      exact ⟨hbusy, { point }, by rw [hget, if_pos rfl], rfl⟩
  · intro q t' hd
    obtain ⟨hb', task, hg, hn⟩ := h.woken (hdue.1 hd)
    exact ⟨hb', task, by rw [hget, if_neg (hne hg), hg], hn⟩
  · have hw : (l.spawn point).2.wakes = l.wakes ++ [l.promises.size] := by
      simp [wakes, Loop.spawn, Loop.enqueue, Loop.promise, Errand.woken?]
    rw [hw]
    refine List.nodup_append.2 ⟨h.once, List.nodup_singleton _, fun t' ht' t'' ht'' heq => ?_⟩
    rw [List.mem_singleton] at ht''
    obtain ⟨_, task, hg, _⟩ := h.mem_wakes ht'
    exact hne hg (heq.trans ht'')
  · intro q rs hq
    exact hp.single hq
  · intro t' task hb' ht hn
    rw [hget] at ht
    refine hmem.2 ?_
    split at ht
    · rename_i he
      exact .inr (he ▸ rfl)
    · exact .inl (h.ready hb' ht hn)
  · intro t' task q hb' ht hn
    rw [hget] at ht
    split at ht
    · cases ht
      cases hn
    · exact ⟨(h.resting hb' ht hn).1, hdue.2 (h.resting hb' ht hn).2⟩
  · intro t' t'' task task' q hb' hb'' ht ht' hn hn'
    rw [hget] at ht ht'
    split at ht
    · cases ht
      cases hn
    · split at ht'
      · cases ht'
        cases hn'
      · exact h.alone hb' hb'' ht ht' hn hn'
  · intro t' task ht
    rw [hget] at ht
    have hsize : (l.spawn point).2.promises.size = l.promises.size + 1 := size_promise
    rw [hsize]
    split at ht
    · rename_i he
      exact he ▸ Nat.lt_succ_self _
    · exact Nat.lt_succ_of_lt (h.known ht)

/-- Where tasks rest does not change when one of them is to meet a cancellation. -/
theorem mark (h : l.Tended busy base) (t : PromiseId) : (l.mark t).Tended busy base := by
  have hsome : ∀ {t' task}, l.tasks.get? t' = some task →
      ∃ task', (l.mark t).tasks.get? t' = some task' ∧ task'.restsOn = task.restsOn := by
    intro t' task hg
    refine ⟨_, by rw [get?_tasks_mark, hg]; rfl, ?_⟩
    split <;> rfl
  have hback : ∀ {t' task'}, (l.mark t).tasks.get? t' = some task' →
      ∃ task, l.tasks.get? t' = some task ∧ task'.restsOn = task.restsOn := by
    intro t' task' hg
    rw [get?_tasks_mark] at hg
    obtain ⟨task, ht, rfl⟩ := Option.map_eq_some_iff.1 hg
    refine ⟨task, ht, ?_⟩
    split <;> rfl
  refine ⟨h.base_le, h.settled, ?_, ?_, h.once, h.single, ?_, ?_, ?_, ?_⟩
  · intro t' hm
    obtain ⟨hb, task, hg, hn⟩ := h.stepped hm
    obtain ⟨task', hg', hn'⟩ := hsome hg
    exact ⟨hb, task', hg', hn'.trans hn⟩
  · intro q t' hd
    obtain ⟨hb, task, hg, hn⟩ := h.woken hd
    obtain ⟨task', hg', hn'⟩ := hsome hg
    exact ⟨hb, task', hg', hn'.trans hn⟩
  · intro t' task' hb hg' hn
    obtain ⟨task, hg, hr⟩ := hback hg'
    exact h.ready hb hg (hr ▸ hn)
  · intro t' task' q hb hg' hn
    obtain ⟨task, hg, hr⟩ := hback hg'
    exact h.resting hb hg (hr ▸ hn)
  · intro t₁ t₂ task₁ task₂ q hb₁ hb₂ hg₁ hg₂ hn₁ hn₂
    obtain ⟨_, hg₁, hr₁⟩ := hback hg₁
    obtain ⟨_, hg₂, hr₂⟩ := hback hg₂
    exact h.alone hb₁ hb₂ hg₁ hg₂ (hr₁ ▸ hn₁) (hr₂ ▸ hn₂)
  · intro t' task' hg'
    obtain ⟨task, hg, _⟩ := hback hg'
    exact h.known hg

/-! ## The end of a turn -/

/-- The busy task is due to be woken by nothing. -/
theorem not_due_busy (h : l.Tended (some t) base) (p : PromiseId) : ¬ l.Due p (.wake t) :=
  fun hd => (h.woken hd).1 rfl

theorem not_mem_wakes_busy (h : l.Tended (some t) base) : t ∉ l.wakes :=
  fun hm => (h.mem_wakes hm).1 rfl

/-- The turn ends with the task resting on a promise that was made during the turn. -/
theorem rest (h : l.Tended (some t) base) (ht : t < l.promises.size) {on : PromiseId} {point : P}
    (hon : base ≤ on) (hlt : on < l.promises.size) :
    (Program.conclude t (.rest on point : Turn P V) l).Tended none l.promises.size := by
  have hget : ∀ t', (l.tasks.put t { point, restsOn := some on }).get? t' =
      if t' = t then some { point, restsOn := some on } else l.tasks.get? t' :=
    fun t' => Keyed.get?_put ..
  have hne : ∀ {t'}, some t ≠ some t' → t' ≠ t := fun hb he => hb (he ▸ rfl)
  have hdue : ∀ {q t'}, (Program.conclude t (.rest on point : Turn P V) l).Due q (.wake t') ↔
      l.Due q (.wake t') ∨ q = on ∧ t' = t := by
    intro q t'
    let l₁ : Loop V P K := { l with tasks := l.tasks.put t { point, restsOn := some on } }
    have hd : (l₁.subscribe on (.wake t)).Due q (.wake t') ↔
        l₁.Due q (.wake t') ∨ q = on ∧ (.wake t' : Reaction K) = .wake t := due_subscribe hlt
    rw [Reaction.wake.injEq] at hd
    exact hd
  have hmem : ∀ {e}, e ∈ (Program.conclude t (.rest on point : Turn P V) l).agenda ↔
      e ∈ l.agenda ∨ e = .react (.wake t) on ∧ ∃ o, l.outcome? on = some o :=
    mem_agenda_subscribe
  have hout : ∀ q, (Program.conclude t (.rest on point : Turn P V) l).outcome? q = l.outcome? q :=
    fun q => outcome?_subscribe
  have htasks : (Program.conclude t (.rest on point : Turn P V) l).tasks =
      l.tasks.put t { point, restsOn := some on } := tasks_subscribe
  have hsize : (Program.conclude t (.rest on point : Turn P V) l).promises.size =
      l.promises.size := size_subscribe
  refine ⟨?_, ?_, ?_, ?_, ?_, ?_, ?_, ?_, ?_, ?_⟩
  · exact Nat.le_of_eq hsize.symm
  · intro r q hm
    rw [hout]
    rcases hmem.1 hm with hm | ⟨he, ho⟩
    · exact h.settled hm
    · cases he
      exact ho
  · intro t' hm
    rcases hmem.1 hm with hm | ⟨he, _⟩
    · obtain ⟨hb, task, hg, hn⟩ := h.stepped hm
      exact ⟨by simp, task, by rw [htasks, hget, if_neg (hne hb), hg], hn⟩
    · cases he
  · intro q t' hd
    rcases hdue.1 hd with hd | ⟨rfl, rfl⟩
    · obtain ⟨hb, task, hg, hn⟩ := h.woken hd
      exact ⟨by simp, task, by rw [htasks, hget, if_neg (hne hb), hg], hn⟩
    · exact ⟨by simp, _, by rw [htasks, hget, if_pos rfl], rfl⟩
  · have hw : (Program.conclude t (.rest on point : Turn P V) l).wakes = l.wakes ∨
        (Program.conclude t (.rest on point : Turn P V) l).wakes = l.wakes ++ [t] :=
      wakes_subscribe ..
    rcases hw with hw | hw
    · rw [hw]
      exact h.once
    · rw [hw]
      refine List.nodup_append.2 ⟨h.once, List.nodup_singleton _, fun a ha b hb hab => ?_⟩
      rw [List.mem_singleton] at hb
      exact h.not_mem_wakes_busy (hb ▸ hab ▸ ha)
  · intro q rs hq
    rcases promises_subscribe (l := { l with tasks := l.tasks.put t { point, restsOn := some on } })
      (p := on) (q := q) (r := .wake t) with he | ⟨rfl, rs', hrs, he⟩
    · exact h.single (he ▸ hq)
    · rw [Program.conclude, he] at hq
      cases hq
      have hnot : t ∉ rs'.filterMap Reaction.woken? := fun hm => by
        obtain ⟨r, hr, hw⟩ := List.mem_filterMap.1 hm
        rw [Reaction.woken?_eq_some_iff.1 hw] at hr
        exact h.not_due_busy q (.inl ⟨rs', hrs, hr⟩)
      simpa [Reaction.woken?] using List.nodup_append.2 ⟨h.single hrs, List.nodup_singleton t,
        fun a ha b hb hab => hnot (List.mem_singleton.1 hb ▸ hab ▸ ha)⟩
  · intro t' task _ hg hn
    rw [htasks, hget] at hg
    split at hg
    · cases hg
      cases hn
    · rename_i he
      exact hmem.2 (.inl (h.ready (fun hc => he (Option.some.inj hc).symm) hg hn))
  · intro t' task q _ hg hn
    rw [htasks, hget] at hg
    split at hg
    · rename_i he
      cases hg
      cases hn
      exact ⟨hlt, hdue.2 (.inr ⟨rfl, he⟩)⟩
    · rename_i he
      obtain ⟨hq, hd⟩ := h.resting (fun hc => he (Option.some.inj hc).symm) hg hn
      exact ⟨Nat.lt_of_lt_of_le hq h.base_le, hdue.2 (.inl hd)⟩
  · intro t₁ t₂ task₁ task₂ q _ _ hg₁ hg₂ hn₁ hn₂
    rw [htasks, hget] at hg₁ hg₂
    -- the promise of this turn is newer than any that others rest on
    split at hg₁ <;> split at hg₂
    · rename_i he₁ he₂
      exact he₁.trans he₂.symm
    · rename_i he₂
      cases hg₁
      cases hn₁
      have hq := (h.resting (fun hc => he₂ (Option.some.inj hc).symm) hg₂ hn₂).1
      exact absurd hq (Nat.not_lt.2 hon)
    · rename_i he₁ _
      cases hg₂
      cases hn₂
      have hq := (h.resting (fun hc => he₁ (Option.some.inj hc).symm) hg₁ hn₁).1
      exact absurd hq (Nat.not_lt.2 hon)
    · rename_i he₁ he₂
      exact h.alone (fun hc => he₁ (Option.some.inj hc).symm)
        (fun hc => he₂ (Option.some.inj hc).symm) hg₁ hg₂ hn₁ hn₂
  · intro t' task hg
    rw [hsize]
    rw [htasks, hget] at hg
    split at hg
    · rename_i he
      exact he ▸ ht
    · exact h.known hg

/-- The turn ends with the task giving way. -/
theorem giveWay (h : l.Tended (some t) base) (ht : t < l.promises.size) {point : P} :
    (Program.conclude t (.giveWay point : Turn P V) l).Tended none l.promises.size := by
  have hget : ∀ t', (l.tasks.put t { point }).get? t' =
      if t' = t then some { point } else l.tasks.get? t' := fun t' => Keyed.get?_put ..
  have hne : ∀ {t'}, some t ≠ some t' → t' ≠ t := fun hb he => hb (he ▸ rfl)
  have hmem : ∀ {e}, e ∈ (Program.conclude t (.giveWay point : Turn P V) l).agenda ↔
      e ∈ l.agenda ∨ e = .step t := by
    intro e
    simp [Program.conclude, Loop.enqueue]
  have hdue : ∀ {q t'}, (Program.conclude t (.giveWay point : Turn P V) l).Due q (.wake t') ↔
      l.Due q (.wake t') := by
    intro q t'
    simp [Program.conclude, Due, Subscribed, Loop.enqueue]
  refine ⟨Nat.le_refl _, ?_, ?_, ?_, ?_, h.single, ?_, ?_, ?_, ?_⟩
  · intro r q hm
    rcases hmem.1 hm with hm | he
    · exact h.settled hm
    · cases he
  · intro t' hm
    rcases hmem.1 hm with hm | he
    · obtain ⟨hb, task, hg, hn⟩ := h.stepped hm
      exact ⟨by simp, task, (hget t').trans (by rw [if_neg (hne hb), hg]), hn⟩
    · cases he
      exact ⟨by simp, _, (hget t).trans (if_pos rfl), rfl⟩
  · intro q t' hd
    obtain ⟨hb, task, hg, hn⟩ := h.woken (hdue.1 hd)
    exact ⟨by simp, task, (hget t').trans (by rw [if_neg (hne hb), hg]), hn⟩
  · have hw : (Program.conclude t (.giveWay point : Turn P V) l).wakes = l.wakes ++ [t] := by
      simp [Program.conclude, wakes, Loop.enqueue, Errand.woken?]
    rw [hw]
    refine List.nodup_append.2 ⟨h.once, List.nodup_singleton _, fun a ha b hb hab => ?_⟩
    rw [List.mem_singleton] at hb
    exact h.not_mem_wakes_busy (hb ▸ hab ▸ ha)
  · intro t' task _ hg hn
    replace hg := (hget t').symm.trans hg
    split at hg
    · rename_i he
      exact hmem.2 (.inr (he ▸ rfl))
    · rename_i he
      exact hmem.2 (.inl (h.ready (fun hc => he (Option.some.inj hc).symm) hg hn))
  · intro t' task q _ hg hn
    replace hg := (hget t').symm.trans hg
    split at hg
    · cases hg
      cases hn
    · rename_i he
      obtain ⟨hq, hd⟩ := h.resting (fun hc => he (Option.some.inj hc).symm) hg hn
      exact ⟨Nat.lt_of_lt_of_le hq h.base_le, hdue.2 hd⟩
  · intro t₁ t₂ task₁ task₂ q _ _ hg₁ hg₂ hn₁ hn₂
    replace hg₁ := (hget t₁).symm.trans hg₁
    replace hg₂ := (hget t₂).symm.trans hg₂
    split at hg₁
    · cases hg₁
      cases hn₁
    · split at hg₂
      · cases hg₂
        cases hn₂
      · rename_i he₁ he₂
        exact h.alone (fun hc => he₁ (Option.some.inj hc).symm)
          (fun hc => he₂ (Option.some.inj hc).symm) hg₁ hg₂ hn₁ hn₂
  · intro t' task hg
    replace hg := (hget t').symm.trans hg
    split at hg
    · rename_i he
      exact he ▸ ht
    · exact h.known hg

/-- The turn ends with the end of the task. -/
theorem finish (h : l.Tended (some t) base) {result : Except Fault V} :
    (Program.conclude t (.finish result : Turn P V) l).Tended none l.promises.size := by
  have hget : ∀ t', (l.tasks.erase t).get? t' = if t' = t then none else l.tasks.get? t' :=
    fun t' => Keyed.get?_erase ..
  have hne : ∀ {t'}, some t ≠ some t' → t' ≠ t := fun hb he => hb (he ▸ rfl)
  have herased : ({ l with tasks := l.tasks.erase t } : Loop V P K).Tended none l.promises.size := by
    refine ⟨Nat.le_refl _, h.settled, ?_, ?_, h.once, h.single, ?_, ?_, ?_, ?_⟩
    · intro t' hm
      obtain ⟨hb, task, hg, hn⟩ := h.stepped hm
      exact ⟨by simp, task, (hget t').trans (by rw [if_neg (hne hb), hg]), hn⟩
    · intro q t' hd
      obtain ⟨hb, task, hg, hn⟩ := h.woken hd
      exact ⟨by simp, task, (hget t').trans (by rw [if_neg (hne hb), hg]), hn⟩
    · intro t' task _ hg hn
      replace hg := (hget t').symm.trans hg
      split at hg
      · cases hg
      · rename_i he
        exact h.ready (fun hc => he (Option.some.inj hc).symm) hg hn
    · intro t' task q _ hg hn
      replace hg := (hget t').symm.trans hg
      split at hg
      · cases hg
      · rename_i he
        obtain ⟨hq, hd⟩ := h.resting (fun hc => he (Option.some.inj hc).symm) hg hn
        exact ⟨Nat.lt_of_lt_of_le hq h.base_le, hd⟩
    · intro t₁ t₂ task₁ task₂ q _ _ hg₁ hg₂ hn₁ hn₂
      replace hg₁ := (hget t₁).symm.trans hg₁
      replace hg₂ := (hget t₂).symm.trans hg₂
      split at hg₁
      · cases hg₁
      · split at hg₂
        · cases hg₂
        · rename_i he₁ he₂
          exact h.alone (fun hc => he₁ (Option.some.inj hc).symm)
            (fun hc => he₂ (Option.some.inj hc).symm) hg₁ hg₂ hn₁ hn₂
    · intro t' task hg
      replace hg := (hget t').symm.trans hg
      split at hg
      · cases hg
      · exact h.known hg
  exact herased.settle t (Program.ended result)

end Tended

end Loop

end SourceTrees
