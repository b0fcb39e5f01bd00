import SourceTrees.Loop
import Mathlib.Data.List.Nodup

/-!
# Promises and the reactions due to them

What the operations of a loop do to promises and to the reactions added to them.

A reaction is **due** to a promise from the moment it is added until it is carried out: first among
the reactions of the pending promise, then, once the promise is settled, on the agenda.  Settling a
promise moves its reactions from the one place to the other, so it changes nothing in what is due.

## Results

* `Loop.promises_settle`, `Loop.promises_subscribe`, `Loop.promises_promise` — the table of promises
  after an operation.
* `Loop.isPending_settle`, `Loop.outcome?_settle` — settling changes one promise, and only if it is
  pending.
* `Loop.due_settle`, `Loop.due_subscribe`, `Loop.due_enqueue` — what is due after an operation.
-/

set_option autoImplicit false

namespace SourceTrees.Loop

variable {V P K : Type} {l : Loop V P K} {p q t : PromiseId} {r : Reaction K} {e : Errand V K}

/-- The reaction has been added to the promise, which is still open. -/
def Subscribed (l : Loop V P K) (p : PromiseId) (r : Reaction K) : Prop :=
  ∃ rs, l.promises[p]? = some (.pending rs) ∧ r ∈ rs

/-- The reaction has been added to the promise and not been carried out. -/
def Due (l : Loop V P K) (p : PromiseId) (r : Reaction K) : Prop :=
  l.Subscribed p r ∨ .react r p ∈ l.agenda

/-! ## Open and settled promises -/

theorem isPending_iff : l.isPending p = true ↔ ∃ rs, l.promises[p]? = some (.pending rs) := by
  unfold isPending
  split
  · rename_i rs h
    exact ⟨fun _ => ⟨rs, h⟩, fun _ => rfl⟩
  · rename_i h
    exact ⟨fun hf => (by cases hf), fun ⟨rs, hrs⟩ => absurd hrs (h rs)⟩

theorem outcome?_eq_some_iff {o : Settled V} :
    l.outcome? p = some o ↔ l.promises[p]? = some (.settled o) := by
  unfold outcome?
  split
  · rename_i o' h
    rw [h]
    simp
  · rename_i h
    exact ⟨fun hf => (by cases hf), fun ho => absurd ho (h o)⟩

theorem isPending_lt (h : l.isPending p = true) : p < l.promises.size := by
  obtain ⟨rs, hrs⟩ := isPending_iff.1 h
  exact (Array.getElem?_eq_some_iff.1 hrs).1

theorem outcome?_lt {o : Settled V} (h : l.outcome? p = some o) : p < l.promises.size :=
  (Array.getElem?_eq_some_iff.1 (outcome?_eq_some_iff.1 h)).1

/-- A promise is open or settled. -/
theorem isPending_or_settled (h : p < l.promises.size) :
    l.isPending p = true ∨ ∃ o, l.outcome? p = some o := by
  have hp := Array.getElem?_eq_getElem h
  cases hc : l.promises[p] with
  | pending rs => exact .inl (isPending_iff.2 ⟨rs, by rw [hp, hc]⟩)
  | settled o => exact .inr ⟨o, outcome?_eq_some_iff.2 (by rw [hp, hc])⟩

theorem outcome?_of_isPending (h : l.isPending p = true) : l.outcome? p = none := by
  obtain ⟨rs, hrs⟩ := isPending_iff.1 h
  simp [outcome?, hrs]

theorem isPending_of_outcome? {o : Settled V} (h : l.outcome? p = some o) :
    l.isPending p = false := by
  simp [isPending, outcome?_eq_some_iff.1 h]

theorem Subscribed.isPending (h : l.Subscribed p r) : l.isPending p = true := by
  obtain ⟨rs, hrs, _⟩ := h
  exact isPending_iff.2 ⟨rs, hrs⟩

/-! ## A new promise -/

theorem promises_promise :
    l.promise.2.promises[q]? =
      if q = l.promises.size then some (.pending []) else l.promises[q]? := by
  simp only [promise, Array.getElem?_push]

@[simp] theorem promise_fst : l.promise.1 = l.promises.size := rfl

@[simp] theorem size_promise : l.promise.2.promises.size = l.promises.size + 1 := by
  simp [promise]

@[simp] theorem agenda_promise : l.promise.2.agenda = l.agenda := rfl

@[simp] theorem tasks_promise : l.promise.2.tasks = l.tasks := rfl

@[simp] theorem groups_promise : l.promise.2.groups = l.groups := rfl

@[simp] theorem timers_promise : l.promise.2.timers = l.timers := rfl

theorem outcome?_promise : l.promise.2.outcome? q = l.outcome? q := by
  unfold outcome?
  rw [promises_promise]
  by_cases h : q = l.promises.size <;> simp [h]

theorem isPending_promise :
    l.promise.2.isPending q = (decide (q = l.promises.size) || l.isPending q) := by
  unfold isPending
  rw [promises_promise]
  by_cases h : q = l.promises.size <;> simp [h]

theorem subscribed_promise : l.promise.2.Subscribed q r ↔ l.Subscribed q r := by
  unfold Subscribed
  rw [promises_promise]
  by_cases h : q = l.promises.size
  · subst h
    simp
  · simp [h]

theorem due_promise : l.promise.2.Due q r ↔ l.Due q r := by
  simp only [Due, subscribed_promise, agenda_promise]

/-! ## A new task -/

variable {point : P}

@[simp] theorem spawn_fst : (l.spawn point).1 = l.promises.size := rfl

@[simp] theorem size_spawn : (l.spawn point).2.promises.size = l.promises.size + 1 := size_promise

theorem get?_tasks_spawn :
    (l.spawn point).2.tasks.get? t =
      if t = l.promises.size then some { point } else l.tasks.get? t := by
  simp [spawn, enqueue, promise]

theorem isPending_spawn :
    (l.spawn point).2.isPending q = (decide (q = l.promises.size) || l.isPending q) :=
  isPending_promise

theorem outcome?_spawn : (l.spawn point).2.outcome? q = l.outcome? q := outcome?_promise

theorem mem_agenda_spawn :
    e ∈ (l.spawn point).2.agenda ↔ e ∈ l.agenda ∨ e = .step l.promises.size := by
  simp [spawn, enqueue, promise]

theorem due_spawn : (l.spawn point).2.Due q r ↔ l.Due q r := by
  have hs : (l.spawn point).2.Subscribed q r ↔ l.promise.2.Subscribed q r := Iff.rfl
  simp [Due, hs, subscribed_promise, mem_agenda_spawn]

theorem get?_tasks_mark :
    (l.mark t).tasks.get? q = (l.tasks.get? q).map fun task =>
      if q = t then { task with marked := true } else task := by
  unfold mark Keyed.adjust
  cases hg : l.tasks.get? t with
  | none =>
    by_cases he : q = t
    · subst he
      simp [hg]
    · simp [he]
  | some task =>
    by_cases he : q = t
    · subst he
      simp [hg]
    · simp [he]

/-! ## Settling -/

variable {s : Settled V}

@[simp] theorem size_settle : (l.settle p s).promises.size = l.promises.size := by
  unfold settle
  split <;> simp

@[simp] theorem tasks_settle : (l.settle p s).tasks = l.tasks := by
  unfold settle
  split <;> rfl

@[simp] theorem groups_settle : (l.settle p s).groups = l.groups := by
  unfold settle
  split <;> rfl

@[simp] theorem timers_settle : (l.settle p s).timers = l.timers := by
  unfold settle
  split <;> rfl

theorem settle_of_not_isPending (h : l.isPending p = false) : l.settle p s = l := by
  unfold settle
  split
  · rename_i rs hrs
    rw [isPending_iff.2 ⟨rs, hrs⟩] at h
    cases h
  · rfl

theorem promises_settle :
    (l.settle p s).promises[q]? =
      if q = p ∧ l.isPending p = true then some (.settled s) else l.promises[q]? := by
  cases hp : l.isPending p with
  | false => simp [settle_of_not_isPending hp]
  | true =>
    obtain ⟨rs, hrs⟩ := isPending_iff.1 hp
    have hlt := isPending_lt hp
    simp only [settle, hrs, Array.getElem?_setIfInBounds]
    by_cases h : q = p
    · subst h
      simp [hlt]
    · simp [h, Ne.symm h]

theorem outcome?_settle :
    (l.settle p s).outcome? q =
      if q = p ∧ l.isPending p = true then some s else l.outcome? q := by
  unfold outcome?
  rw [promises_settle]
  by_cases h : q = p ∧ l.isPending p = true
  · rw [if_pos h, if_pos h]
  · rw [if_neg h, if_neg h]

theorem isPending_settle :
    (l.settle p s).isPending q = (l.isPending q && decide (q ≠ p)) := by
  have h := promises_settle (l := l) (p := p) (q := q) (s := s)
  by_cases hq : q = p
  · subst hq
    cases hp : l.isPending q with
    | false => simp [settle_of_not_isPending hp, hp]
    | true =>
      rw [if_pos ⟨rfl, hp⟩] at h
      simp [isPending, h]
  · rw [if_neg (fun hc => hq hc.1)] at h
    simp [isPending, h, hq]

/-- A settled promise keeps its outcome. -/
theorem outcome?_settle_of_some {o : Settled V} (h : l.outcome? q = some o) :
    (l.settle p s).outcome? q = some o := by
  rw [outcome?_settle, if_neg, h]
  rintro ⟨rfl, hp⟩
  rw [outcome?_of_isPending hp] at h
  cases h

theorem mem_agenda_settle :
    e ∈ (l.settle p s).agenda ↔ e ∈ l.agenda ∨ ∃ r, e = .react r p ∧ l.Subscribed p r := by
  unfold settle Subscribed
  split
  · rename_i rs hrs
    rw [hrs]
    simp only [List.mem_append, List.mem_map, Option.some.injEq, Promise.pending.injEq]
    constructor
    · rintro (h | ⟨r, hr, rfl⟩)
      · exact .inl h
      · exact .inr ⟨r, rfl, rs, rfl, hr⟩
    · rintro (h | ⟨r, rfl, rs', rfl, hr⟩)
      · exact .inl h
      · exact .inr ⟨r, hr, rfl⟩
  · rename_i h
    constructor
    · exact .inl
    · rintro (he | ⟨r, _, rs, hrs, _⟩)
      · exact he
      · exact absurd hrs (h rs)

theorem subscribed_settle : (l.settle p s).Subscribed q r ↔ l.Subscribed q r ∧ q ≠ p := by
  unfold Subscribed
  rw [promises_settle]
  by_cases h : q = p ∧ l.isPending p = true
  · rw [if_pos h]
    simp [h.1]
  · rw [if_neg h]
    refine ⟨fun hs => ⟨hs, ?_⟩, fun hs => hs.1⟩
    rintro rfl
    exact h ⟨rfl, Subscribed.isPending hs⟩

/-- Settling a promise changes nothing in what is due. -/
theorem due_settle : (l.settle p s).Due q r ↔ l.Due q r := by
  unfold Due
  rw [subscribed_settle, mem_agenda_settle]
  constructor
  · rintro (⟨h, _⟩ | h | ⟨r', he, h⟩)
    · exact .inl h
    · exact .inr h
    · cases he
      exact .inl h
  · rintro (h | h)
    · by_cases hq : q = p
      · subst hq
        exact .inr (.inr ⟨r, rfl, h⟩)
      · exact .inl ⟨h, hq⟩
    · exact .inr (.inl h)

/-! ## Adding and removing reactions -/

variable {r' : Reaction K}

@[simp] theorem size_subscribe : (l.subscribe p r).promises.size = l.promises.size := by
  unfold subscribe
  split <;> simp [enqueue]

@[simp] theorem tasks_subscribe : (l.subscribe p r).tasks = l.tasks := by
  unfold subscribe
  split <;> rfl

@[simp] theorem groups_subscribe : (l.subscribe p r).groups = l.groups := by
  unfold subscribe
  split <;> rfl

@[simp] theorem timers_subscribe : (l.subscribe p r).timers = l.timers := by
  unfold subscribe
  split <;> rfl

/-- Adding a reaction leaves every promise as open or as settled as it was. -/
theorem promises_subscribe :
    (l.subscribe p r).promises[q]? = l.promises[q]? ∨
      q = p ∧ ∃ rs, l.promises[p]? = some (.pending rs) ∧
        (l.subscribe p r).promises[q]? = some (.pending (rs ++ [r])) := by
  unfold subscribe
  split
  · rename_i rs hrs
    have hlt := (Array.getElem?_eq_some_iff.1 hrs).1
    by_cases h : q = p
    · subst h
      refine .inr ⟨rfl, rs, hrs, ?_⟩
      simp [hlt]
    · refine .inl ?_
      simp [Ne.symm h]
  · exact .inl rfl
  · exact .inl rfl

@[simp] theorem isPending_subscribe : (l.subscribe p r).isPending q = l.isPending q := by
  unfold isPending
  rcases promises_subscribe (l := l) (p := p) (q := q) (r := r) with h | ⟨rfl, rs, hp, h⟩
  · rw [h]
  · rw [h, hp]

@[simp] theorem outcome?_subscribe : (l.subscribe p r).outcome? q = l.outcome? q := by
  unfold outcome?
  rcases promises_subscribe (l := l) (p := p) (q := q) (r := r) with h | ⟨rfl, rs, hp, h⟩
  · rw [h]
  · rw [h, hp]

theorem mem_agenda_subscribe :
    e ∈ (l.subscribe p r).agenda ↔ e ∈ l.agenda ∨ e = .react r p ∧ ∃ o, l.outcome? p = some o := by
  unfold subscribe outcome?
  split <;> rename_i h <;> simp [enqueue, h]

theorem subscribed_subscribe :
    (l.subscribe p r).Subscribed q r' ↔
      l.Subscribed q r' ∨ q = p ∧ r' = r ∧ l.isPending p = true := by
  unfold Subscribed subscribe
  split
  · rename_i rs hrs
    have hlt := (Array.getElem?_eq_some_iff.1 hrs).1
    have hp : l.isPending p = true := isPending_iff.2 ⟨rs, hrs⟩
    by_cases h : q = p
    · subst h
      simp only [Array.getElem?_setIfInBounds_self, hlt, if_true, hrs, Option.some.injEq,
        Promise.pending.injEq, exists_eq_left', List.mem_append, List.mem_singleton, hp, and_true,
        true_and]
    · simp [h, Ne.symm h]
  · rename_i o h
    have hp : l.isPending p = false := isPending_of_outcome? (outcome?_eq_some_iff.2 h)
    simp [enqueue, hp]
  · rename_i h
    simp [isPending, h]

/-- An added reaction is due, whether the promise is open or settled. -/
theorem due_subscribe (h : p < l.promises.size) :
    (l.subscribe p r).Due q r' ↔ l.Due q r' ∨ q = p ∧ r' = r := by
  unfold Due
  rw [subscribed_subscribe, mem_agenda_subscribe]
  have hs := isPending_or_settled h
  constructor
  · rintro ((hd | ⟨rfl, rfl, _⟩) | hd | ⟨he, _⟩)
    · exact .inl (.inl hd)
    · exact .inr ⟨rfl, rfl⟩
    · exact .inl (.inr hd)
    · cases he
      exact .inr ⟨rfl, rfl⟩
  · rintro ((hd | hd) | ⟨rfl, rfl⟩)
    · exact .inl (.inl hd)
    · exact .inr (.inl hd)
    · rcases hs with hs | hs
      · exact .inl (.inr ⟨rfl, rfl, hs⟩)
      · exact .inr (.inr ⟨rfl, hs⟩)

section Unsubscribe

variable [DecidableEq K]

@[simp] theorem size_unsubscribe : (l.unsubscribe p r).promises.size = l.promises.size := by
  unfold unsubscribe
  split <;> simp

@[simp] theorem tasks_unsubscribe : (l.unsubscribe p r).tasks = l.tasks := by
  unfold unsubscribe
  split <;> rfl

@[simp] theorem groups_unsubscribe : (l.unsubscribe p r).groups = l.groups := by
  unfold unsubscribe
  split <;> rfl

@[simp] theorem timers_unsubscribe : (l.unsubscribe p r).timers = l.timers := by
  unfold unsubscribe
  split <;> rfl

@[simp] theorem agenda_unsubscribe : (l.unsubscribe p r).agenda = l.agenda := by
  unfold unsubscribe
  split <;> rfl

theorem promises_unsubscribe :
    (l.unsubscribe p r).promises[q]? = l.promises[q]? ∨
      q = p ∧ ∃ rs, l.promises[p]? = some (.pending rs) ∧
        (l.unsubscribe p r).promises[q]? = some (.pending (rs.filter (· ≠ r))) := by
  unfold unsubscribe
  split
  · rename_i rs hrs
    have hlt := (Array.getElem?_eq_some_iff.1 hrs).1
    by_cases h : q = p
    · subst h
      refine .inr ⟨rfl, rs, hrs, ?_⟩
      simp [hlt]
    · refine .inl ?_
      simp [Ne.symm h]
  · exact .inl rfl

@[simp] theorem isPending_unsubscribe : (l.unsubscribe p r).isPending q = l.isPending q := by
  unfold isPending
  rcases promises_unsubscribe (l := l) (p := p) (q := q) (r := r) with h | ⟨rfl, rs, hp, h⟩
  · rw [h]
  · rw [h, hp]

@[simp] theorem outcome?_unsubscribe : (l.unsubscribe p r).outcome? q = l.outcome? q := by
  unfold outcome?
  rcases promises_unsubscribe (l := l) (p := p) (q := q) (r := r) with h | ⟨rfl, rs, hp, h⟩
  · rw [h]
  · rw [h, hp]

theorem subscribed_unsubscribe :
    (l.unsubscribe p r).Subscribed q r' ↔ l.Subscribed q r' ∧ ¬(q = p ∧ r' = r) := by
  unfold Subscribed unsubscribe
  split
  · rename_i rs hrs
    have hlt := (Array.getElem?_eq_some_iff.1 hrs).1
    by_cases h : q = p
    · subst h
      simp only [Array.getElem?_setIfInBounds_self, hlt, if_true, hrs, Option.some.injEq,
        Promise.pending.injEq, exists_eq_left', List.mem_filter, true_and, decide_eq_true_eq]
    · simp [h, Ne.symm h]
  · rename_i h
    constructor
    · rintro ⟨rs, hrs, hr⟩
      refine ⟨⟨rs, hrs, hr⟩, ?_⟩
      rintro ⟨rfl, rfl⟩
      exact h rs hrs
    · exact fun hs => hs.1

end Unsubscribe

end SourceTrees.Loop
