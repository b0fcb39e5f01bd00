import SourceTrees.Proofs.Loop.Order
import Mathlib.Data.Finset.Basic

/-!
# Loops that look alike from outside

Some tasks are **aside**: whoever looks does not see their turns, nor anything of them and of the
promises on which they rest.  Two loops look alike if there is no other difference between them.

The agendas need not be equal: an errand that continues a task aside may stand on one and not on the
other.  What is left without those errands is the same list, so that every other errand has the same
**rank** in both.

## Results

* `Loop.Alike` — the relation, an equivalence; every operation on what is seen keeps it.
* `Loop.Alike.settle_aside`, `Loop.Alike.pick_aside` — what happens aside is not seen.
* `Loop.Alike.pick` — taking the errand of the same rank keeps it.
-/

set_option autoImplicit false

namespace SourceTrees

variable {V P K : Type}

/-- Does the errand continue a task of the set? -/
def Errand.continues (C : Finset PromiseId) : Errand V K → Bool
  | .react (.wake t) _ => t ∈ C
  | _ => false

theorem Errand.continues_iff {C : Finset PromiseId} {e : Errand V K} :
    e.continues C = true ↔ ∃ t ∈ C, ∃ p, e = .react (.wake t) p := by
  rcases e with t | ⟨r, p⟩ | ⟨p, o⟩ | p
  · simp [continues]
  · cases r <;> simp [continues]
  · simp [continues]
  · simp [continues]

namespace Loop

variable {C : Finset PromiseId} {H H' : PromiseId → Prop} {l l' l'' : Loop V P K} {p t : PromiseId}
  {e : Errand V K} {i j : Nat}

/-- The errands that do not continue tasks of the set. -/
def others (C : Finset PromiseId) (l : Loop V P K) : List (Errand V K) :=
  l.agenda.filter fun e => !e.continues C

/-- The place of an errand among those that do not continue tasks of the set. -/
def rank (C : Finset PromiseId) (l : Loop V P K) (i : Nat) : Nat :=
  (l.agenda.take i).countP fun e => !e.continues C

theorem agenda_split (hi : l.agenda[i]? = some e) :
    l.agenda = l.agenda.take i ++ e :: l.agenda.drop (i + 1) := by
  obtain ⟨hlt, rfl⟩ := List.getElem?_eq_some_iff.1 hi
  rw [← List.drop_eq_getElem_cons hlt, List.take_append_drop]

theorem others_eq (hi : l.agenda[i]? = some e) (he : e.continues C = false) :
    l.others C = (l.agenda.take i).filter (fun e => !e.continues C) ++
      e :: (l.agenda.drop (i + 1)).filter (fun e => !e.continues C) := by
  unfold others
  conv_lhs => rw [agenda_split hi]
  simp [List.filter_append, he]

theorem getElem?_rank (hi : l.agenda[i]? = some e) (he : e.continues C = false) :
    (l.others C)[l.rank C i]? = some e := by
  rw [others_eq hi he, rank, List.countP_eq_length_filter, List.getElem?_append_right (Nat.le_refl _),
    Nat.sub_self]
  rfl

theorem others_pick (hi : l.agenda[i]? = some e) (he : e.continues C = false) :
    (l.pick i).others C = (l.others C).eraseIdx (l.rank C i) := by
  rw [others_eq hi he, rank, List.countP_eq_length_filter,
    List.eraseIdx_append_of_length_le (Nat.le_refl _), Nat.sub_self, List.eraseIdx_cons_zero]
  simp [others, pick, List.eraseIdx_eq_take_drop_succ, List.filter_append]

theorem others_pick_of_continues (hi : l.agenda[i]? = some e) (he : e.continues C = true) :
    (l.pick i).others C = l.others C := by
  unfold others
  conv_rhs => rw [agenda_split hi]
  simp [pick, List.eraseIdx_eq_take_drop_succ, List.filter_append, he]

theorem rank_zero : l.rank C 0 = 0 := by simp [rank]

/-- Every other errand has its place on the agenda. -/
theorem exists_of_rank {k : Nat} (h : (l.others C)[k]? = some e) :
    ∃ i, l.agenda[i]? = some e ∧ e.continues C = false ∧ l.rank C i = k := by
  have key : ∀ (es : List (Errand V K)) (k : Nat),
      (es.filter fun e => !e.continues C)[k]? = some e →
      ∃ i, es[i]? = some e ∧ e.continues C = false ∧
        (es.take i).countP (fun e => !e.continues C) = k := by
    intro es
    induction es with
    | nil => simp
    | cons x es ih =>
      intro k hk
      cases hx : x.continues C with
      | true =>
        rw [List.filter_cons_of_neg (by simp [hx])] at hk
        obtain ⟨i, hi, he, hn⟩ := ih k hk
        exact ⟨i + 1, by simpa using hi, he, by simp [hx, hn]⟩
      | false =>
        rw [List.filter_cons_of_pos (by simp [hx])] at hk
        cases k with
        | zero =>
          cases (by simpa using hk : x = e)
          exact ⟨0, rfl, hx, rfl⟩
        | succ k =>
          obtain ⟨i, hi, he, hn⟩ := ih k (by simpa using hk)
          exact ⟨i + 1, by simpa using hi, he, by simp [hx, hn]⟩
  exact key l.agenda k h

/-- There is no difference but in what is aside. -/
structure Alike (C : Finset PromiseId) (H : PromiseId → Prop) (l l' : Loop V P K) : Prop where
  size : l'.promises.size = l.promises.size
  promise : ∀ {p}, ¬ H p → l'.promises[p]? = l.promises[p]?
  task : ∀ {t}, ¬ H t → l'.tasks.get? t = l.tasks.get? t
  agenda : l'.others C = l.others C

namespace Alike

theorem refl (l : Loop V P K) : l.Alike C H l := ⟨rfl, fun _ => rfl, fun _ => rfl, rfl⟩

theorem symm (h : l.Alike C H l') : l'.Alike C H l :=
  ⟨h.size.symm, fun hp => (h.promise hp).symm, fun ht => (h.task ht).symm, h.agenda.symm⟩

theorem trans (h : l.Alike C H l') (h' : l'.Alike C H l'') : l.Alike C H l'' :=
  ⟨h'.size.trans h.size, fun hp => (h'.promise hp).trans (h.promise hp),
    fun ht => (h'.task ht).trans (h.task ht), h'.agenda.trans h.agenda⟩

/-- More may be put aside. -/
theorem mono (h : l.Alike C H l') (hH : ∀ p, H p → H' p) : l.Alike C H' l' :=
  ⟨h.size, fun hp => h.promise fun hc => hp (hH _ hc), fun ht => h.task fun hc => ht (hH _ hc),
    h.agenda⟩

theorem isPending (h : l.Alike C H l') (hp : ¬ H p) : l'.isPending p = l.isPending p := by
  unfold Loop.isPending
  rw [h.promise hp]

theorem outcome? (h : l.Alike C H l') (hp : ¬ H p) : l'.outcome? p = l.outcome? p := by
  unfold Loop.outcome?
  rw [h.promise hp]

/-! ## Operations on what is seen -/

theorem newPromise (h : l.Alike C H l') : l.promise.2.Alike C H l'.promise.2 where
  size := by rw [size_promise, size_promise, h.size]
  promise hp := by rw [promises_promise, promises_promise, h.size, h.promise hp]
  task ht := h.task ht
  agenda := h.agenda

theorem enqueueAll (h : l.Alike C H l') (es : List (Errand V K)) :
    Loop.Alike C H { l with agenda := l.agenda ++ es } { l' with agenda := l'.agenda ++ es } where
  size := h.size
  promise hp := h.promise hp
  task ht := h.task ht
  agenda := by
    have ha : l'.agenda.filter (fun e => !e.continues C) = l.agenda.filter fun e => !e.continues C :=
      h.agenda
    simp [others, List.filter_append, ha]

theorem putTask (h : l.Alike C H l') (t : PromiseId) (task : Task P) :
    Loop.Alike C H { l with tasks := l.tasks.put t task }
      { l' with tasks := l'.tasks.put t task } where
  size := h.size
  promise hp := h.promise hp
  task {t'} ht := by
    rw [Keyed.get?_put, Keyed.get?_put, h.task ht]
  agenda := h.agenda

theorem eraseTask (h : l.Alike C H l') (t : PromiseId) :
    Loop.Alike C H { l with tasks := l.tasks.erase t } { l' with tasks := l'.tasks.erase t } where
  size := h.size
  promise hp := h.promise hp
  task {t'} ht := by
    rw [Keyed.get?_erase, Keyed.get?_erase, h.task ht]
  agenda := h.agenda

theorem mark (h : l.Alike C H l') (t : PromiseId) : (l.mark t).Alike C H (l'.mark t) where
  size := h.size
  promise hp := h.promise hp
  task {t'} ht := by rw [get?_tasks_mark, get?_tasks_mark, h.task ht]
  agenda := h.agenda

theorem settle (h : l.Alike C H l') (hp : ¬ H p) (o : Settled V) :
    (l.settle p o).Alike C H (l'.settle p o) := by
  have hsame := h.promise hp
  refine ⟨by rw [size_settle, size_settle, h.size], fun hq => ?_, fun ht => ?_, ?_⟩
  · rw [promises_settle, promises_settle, h.isPending hp, h.promise hq]
  · rw [tasks_settle, tasks_settle, h.task ht]
  · unfold Loop.settle
    rw [hsame]
    split
    · exact (h.enqueueAll _).agenda
    · exact h.agenda

theorem subscribe (h : l.Alike C H l') (hp : ¬ H p) (r : Reaction K) :
    (l.subscribe p r).Alike C H (l'.subscribe p r) := by
  have hsame := h.promise hp
  unfold Loop.subscribe
  rw [hsame]
  split
  · refine ⟨by simpa using h.size, fun {q} hq => ?_, fun ht => h.task ht, h.agenda⟩
    have hq' := h.promise hq
    rw [Array.getElem?_setIfInBounds, Array.getElem?_setIfInBounds, h.size, hq']
  · exact h.enqueueAll [_]
  · exact h

theorem spawn (h : l.Alike C H l') (point : P) : (l.spawn point).2.Alike C H (l'.spawn point).2 := by
  have hs := (h.newPromise.putTask l.promises.size { point }).enqueueAll [.step l.promises.size]
  unfold Loop.spawn Loop.enqueue
  dsimp only [promise_fst]
  rw [h.size]
  exact hs

theorem shield (h : l.Alike C H l') (hp : ¬ H p) : (l.shield p).2.Alike C H (l'.shield p).2 := by
  have hs := h.newPromise.subscribe hp (.relay l.promises.size)
  unfold Loop.shield
  dsimp only [promise_fst]
  rw [h.size]
  exact hs

/-- The end of a turn of a task that is seen. -/
theorem conclude (h : l.Alike C H l') (ht : ¬ H t) (turn : Turn P V)
    (hon : ∀ on point, turn = .rest on point → ¬ H on) :
    (Program.conclude t turn l).Alike C H (Program.conclude t turn l') := by
  cases turn with
  | rest on point =>
    exact (h.putTask t { point, restsOn := some on }).subscribe (hon on point rfl) (.wake t)
  | giveWay point => exact (h.putTask t { point }).enqueueAll [.step t]
  | finish result => exact (h.eraseTask t).settle ht _

/-- The errand of the same rank leaves both agendas. -/
theorem pick {e' : Errand V K} (h : l.Alike C H l') (hi : l.agenda[i]? = some e)
    (he : e.continues C = false) (hj : l'.agenda[j]? = some e') (he' : e'.continues C = false)
    (hr : l'.rank C j = l.rank C i) : e' = e ∧ (l.pick i).Alike C H (l'.pick j) := by
  have hrank := getElem?_rank hi he
  rw [← h.agenda, ← hr, getElem?_rank hj he'] at hrank
  refine ⟨Option.some.inj hrank, h.size, fun hp => h.promise hp, fun ht => h.task ht, ?_⟩
  rw [others_pick hi he, others_pick hj he', hr, h.agenda]

/-! ## What happens aside -/

theorem pick_aside (hi : l.agenda[i]? = some e) (he : e.continues C = true) :
    l.Alike C H (l.pick i) :=
  ⟨rfl, fun _ => rfl, fun _ => rfl, others_pick_of_continues hi he⟩

theorem eraseTask_aside (ht : H t) : l.Alike C H { l with tasks := l.tasks.erase t } where
  size := rfl
  promise _ := rfl
  task {t'} ht' := by
    rw [Keyed.get?_erase, if_neg]
    rintro rfl
    exact ht' ht
  agenda := rfl

theorem mark_aside (ht : H t) : l.Alike C H (l.mark t) where
  size := rfl
  promise _ := rfl
  task {t'} ht' := by
    rw [get?_tasks_mark]
    have hne : t' ≠ t := by
      rintro rfl
      exact ht' ht
    simp [hne]
  agenda := rfl

/-- Settling a promise aside wakes tasks aside only. -/
theorem settle_aside (hp : H p) (hr : ∀ r, l.Subscribed p r → ∃ t ∈ C, r = .wake t)
    (o : Settled V) : l.Alike C H (l.settle p o) where
  size := size_settle
  promise {q} hq := by
    rw [promises_settle, if_neg]
    rintro ⟨rfl, _⟩
    exact hq hp
  task _ := by rw [tasks_settle]
  agenda := by
    unfold others Loop.settle
    split
    · rename_i rs hrs
      have hnil : (rs.map fun r => (Errand.react r p : Errand V K)).filter
          (fun e => !e.continues C) = [] := by
        refine List.filter_eq_nil_iff.2 fun e he => ?_
        obtain ⟨r, hm, rfl⟩ := List.mem_map.1 he
        obtain ⟨t, ht, rfl⟩ := hr r ⟨rs, hrs, hm⟩
        simp [Errand.continues, ht]
      rw [List.filter_append, hnil, List.append_nil]
    · rfl

end Alike

end Loop

end SourceTrees
