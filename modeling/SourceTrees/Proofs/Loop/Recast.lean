import SourceTrees.Proofs.Loop.Likeness

/-!
# Where a task is to go on

The point of a task is looked at when the task has its turn, and by nobody else.  A loop is **recast** if one
of its tasks is to go on from another point; everything that is done to the two loops but that turn does the
same to both.

## Results

* `Keyed.put_adjust_of_ne`, `Keyed.adjust_adjust_of_ne`, … — changes of different entries can be made in
  either order.
* `Loop.recast` — the other loop; `Loop.recast_settle`, `Loop.recast_subscribe`, … — what is done to it.
* `Loop.likeness_recast` — it is like the first.
* `Loop.conclude_recast` — the end of a turn of the task itself leaves no difference.
-/

set_option autoImplicit false

namespace SourceTrees

/-! ## Tables -/

namespace Keyed

variable {κ ν : Type} [DecidableEq κ] {t : Keyed κ ν} {k k' : κ} {v v' : ν} {es : List (κ × ν)}
  {f g : ν → ν}

omit [DecidableEq κ] in
theorem ext_entries {t' : Keyed κ ν} (h : t.entries = t'.entries) : t = t' := by
  cases t
  cases t'
  cases h
  rfl

theorem putIn_putIn (k : κ) (v v' : ν) (es : List (κ × ν)) :
    putIn k v' (putIn k v es) = putIn k v' es := by
  induction es with
  | nil => simp [putIn]
  | cons e rest ih =>
    by_cases he : e.1 = k
    · simp [putIn, he]
    · simp [putIn, he, ih]

theorem putIn_of_lookIn (h : lookIn k es = some v) : putIn k v es = es := by
  induction es with
  | nil => cases h
  | cons e rest ih =>
    by_cases he : e.1 = k
    · rw [lookIn, if_pos he] at h
      cases h
      subst he
      simp [putIn]
    · rw [lookIn, if_neg he] at h
      simp [putIn, he, ih h]

/-- A value is entered elsewhere before another one is replaced, or afterwards. -/
theorem putIn_putIn_of_ne (hne : k' ≠ k) (hk : (lookIn k es).isSome = true) :
    putIn k' v' (putIn k v es) = putIn k v (putIn k' v' es) := by
  induction es with
  | nil => cases hk
  | cons e rest ih =>
    by_cases he : e.1 = k
    · simp [putIn, he, hne.symm]
    · rw [lookIn, if_neg he] at hk
      by_cases he' : e.1 = k'
      · simp [putIn, he', hne]
      · simp [putIn, he, he', ih hk]

theorem filter_putIn (k : κ) (v : ν) (es : List (κ × ν)) :
    (putIn k v es).filter (fun e => e.1 ≠ k) = es.filter fun e => e.1 ≠ k := by
  induction es with
  | nil => simp [putIn]
  | cons e rest ih =>
    by_cases he : e.1 = k
    · simp [putIn, he]
    · simp only [putIn, he, if_false]
      rw [List.filter_cons_of_pos (by simpa using he), List.filter_cons_of_pos (by simpa using he), ih]

theorem filter_putIn_of_ne (hne : k ≠ k') (v : ν) (es : List (κ × ν)) :
    (putIn k v es).filter (fun e => e.1 ≠ k') = putIn k v (es.filter fun e => e.1 ≠ k') := by
  induction es with
  | nil => simp [putIn, hne]
  | cons e rest ih =>
    by_cases he : e.1 = k
    · have hne' : e.1 ≠ k' := he ▸ hne
      simp only [putIn, he, if_true]
      rw [List.filter_cons_of_pos (by simpa using hne), List.filter_cons_of_pos (by simpa using hne')]
      simp [putIn, he]
    · by_cases he' : e.1 = k'
      · simp only [putIn, he, if_false]
        rw [List.filter_cons_of_neg (by simpa using he'), List.filter_cons_of_neg (by simpa using he'), ih]
      · simp only [putIn, he, if_false]
        rw [List.filter_cons_of_pos (by simpa using he'), List.filter_cons_of_pos (by simpa using he'), ih]
        simp [putIn, he]

theorem get?_adjust (t : Keyed κ ν) (k k' : κ) (f : ν → ν) :
    (t.adjust k f).get? k' = if k' = k then (t.get? k).map f else t.get? k' := by
  unfold adjust
  cases hg : t.get? k with
  | some v => exact get?_put ..
  | none =>
    dsimp only
    split
    · rename_i he
      rw [he, hg]
      rfl
    · rfl

/-- A change of the entry under one key, and a value entered under another. -/
theorem put_adjust_of_ne (hne : k' ≠ k) (v : ν) : (t.adjust k f).put k' v = (t.put k' v).adjust k f := by
  unfold adjust
  rw [get?_put, if_neg hne.symm]
  cases hg : t.get? k with
  | some x => exact ext_entries (putIn_putIn_of_ne hne (congrArg Option.isSome hg))
  | none => rfl

theorem put_adjust (v : ν) : (t.adjust k f).put k v = t.put k v := by
  unfold adjust
  cases t.get? k with
  | some x => exact ext_entries (putIn_putIn ..)
  | none => rfl

theorem adjust_put (v : ν) : (t.put k v).adjust k f = t.put k (f v) := by
  unfold adjust
  rw [get?_put, if_pos rfl]
  exact ext_entries (putIn_putIn ..)

theorem erase_adjust_of_ne (hne : k' ≠ k) : (t.adjust k f).erase k' = (t.erase k').adjust k f := by
  unfold adjust
  rw [get?_erase, if_neg hne.symm]
  cases t.get? k with
  | some x => exact ext_entries (filter_putIn_of_ne hne.symm ..)
  | none => rfl

theorem erase_adjust : (t.adjust k f).erase k = t.erase k := by
  unfold adjust
  cases t.get? k with
  | some x => exact ext_entries (filter_putIn ..)
  | none => rfl

theorem adjust_adjust_of_ne (hne : k' ≠ k) :
    (t.adjust k f).adjust k' g = (t.adjust k' g).adjust k f := by
  conv_lhs => rw [adjust, get?_adjust, if_neg hne]
  conv_rhs => rw [adjust.eq_1 t k' g]
  cases t.get? k' with
  | some x => exact put_adjust_of_ne hne _
  | none => rfl

/-- A change that leaves the entry as it is leaves the table as it is. -/
theorem adjust_of_fixed (h : ∀ v, t.get? k = some v → f v = v) : t.adjust k f = t := by
  unfold adjust
  cases hg : t.get? k with
  | some v =>
    dsimp only
    rw [h v hg]
    exact ext_entries (putIn_of_lookIn hg)
  | none => rfl

theorem adjust_adjust : (t.adjust k f).adjust k g = t.adjust k fun v => g (f v) := by
  conv_lhs => rw [adjust, get?_adjust, if_pos rfl]
  conv_rhs => rw [adjust.eq_1 t k]
  cases hg : t.get? k with
  | some x => exact put_adjust _
  | none => exact (adjust.eq_1 t k f).trans (by rw [hg])

end Keyed

/-! ## Loops -/

namespace Loop

variable {V P K : Type} {l : Loop V P K} {c p t : PromiseId} {point : P}

/-- The same loop, but that the task is to go on from another point. -/
def recast (c : PromiseId) (point : P) (l : Loop V P K) : Loop V P K :=
  { l with tasks := l.tasks.adjust c ({ · with point }) }

theorem get?_tasks_recast : (l.recast c point).tasks.get? t =
    if t = c then (l.tasks.get? c).map ({ · with point }) else l.tasks.get? t :=
  Keyed.get?_adjust ..

/-- What a task rests on, and whether it is marked, is the same. -/
theorem map_tasks_recast {α : Type} {f : Task P → α} (hf : ∀ task point, f { task with point } = f task) :
    ((l.recast c point).tasks.get? t).map f = (l.tasks.get? t).map f := by
  rw [get?_tasks_recast]
  split
  · rename_i he
    rw [he, Option.map_map]
    exact congrArg (Option.map · _) (funext fun task => hf task point)
  · rfl

theorem recast_settle (o : Settled V) : (l.recast c point).settle p o = (l.settle p o).recast c point := by
  unfold settle recast
  dsimp only
  cases l.promises[p]? with
  | none => rfl
  | some x => cases x <;> rfl

theorem recast_subscribe (r : Reaction K) :
    (l.recast c point).subscribe p r = (l.subscribe p r).recast c point := by
  unfold subscribe recast
  dsimp only
  cases l.promises[p]? with
  | none => rfl
  | some x => cases x <;> rfl

theorem recast_unsubscribe [DecidableEq K] (r : Reaction K) :
    (l.recast c point).unsubscribe p r = (l.unsubscribe p r).recast c point := by
  unfold unsubscribe recast
  dsimp only
  cases l.promises[p]? with
  | none => rfl
  | some x => cases x <;> rfl

/-- A task that has just been started is recast. -/
theorem recast_spawned (start : P) :
    (l.spawn start).2.recast l.promises.size point = (l.spawn point).2 := by
  unfold spawn promise recast enqueue
  dsimp only
  rw [Keyed.adjust_put]

theorem recast_mark : (l.recast c point).mark t = (l.mark t).recast c point := by
  unfold mark recast
  by_cases he : t = c
  · subst he
    dsimp only
    rw [Keyed.adjust_adjust, Keyed.adjust_adjust]
  · dsimp only
    rw [Keyed.adjust_adjust_of_ne he]

/-- After the end of the task's own turn there is no difference. -/
theorem conclude_recast (turn : Turn P V) :
    Program.conclude c turn (l.recast c point) = Program.conclude c turn l := by
  unfold Program.conclude recast
  cases turn with
  | rest on start | giveWay start =>
    dsimp only
    rw [Keyed.put_adjust]
  | finish result =>
    dsimp only
    rw [Keyed.erase_adjust]

/-- Loops of which one is the other recast are alike. -/
theorem likeness_recast [DecidableEq K] (c : PromiseId) (point : P) :
    Likeness c fun l l' : Loop V P K => c < l.promises.size ∧ l' = l.recast c point where
  known h := h.1
  size h := by rw [h.2]; rfl
  isPending h _ := by rw [h.2]; rfl
  manner h _ := by rw [h.2]; rfl
  task h _ hne := by rw [h.2, get?_tasks_recast, if_neg hne]
  restsOn h _ := by rw [h.2]; exact map_tasks_recast fun _ _ => rfl
  rest h := ⟨_, _, h.2⟩
  replace h _ _ _ _ := ⟨h.1, by rw [h.2]; rfl⟩
  promise h := ⟨by rw [size_promise]; exact Nat.lt_succ_of_lt h.1, by rw [h.2]; rfl⟩
  settle h _ o := ⟨by rw [size_settle]; exact h.1, by rw [h.2, recast_settle]⟩
  subscribe h _ r := ⟨by rw [size_subscribe]; exact h.1, by rw [h.2, recast_subscribe]⟩
  unsubscribe h _ r := ⟨by rw [size_unsubscribe]; exact h.1, by rw [h.2, recast_unsubscribe]⟩
  putTask h _ hne _ := ⟨h.1, by rw [h.2]; unfold recast; dsimp only; rw [Keyed.put_adjust_of_ne hne]⟩
  eraseTask h _ hne := ⟨h.1, by rw [h.2]; unfold recast; dsimp only; rw [Keyed.erase_adjust_of_ne hne]⟩
  mark h _ := ⟨h.1, by rw [h.2, recast_mark]⟩

end Loop

end SourceTrees
