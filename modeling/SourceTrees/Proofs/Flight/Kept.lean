import SourceTrees.Flight.Basic
import SourceTrees.Proofs.Loop.Later

/-!
# The table of a flight

The table of a flight is **kept** if it maps keys to operations that have not been forgotten, and maps
every key of a running operation to that operation.  Between the end of an operation and its hook the
table may map to the old operation, to a newer one, or, after the newer one's hook, to none.

The flight is one of several that share a loop; its hooks are told from those of the others by a map
from its keys.

## Results

* `Flight.Kept` — the invariant; `Flight.Kept.unique` — one running operation per key.
* `Flight.Kept.later`, `Flight.Kept.launch`, `Flight.Kept.forget` — what keeps it.
* `Flight.attach_running`, `Flight.attach_idle` — attaching a caller as a launch, if there is need of
  one, and a shield.
-/

set_option autoImplicit false

namespace SourceTrees.Flight

open Loop

variable {κ V P K J : Type} [DecidableEq κ] {roles : Roles K J} {hook : κ → K} {f : Flight κ}
  {l l' : Loop V P K} {key : κ} {op : PromiseId} {busy : Option PromiseId} {base i : Nat}

/-- What is mapped has not been forgotten, and what is running is mapped. -/
structure Kept (roles : Roles K J) (hook : κ → K) (f : Flight κ) (l : Loop V P K) : Prop where
  entry : ∀ {key op}, f.entries.get? key = some op →
    roles op = .operation (hook key) ∧ l.Due op (.hook (hook key))
  current : ∀ {key op}, roles op = .operation (hook key) → l.isPending op = true →
    f.entries.get? key = some op

theorem running?_eq_some_iff :
    f.running? l key = some op ↔ f.entries.get? key = some op ∧ l.isPending op = true := by
  simp [running?, Option.filter_eq_some_iff]

/-! ## Attaching in two parts -/

/-- A caller joins the running operation: it rests on a shield of it. -/
theorem attach_running (h : f.running? l key = some op) (point : P) (k : K) :
    f.attach l key point k = (l.promises.size, f.join, (l.shield op).2) := by
  simp [attach, h, Loop.shield]

/-- A caller starts the operation and rests on a shield of it. -/
theorem attach_idle (h : f.running? l key = none) (point : P) (k : K) :
    f.attach l key point k = (l.promises.size + 1, f.start key l.promises.size,
      ((f.launch l key point k).2.2.shield l.promises.size).2) := by
  simp [attach, h, launch, Loop.shield]

theorem size_launch (point : P) (k : K) :
    (f.launch l key point k).2.2.promises.size = l.promises.size + 1 := by
  simp [launch]

theorem place?_launch {t : PromiseId} (point : P) (k : K) :
    (f.launch l key point k).2.2.place? t =
      if t = l.promises.size then some (point, none) else l.place? t := by
  have hp : (f.launch l key point k).2.2.place? t = (l.spawn point).2.place? t :=
    place?_congr tasks_subscribe
  rw [hp, place?_spawn]

theorem groups_launch (point : P) (k : K) :
    (f.launch l key point k).2.2.groups = l.groups := groups_subscribe

theorem later_launch (point : P) (k : K) : l.Later (f.launch l key point k).2.2 :=
  (Later.spawn point).trans (Later.subscribe ..)

theorem isPending_launch (point : P) (k : K) {p : PromiseId} :
    (f.launch l key point k).2.2.isPending p =
      (decide (p = l.promises.size) || l.isPending p) := by
  have hp : (f.launch l key point k).2.2.isPending p = (l.spawn point).2.isPending p :=
    isPending_subscribe
  rw [hp, isPending_spawn]

theorem sound_launch (h : l.Sound roles busy base) (point : P) (k : K) :
    (f.launch l key point k).2.2.Sound
      (Function.update roles l.promises.size (.operation k)) busy base := by
  have hlt : l.promises.size < (l.spawn point).2.promises.size := by
    rw [size_spawn]
    exact Nat.lt_succ_self _
  exact Sound.subscribe (h.spawn point rfl) hlt rfl (Function.update_self ..)

namespace Kept

theorem init : ({} : Flight κ).Kept (fun _ => (.unused : Role K J)) hook ({} : Loop V P K) where
  entry h := by cases h
  current h := by cases h

/-- At most one operation of a key is running. -/
theorem unique (h : f.Kept roles hook l) {op' : PromiseId} (hr : roles op = .operation (hook key))
    (hp : l.isPending op = true) (hr' : roles op' = .operation (hook key))
    (hp' : l.isPending op' = true) : op = op' := by
  have he := h.current hr hp
  rw [h.current hr' hp'] at he
  exact (Option.some.inj he).symm

/-- The operation to be joined is the one that is running. -/
theorem running?_iff (h : f.Kept roles hook l) :
    f.running? l key = some op ↔ roles op = .operation (hook key) ∧ l.isPending op = true := by
  rw [running?_eq_some_iff]
  constructor
  · rintro ⟨he, hp⟩
    exact ⟨(h.entry he).1, hp⟩
  · rintro ⟨hr, hp⟩
    exact ⟨h.current hr hp, hp⟩

/-- The loop moves on. -/
theorem later (h : f.Kept roles hook l) (ha : l.Assigned roles) (hl : l.Later l') :
    f.Kept roles hook l' where
  entry he := ⟨(h.entry he).1, hl.hook (h.entry he).2⟩
  current hr hp := h.current hr (hl.isPending (ha.lt_size (by simp [hr])) hp)

/-- The loop moves on and has one more promise, which is not of an operation of the flight. -/
theorem grow (h : f.Kept roles hook l) (ha : l.Assigned roles) (hl : l.Later l') {role : Role K J}
    (hrole : ∀ key, role ≠ .operation (hook key)) :
    f.Kept (Function.update roles l.promises.size role) hook l' where
  entry he := ⟨ha.update_eq (h.entry he).1 (by simp), hl.hook (h.entry he).2⟩
  current {key op} hr hp := by
    rw [Function.update_apply] at hr
    split at hr
    · exact absurd hr (hrole key)
    · exact (h.later ha hl).current hr hp

theorem join (h : f.Kept roles hook l) : f.join.Kept roles hook l := ⟨h.entry, h.current⟩

/-- An errand leaves the agenda that is not a hook of the flight. -/
theorem pick (h : f.Kept roles hook l) {e : Errand V K} (hi : l.agenda[i]? = some e)
    (hk : ∀ key p, e ≠ .react (.hook (hook key)) p) : f.Kept roles hook (l.pick i) where
  entry he := ⟨(h.entry he).1, due_pick hi (hk _ _) (h.entry he).2⟩
  current hr hp := h.current hr hp

/-- An operation is started, none being running for its key. -/
theorem launch (h : f.Kept roles hook l) (hs : l.Sound roles busy base)
    (hinj : Function.Injective hook) (hn : f.running? l key = none) (point : P) :
    (f.launch l key point (hook key)).2.1.Kept
      (Function.update roles l.promises.size (.operation (hook key))) hook
      (f.launch l key point (hook key)).2.2 := by
  have hl : l.Later (f.launch l key point (hook key)).2.2 := later_launch ..
  have hlt : l.promises.size < (l.spawn point).2.promises.size := by
    rw [size_spawn]
    exact Nat.lt_succ_self _
  refine ⟨fun {key' op} he => ?_, fun {key' op} hr hp => ?_⟩
  · replace he : (f.entries.put key l.promises.size).get? key' = some op := he
    rw [Keyed.get?_put] at he
    split at he
    · rename_i hk
      cases he
      subst hk
      exact ⟨Function.update_self .., (due_subscribe hlt).2 (.inr ⟨rfl, rfl⟩)⟩
    · exact ⟨hs.assigned.update_eq (h.entry he).1 (by simp), hl.hook (h.entry he).2⟩
  · show (f.entries.put key l.promises.size).get? key' = some op
    rw [Keyed.get?_put]
    rw [Function.update_apply] at hr
    split at hr
    · rename_i ho
      have hk := hinj (Role.operation.inj hr)
      subst ho
      rw [if_pos hk.symm]
    · have he := (h.later hs.assigned hl).current hr hp
      have ho : l.isPending op = true := hl.isPending (hs.assigned.lt_size (by simp [hr])) hp
      rw [if_neg, he]
      rintro rfl
      rw [running?_eq_some_iff.2 ⟨he, ho⟩] at hn
      cases hn

/-- An operation that has ended is forgotten when its hook is served. -/
theorem forget (h : f.Kept roles hook l) (hs : l.Sound roles busy base)
    (hinj : Function.Injective hook) (hi : l.agenda[i]? = some (.react (.hook (hook key)) op)) :
    (f.forget key op).Kept roles hook (l.pick i) := by
  have hold : ∀ {key' op'}, (f.forget key op).entries.get? key' = some op' →
      f.entries.get? key' = some op' ∧ ¬ (key' = key ∧ op' = op) := by
    intro key' op' he
    unfold Flight.forget at he
    split at he
    · rw [Keyed.get?_erase] at he
      split at he
      · cases he
      · rename_i hk
        exact ⟨he, fun hc => hk hc.1⟩
    · rename_i hne
      refine ⟨he, ?_⟩
      rintro ⟨rfl, rfl⟩
      exact hne he
  refine ⟨fun {key' op'} he => ?_, fun {key' op'} hr hp => ?_⟩
  · obtain ⟨he, hne⟩ := hold he
    obtain ⟨hr, hd⟩ := h.entry he
    refine ⟨hr, due_pick hi (fun hc => hne ?_) hd⟩
    simp only [Errand.react.injEq, Reaction.hook.injEq] at hc
    exact ⟨(hinj hc.1).symm, hc.2.symm⟩
  · have he := h.current hr hp
    obtain ⟨o, ho⟩ := hs.tended.settled (List.mem_of_getElem? hi)
    unfold Flight.forget
    split
    · rename_i hop
      rw [Keyed.get?_erase, if_neg]
      · exact he
      · rintro rfl
        rw [he] at hop
        cases hop
        have hc : l.isPending op = true := hp
        rw [isPending_of_outcome? ho] at hc
        cases hc
    · exact he

end Kept

end SourceTrees.Flight
