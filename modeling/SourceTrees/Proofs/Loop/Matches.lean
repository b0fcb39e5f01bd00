import Mathlib.Data.List.Forall2
import SourceTrees.Proofs.Loop.Names
import SourceTrees.Proofs.Loop.Order

/-!
# What corresponds to what in two loops

A loop is held against what is left of it: promises, tasks and errands that are linked correspond to each
other, whatever becomes of the strays.

## Protocol

* Linked promises are open in both loops with corresponding reactions, or settled alike; tallies of groups are
  left out.  Linked tasks rest at corresponding points, on linked promises.
* What concerns a stray in the full loop concerns strays only: its reactions, where its task rests, and its
  errands.

## Results

* `Promise.Match`, `Task.Match`, `Errand.Match` — what corresponds to what; `Errand.Stray` — errands of which
  nothing is left.
* `Loop.PromisesMatch`, `Loop.TasksMatch` — the promises and the tasks of two loops, and what may be done to
  them.
-/

set_option autoImplicit false

namespace SourceTrees

/-! ## What corresponds to what -/

/-- Results that are the same fault, or values that are related. -/
inductive ResultsMatch {α β : Type} (R : α → β → Prop) : Except Fault α → Except Fault β → Prop
  | ok {a : α} {b : β} (h : R a b) : ResultsMatch R (.ok a) (.ok b)
  | error (f : Fault) : ResultsMatch R (.error f) (.error f)

/-- How values and points are compared, from which points free tasks begin, from which strays go on, and which
    hooks there are on linked promises. -/
structure Kinds (V P K : Type) where
  value : V → V → Prop
  point : P → P → Prop
  idle : P → P → Prop
  away : P → Prop
  hook : K → Prop

variable {V P K : Type}

/-- More is related than before. -/
structure Kinds.Le (C C₁ : Kinds V P K) : Prop where
  value : ∀ {v v'}, C.value v v' → C₁.value v v'
  point : ∀ {a a'}, C.point a a' → C₁.point a a'
  idle : ∀ {a a'}, C.idle a a' → C₁.idle a a'
  away : ∀ {a}, C.away a → C₁.away a
  hook : ∀ {k}, C.hook k → C₁.hook k

/-- Promises are settled alike. -/
inductive Settled.Match (R : V → V → Prop) : Settled V → Settled V → Prop
  | value {v v' : V} (h : R v v') : Match R (.value v) (.value v')
  | failed (f : Fault) : Match R (.failed f) (.failed f)
  | cancelled : Match R .cancelled .cancelled

/-- The promise that a reaction is about. -/
def Reaction.target? : Reaction K → Option PromiseId
  | wake t => some t
  | relay q => some q
  | signal w => some w
  | tally g => some g
  | hook _ => none

/-- The reaction is about a stray, if it is about any promise. -/
def Reaction.Stray (N : Names) (r : Reaction K) : Prop := ∀ q, r.target? = some q → N.Strays q

/-- Corresponding reactions. -/
inductive Reaction.Match (L : PromiseId → PromiseId → Prop) (H : K → Prop) : Reaction K → Reaction K → Prop
  | wake {t t' : PromiseId} (h : L t t') : Match L H (.wake t) (.wake t')
  | relay {q q' : PromiseId} (h : L q q') : Match L H (.relay q) (.relay q')
  | signal {w w' : PromiseId} (h : L w w') : Match L H (.signal w) (.signal w')
  | hook {k : K} (h : H k) : Match L H (.hook k) (.hook k)

/-- The reaction is the tally of a group of which nothing is left. -/
def Reaction.IsTally (N : Names) (r : Reaction K) : Prop := ∃ g, r = .tally g ∧ N.Unnamed g

/-- Corresponding promises; nothing is left of tallies. -/
inductive Promise.Match (N : Names) (C : Kinds V P K) : Promise V K → Promise V K → Prop
  | pending {rs rs' : List (Reaction K)}
      (h : Sifted (Reaction.Match N.Links C.hook) (Reaction.IsTally N) rs rs') :
      Match N C (.pending rs) (.pending rs')
  | settled {o o' : Settled V} (h : o.Match C.value o') : Match N C (.settled o) (.settled o')

/-- Corresponding tasks. -/
structure Task.Match (N : Names) (C : Kinds V P K) (task task' : Task P) : Prop where
  point : C.point task.point task'.point
  restsOn : Option.Rel N.Links task.restsOn task'.restsOn
  marked : task'.marked = task.marked

/-- The task goes on from a point for strays, and rests on a stray if it rests on anything. -/
structure Task.Away (N : Names) (C : Kinds V P K) (task : Task P) : Prop where
  point : C.away task.point
  restsOn : ∀ p, task.restsOn = some p → N.Strays p

/-- Corresponding errands. -/
inductive Errand.Match (N : Names) (C : Kinds V P K) : Errand V K → Errand V K → Prop
  | step {t t' : PromiseId} (h : N.name t = some t') : Match N C (.step t) (.step t')
  | react {r r' : Reaction K} {p p' : PromiseId} (hr : r.Match N.Links C.hook r') (hp : N.Links p p') :
      Match N C (.react r p) (.react r' p')
  | deliver {p p' : PromiseId} {x x' : Except Fault V} (hp : N.Links p p') (hx : ResultsMatch C.value x x') :
      Match N C (.deliver p x) (.deliver p' x')

/-- Nothing is left of the errand. -/
inductive Errand.Stray (N : Names) : Errand V K → Prop
  | step {t : PromiseId} (h : N.Unnamed t) : Stray N (.step t)
  | tally {g p : PromiseId} (h : N.Unnamed g) : Stray N (.react (.tally g) p)
  | react {r : Reaction K} {p : PromiseId} (h : N.Unnamed p) (hr : r.Stray N) : Stray N (.react r p)
  | deliver {p : PromiseId} {x : Except Fault V} (h : N.Unnamed p) : Stray N (.deliver p x)
  | expire {p : PromiseId} (h : N.Unnamed p) : Stray N (.expire p)

/-- Is something left of the errand?  It is, if it is no tally and what it is about has a name. -/
def Errand.isLeft (name : PromiseId → Option PromiseId) : Errand V K → Bool
  | .step t => (name t).isSome
  | .react (.tally _) _ => false
  | .react _ p | .deliver p _ | .expire p => (name p).isSome

section mono

variable {N N₁ : Names} {C C₁ : Kinds V P K} (hN : N.Le N₁) (hC : C.Le C₁)

theorem ResultsMatch.mono {α β : Type} {R R' : α → β → Prop} {x : Except Fault α} {x' : Except Fault β}
    (h : ResultsMatch R x x') (hR : ∀ {a b}, R a b → R' a b) : ResultsMatch R' x x' := by
  cases h with
  | ok h => exact .ok (hR h)
  | error f => exact .error f

theorem Settled.Match.mono {R R' : V → V → Prop} {o o' : Settled V} (h : o.Match R o')
    (hR : ∀ {v v'}, R v v' → R' v v') : o.Match R' o' := by
  cases h with
  | value h => exact .value (hR h)
  | failed f => exact .failed f
  | cancelled => exact .cancelled

include hN in
theorem Reaction.Stray.mono {r : Reaction K} (h : r.Stray N) : r.Stray N₁ := fun q hq => hN.strays (h q hq)

theorem Reaction.Match.mono {L L' : PromiseId → PromiseId → Prop} {H H' : K → Prop} {r r' : Reaction K}
    (h : r.Match L H r') (hL : ∀ {p p'}, L p p' → L' p p') (hH : ∀ {k}, H k → H' k) : r.Match L' H' r' := by
  cases h with
  | wake h => exact .wake (hL h)
  | relay h => exact .relay (hL h)
  | signal h => exact .signal (hL h)
  | hook h => exact .hook (hH h)

include hN hC in
theorem Promise.Match.mono {x x' : Promise V K} (h : x.Match N C x') : x.Match N₁ C₁ x' := by
  cases h with
  | pending h =>
    exact .pending (h.mono (fun h => h.mono hN.links hC.hook) fun ⟨g, he, hg⟩ => ⟨g, he, hN.unnamed hg⟩)
  | settled h => exact .settled (h.mono hC.value)

theorem Option.Rel.imp {α β : Type} {R R' : α → β → Prop} {a : Option α} {b : Option β}
    (h : Option.Rel R a b) (hR : ∀ {a b}, R a b → R' a b) : Option.Rel R' a b := by
  cases h with
  | some h => exact .some (hR h)
  | none => exact .none

include hN hC in
theorem Task.Match.mono {task task' : Task P} (h : task.Match N C task') : task.Match N₁ C₁ task' :=
  ⟨hC.point h.point, Option.Rel.imp h.restsOn hN.links, h.marked⟩

include hN hC in
theorem Task.Away.mono {task : Task P} (h : task.Away N C) : task.Away N₁ C₁ :=
  ⟨hC.away h.point, fun p hp => hN.strays (h.restsOn p hp)⟩

include hN hC in
theorem Errand.Match.mono {e e' : Errand V K} (h : e.Match N C e') : e.Match N₁ C₁ e' := by
  cases h with
  | step h => exact .step (hN.name h)
  | react hr hp => exact .react (hr.mono hN.links hC.hook) (hN.links hp)
  | deliver hp hx => exact .deliver (hN.links hp) (hx.mono hC.value)

include hN in
theorem Errand.Stray.mono {e : Errand V K} (h : e.Stray N) : e.Stray N₁ := by
  cases h with
  | step h => exact .step (hN.unnamed h)
  | tally h => exact .tally (hN.unnamed h)
  | react h hr => exact .react (hN.unnamed h) (hr.mono hN)
  | deliver h => exact .deliver (hN.unnamed h)
  | expire h => exact .expire (hN.unnamed h)

end mono

theorem Errand.Match.isLeft {N : Names} {C : Kinds V P K} {e e' : Errand V K} (h : e.Match N C e') :
    e.isLeft N.name = true := by
  cases h with
  | step h => simp [Errand.isLeft, h]
  | react hr hp => cases hr <;> simp [Errand.isLeft, hp.1]
  | deliver hp => simp [Errand.isLeft, hp.1]

theorem Errand.Stray.isLeft {N : Names} {e : Errand V K} (h : e.Stray N) : e.isLeft N.name = false := by
  cases h with
  | step h | deliver h | expire h => simp [Errand.isLeft, h.2]
  | tally => rfl
  | @react r p h => cases r <;> simp [Errand.isLeft, h.2]

namespace Loop

variable {N N₁ : Names} {C C₁ : Kinds V P K} {a a' : Array (Promise V K)} {ts ts' : Keyed PromiseId (Task P)}
  {l l' : Loop V P K} {p p' q t t' w w' : PromiseId} {r r' : Reaction K}

/-! ## Promises -/

/-- Corresponding promises of two loops. -/
structure PromisesMatch (N : Names) (C : Kinds V P K) (a a' : Array (Promise V K)) : Prop where
  size : N.size = a.size
  size' : N.size' = a'.size
  linked : ∀ {p p'}, N.Links p p' → Option.Rel (Promise.Match N C) a[p]? a'[p']?
  stray : ∀ {p rs}, N.name p = none → a[p]? = some (.pending rs) → ∀ r ∈ rs, r.Stray N
  /-- Nobody waits for the end of a free task. -/
  free : ∀ {p p' rs}, N.name p = some p' → N.free p →
    a[p]? = some (.pending rs) ∨ a'[p']? = some (.pending rs) → rs = []

namespace PromisesMatch

theorem mono (h : PromisesMatch N C a a') (hC : C.Le C₁) : PromisesMatch N C₁ a a' :=
  ⟨h.size, h.size', fun hp => Option.Rel.imp (h.linked hp) (·.mono (.refl N) hC), h.stray, h.free⟩

theorem push (h : PromisesMatch N C a a') : PromisesMatch N.push C (a.push (.pending [])) (a'.push (.pending [])) where
  size := by rw [Array.size_push, ← h.size]; rfl
  size' := by rw [Array.size_push, ← h.size']; rfl
  linked {p p'} hp := by
    rw [Array.getElem?_push, Array.getElem?_push, ← h.size, ← h.size']
    by_cases he : p = N.size
    · subst he
      rw [if_pos rfl, if_pos (Option.some.inj (hp.1.symm.trans N.push_name))]
      exact .some (.pending .nil)
    · have hold : N.name p = some p' := (Function.update_of_ne he ..).symm.trans hp.1
      rw [if_neg he, if_neg (Nat.ne_of_lt (N.known hold).2)]
      exact Option.Rel.imp (h.linked ⟨hold, hp.2⟩) (·.mono N.le_push ⟨id, id, id, id, id⟩)
  stray {p rs} hn hp r hr := by
    rw [Array.getElem?_push] at hp
    split at hp
    · cases hp
      cases hr
    · have hlt : p < N.size := h.size ▸ (Array.getElem?_eq_some_iff.1 hp).1
      exact (h.stray ((Names.push_name_of_lt hlt).symm.trans hn) hp r hr).mono N.le_push
  free {p p' rs} hn hf hp := by
    have hold : N.name p = some p' := (Names.push_name_of_lt (N.free_lt hf)).symm.trans hn
    refine h.free hold hf (hp.imp (fun hp => ?_) fun hp => ?_)
    · rwa [Array.getElem?_push, if_neg (h.size ▸ Nat.ne_of_lt (N.known hold).1)] at hp
    · rwa [Array.getElem?_push, if_neg (h.size' ▸ Nat.ne_of_lt (N.known hold).2)] at hp

theorem pushFree (h : PromisesMatch N C a a') :
    PromisesMatch N.pushFree C (a.push (.pending [])) (a'.push (.pending [])) where
  size := h.push.size
  size' := h.push.size'
  linked {p p'} hp := by
    have hold : N.name p = some p' := (Function.update_of_ne (fun he => hp.2 (.inl he)) ..).symm.trans hp.1
    have hlt := N.known hold
    rw [Array.getElem?_push, Array.getElem?_push, ← h.size, ← h.size', if_neg (Nat.ne_of_lt hlt.1),
      if_neg (Nat.ne_of_lt hlt.2)]
    exact Option.Rel.imp (h.linked ⟨hold, fun hf => hp.2 (.inr hf)⟩) (·.mono N.le_pushFree ⟨id, id, id, id, id⟩)
  stray {p rs} hn hp r hr := by
    rw [Array.getElem?_push] at hp
    split at hp
    · cases hp
      cases hr
    · have hlt : p < N.size := h.size ▸ (Array.getElem?_eq_some_iff.1 hp).1
      exact (h.stray ((Names.push_name_of_lt hlt).symm.trans hn) hp r hr).mono N.le_pushFree
  free {p p' rs} hn hf hp := by
    rw [Array.getElem?_push, Array.getElem?_push, ← h.size, ← h.size'] at hp
    by_cases he : p = N.size
    · subst he
      rw [if_pos rfl, if_pos (Option.some.inj (hn.symm.trans N.push_name))] at hp
      rcases hp with hp | hp <;> cases hp <;> rfl
    · have hold : N.name p = some p' := (Function.update_of_ne he ..).symm.trans hn
      rw [if_neg he, if_neg (Nat.ne_of_lt (N.known hold).2)] at hp
      exact h.free hold (hf.resolve_left he) hp

theorem grow (h : PromisesMatch N C a a') : PromisesMatch N.grow C (a.push (.pending [])) a' where
  size := by rw [Array.size_push, ← h.size]; rfl
  size' := h.size'
  linked {p p'} hp := by
    rw [Array.getElem?_push, if_neg (h.size ▸ Nat.ne_of_lt (N.known hp.1).1)]
    exact Option.Rel.imp (h.linked hp) (·.mono N.le_grow ⟨id, id, id, id, id⟩)
  stray {p rs} hn hp r hr := by
    rw [Array.getElem?_push] at hp
    split at hp
    · cases hp
      cases hr
    · exact (h.stray hn hp r hr).mono N.le_grow
  free {p p' rs} hn hf hp := by
    rw [Array.getElem?_push, if_neg (h.size ▸ Nat.ne_of_lt (N.known hn).1)] at hp
    exact h.free hn hf hp

theorem depart (h : PromisesMatch N C a a') (ht : N.free t) : PromisesMatch (N.depart t ht) C a a' where
  size := h.size
  size' := h.size'
  linked hp := Option.Rel.imp (h.linked hp) (·.mono (Names.le_depart ht) ⟨id, id, id, id, id⟩)
  stray hn hp r hr := (h.stray hn hp r hr).mono (Names.le_depart ht)
  free := h.free

/-- Linked promises are changed alike. -/
theorem set (h : PromisesMatch N C a a') (hp : N.Links p p') {x x' : Promise V K} (hx : x.Match N C x') :
    PromisesMatch N C (a.setIfInBounds p x) (a'.setIfInBounds p' x') where
  size := by rw [Array.size_setIfInBounds, h.size]
  size' := by rw [Array.size_setIfInBounds, h.size']
  linked {q q'} hq := by
    rw [Array.getElem?_setIfInBounds, Array.getElem?_setIfInBounds]
    by_cases he : p = q
    · have hlt := N.known hp.1
      rw [if_pos he, if_pos ((hp.eq_iff hq).2 he), if_pos (h.size ▸ hlt.1), if_pos (h.size' ▸ hlt.2)]
      exact .some hx
    · rw [if_neg he, if_neg (he ∘ (hp.eq_iff hq).1)]
      exact h.linked hq
  stray {q rs} hn hq := by
    rw [Array.getElem?_setIfInBounds, if_neg] at hq
    · exact h.stray hn hq
    · rintro rfl
      cases hn.symm.trans hp.1
  free {q q' rs} hn hf hq := by
    have hne : p ≠ q := fun he => hp.2 (he ▸ hf)
    have hne' : p' ≠ q' := Names.ne_of_ne hp.1 hn hne
    rw [Array.getElem?_setIfInBounds, Array.getElem?_setIfInBounds, if_neg hne, if_neg hne'] at hq
    exact h.free hn hf hq

/-- A stray is changed. -/
theorem setStray (h : PromisesMatch N C a a') (hp : N.Strays p) {x : Promise V K}
    (hx : ∀ rs, x = .pending rs → N.name p = none ∧ ∀ r ∈ rs, r.Stray N) :
    PromisesMatch N C (a.setIfInBounds p x) a' where
  size := by rw [Array.size_setIfInBounds, h.size]
  size' := h.size'
  linked {q q'} hq := by
    have hne : p ≠ q := fun he => hq.not_strays (he ▸ hp)
    rw [Array.getElem?_setIfInBounds, if_neg hne]
    exact h.linked hq
  stray {q rs} hn hq := by
    rw [Array.getElem?_setIfInBounds] at hq
    split at hq
    · split at hq
      · exact (hx rs (Option.some.inj hq)).2
      · cases hq
    · exact h.stray hn hq
  free {q q' rs} hn hf hq := by
    rw [Array.getElem?_setIfInBounds] at hq
    split at hq
    · rename_i he
      subst he
      refine hq.elim (fun hq => ?_) fun hq => h.free hn hf (.inr hq)
      split at hq
      · cases hn.symm.trans (hx rs (Option.some.inj hq)).1
      · cases hq
    · exact h.free hn hf hq

/-- What is left of a free task is settled. -/
theorem setFree (h : PromisesMatch N C a a') (hp : N.name p = some p') (hf : N.free p) (o : Settled V) :
    PromisesMatch N C a (a'.setIfInBounds p' (.settled o)) where
  size := h.size
  size' := by rw [Array.size_setIfInBounds, h.size']
  linked {q q'} hq := by
    rw [Array.getElem?_setIfInBounds, if_neg]
    · exact h.linked hq
    · rintro rfl
      exact hq.2 (N.injective hp hq.1 ▸ hf)
  stray := h.stray
  free {q q' rs} hn hf hq := by
    rw [Array.getElem?_setIfInBounds] at hq
    split at hq
    · refine hq.elim (fun hq => h.free hn hf (.inl hq)) fun hq => ?_
      split at hq <;> cases hq
    · exact h.free hn hf hq

/-- A linked promise gets a tally, of which nothing is left. -/
theorem setTally (h : PromisesMatch N C a a') (hp : N.Links p p') {rs : List (Reaction K)}
    (hrs : a[p]? = some (.pending rs)) (hr : r.IsTally N) :
    PromisesMatch N C (a.setIfInBounds p (.pending (rs ++ [r]))) a' where
  size := by rw [Array.size_setIfInBounds, h.size]
  size' := h.size'
  linked {q q'} hq := by
    rw [Array.getElem?_setIfInBounds]
    by_cases he : p = q
    · subst he
      have hx := h.linked hq
      rw [if_pos rfl, if_pos (h.size ▸ (N.known hp.1).1)]
      rw [hrs] at hx
      cases hx' : a'[q']? <;> rw [hx'] at hx <;> cases hx
      rename_i hx
      cases hx with
      | pending hx =>
        have hsifted := hx.append (.drop hr .nil)
        rw [List.append_nil] at hsifted
        exact .some (.pending hsifted)
    · rw [if_neg he]
      exact h.linked hq
  stray {q rs} hn hq := by
    rw [Array.getElem?_setIfInBounds, if_neg] at hq
    · exact h.stray hn hq
    · rintro rfl
      cases hn.symm.trans hp.1
  free {q q' rs} hn hf hq := by
    have hne : p ≠ q := fun he => hp.2 (he ▸ hf)
    rw [Array.getElem?_setIfInBounds, if_neg hne] at hq
    exact h.free hn hf hq

end PromisesMatch

/-! ## Tasks -/

/-- Corresponding tasks of two loops. -/
structure TasksMatch (N : Names) (C : Kinds V P K) (ts ts' : Keyed PromiseId (Task P)) : Prop where
  known : ∀ {t task}, ts.get? t = some task → t < N.size
  known' : ∀ {t task}, ts'.get? t = some task → t < N.size'
  linked : ∀ {t t'}, N.Links t t' → Option.Rel (Task.Match N C) (ts.get? t) (ts'.get? t')
  /-- A free task is at its beginning in both loops, unless it is gone. -/
  waiting : ∀ {t t'}, N.name t = some t' → N.free t → ¬ N.gone t → ∃ point point' marked,
    ts.get? t = some ⟨point, none, marked⟩ ∧ ts'.get? t' = some ⟨point', none, marked⟩ ∧ C.idle point point'
  gone : ∀ {t t'}, N.name t = some t' → N.gone t → ts'.get? t' = none
  stray : ∀ {t task}, N.Strays t → ts.get? t = some task → task.Away N C
  /-- A free task that is gone has begun: it rests on something. -/
  begun : ∀ {t task}, N.gone t → ts.get? t = some task → task.restsOn ≠ none

namespace TasksMatch

theorem mono (h : TasksMatch N C ts ts') (hC : C.Le C₁) : TasksMatch N C₁ ts ts' where
  known := h.known
  known' := h.known'
  linked ht := Option.Rel.imp (h.linked ht) (·.mono (.refl N) hC)
  waiting hn hf hg := by
    obtain ⟨point, point', marked, ht, ht', hi⟩ := h.waiting hn hf hg
    exact ⟨point, point', marked, ht, ht', hC.idle hi⟩
  gone := h.gone
  stray hs ht := (h.stray hs ht).mono (.refl N) hC
  begun := h.begun

/-- The tasks are the same after a promise has been made in both loops. -/
theorem push (h : TasksMatch N C ts ts') : TasksMatch N.push C ts ts' where
  known ht := Nat.lt_succ_of_lt (h.known ht)
  known' ht := Nat.lt_succ_of_lt (h.known' ht)
  linked {t t'} ht := by
    by_cases he : t = N.size
    · subst he
      cases hg : ts.get? N.size with
      | some task => exact absurd (h.known hg) (Nat.lt_irrefl _)
      | none =>
        cases hg' : ts'.get? t' with
        | some task =>
          rw [← Option.some.inj (N.push_name.symm.trans ht.1)] at hg'
          exact absurd (h.known' hg') (Nat.lt_irrefl _)
        | none => exact .none
    · have hold : N.Links t t' := ⟨(Function.update_of_ne he ..).symm.trans ht.1, ht.2⟩
      exact Option.Rel.imp (h.linked hold) (·.mono N.le_push ⟨id, id, id, id, id⟩)
  waiting hn hf hg := h.waiting ((Names.push_name_of_lt (N.free_lt hf)).symm.trans hn) hf hg
  gone hn hg := h.gone ((Names.push_name_of_lt (N.free_lt (N.gone_free hg))).symm.trans hn) hg
  stray {t task} hs ht := by
    have hlt := h.known ht
    refine Task.Away.mono N.le_push ⟨id, id, id, id, id⟩ (h.stray ⟨hlt, hs.2.imp_left fun hn => ?_⟩ ht)
    exact (Names.push_name_of_lt hlt).symm.trans hn
  begun := h.begun

/-- The tasks are the same after a promise has been made in the full loop. -/
theorem grow (h : TasksMatch N C ts ts') : TasksMatch N.grow C ts ts' where
  known ht := Nat.lt_succ_of_lt (h.known ht)
  known' := h.known'
  linked ht := Option.Rel.imp (h.linked ht) (·.mono N.le_grow ⟨id, id, id, id, id⟩)
  waiting := h.waiting
  gone := h.gone
  stray hs ht := Task.Away.mono N.le_grow ⟨id, id, id, id, id⟩ (h.stray ⟨h.known ht, hs.2⟩ ht)
  begun := h.begun

/-- A free task begins in both loops. -/
theorem pushFree (h : TasksMatch N C ts ts') {point point' : P} (hi : C.idle point point') :
    TasksMatch N.pushFree C (ts.put N.size { point }) (ts'.put N.size' { point := point' }) where
  known {t task} ht := by
    rw [Keyed.get?_put] at ht
    split at ht
    · rename_i he
      exact he ▸ Nat.lt_succ_self _
    · exact Nat.lt_succ_of_lt (h.known ht)
  known' {t task} ht := by
    rw [Keyed.get?_put] at ht
    split at ht
    · rename_i he
      exact he ▸ Nat.lt_succ_self _
    · exact Nat.lt_succ_of_lt (h.known' ht)
  linked {t t'} ht := by
    have hne : t ≠ N.size := fun he => ht.2 (.inl he)
    have hold : N.name t = some t' := (Function.update_of_ne hne ..).symm.trans ht.1
    rw [Keyed.get?_put, Keyed.get?_put, if_neg hne, if_neg (Nat.ne_of_lt (N.known hold).2)]
    exact Option.Rel.imp (h.linked ⟨hold, fun hf => ht.2 (.inr hf)⟩)
      (·.mono N.le_pushFree ⟨id, id, id, id, id⟩)
  waiting {t t'} hn hf hg := by
    by_cases he : t = N.size
    · subst he
      rw [← Option.some.inj (N.push_name.symm.trans hn), Keyed.get?_put, Keyed.get?_put, if_pos rfl,
        if_pos rfl]
      exact ⟨point, point', false, rfl, rfl, hi⟩
    · have hold : N.name t = some t' := (Function.update_of_ne he ..).symm.trans hn
      rw [Keyed.get?_put, Keyed.get?_put, if_neg he, if_neg (Nat.ne_of_lt (N.known hold).2)]
      exact h.waiting hold (hf.resolve_left he) hg
  gone {t t'} hn hg := by
    have hold : N.name t = some t' :=
      (Names.push_name_of_lt (N.free_lt (N.gone_free hg))).symm.trans hn
    rw [Keyed.get?_put, if_neg (Nat.ne_of_lt (N.known hold).2)]
    exact h.gone hold hg
  stray {t task} hs ht := by
    have hne : t ≠ N.size := by
      rintro rfl
      rcases hs.2 with hn | hg
      · cases N.push_name.symm.trans hn
      · exact Nat.lt_irrefl _ (N.free_lt (N.gone_free hg))
    rw [Keyed.get?_put, if_neg hne] at ht
    have hlt := h.known ht
    refine Task.Away.mono N.le_pushFree ⟨id, id, id, id, id⟩ (h.stray ⟨hlt, hs.2.imp_left fun hn => ?_⟩ ht)
    exact (Names.push_name_of_lt hlt).symm.trans hn
  begun {t task} hg ht := by
    rw [Keyed.get?_put, if_neg (Nat.ne_of_lt (N.free_lt (N.gone_free hg)))] at ht
    exact h.begun hg ht

/-- A linked task goes on in both loops, or has come to its end. -/
theorem set (h : TasksMatch N C ts ts') (hl : N.Links t t') {us us' : Keyed PromiseId (Task P)}
    (hus : ∀ {q}, q ≠ t → us.get? q = ts.get? q) (hus' : ∀ {q}, q ≠ t' → us'.get? q = ts'.get? q)
    (ht : Option.Rel (Task.Match N C) (us.get? t) (us'.get? t')) : TasksMatch N C us us' where
  known {q task} hq := by
    by_cases he : q = t
    · exact he ▸ (N.known hl.1).1
    · exact h.known ((hus he).symm.trans hq)
  known' {q task} hq := by
    by_cases he : q = t'
    · exact he ▸ (N.known hl.1).2
    · exact h.known' ((hus' he).symm.trans hq)
  linked {q q'} hq := by
    by_cases he : q = t
    · subst he
      rwa [← (hq.eq_iff hl).2 rfl] at ht
    · rw [hus he, hus' (he ∘ (hq.eq_iff hl).1)]
      exact h.linked hq
  waiting {q q'} hn hf hg := by
    have he : q ≠ t := fun he => hl.2 (he ▸ hf)
    rw [hus he, hus' (Names.ne_of_ne hn hl.1 he)]
    exact h.waiting hn hf hg
  gone {q q'} hn hg := by
    have he : q ≠ t := fun he => hl.2 (he ▸ N.gone_free hg)
    rw [hus' (Names.ne_of_ne hn hl.1 he)]
    exact h.gone hn hg
  stray {q task} hs hq := by
    refine h.stray hs ((hus ?_).symm.trans hq)
    rintro rfl
    exact hl.not_strays hs
  begun {q task} hg hq := by
    refine h.begun hg ((hus ?_).symm.trans hq)
    rintro rfl
    exact hl.2 (N.gone_free hg)

/-- A stray task goes on, or has come to its end. -/
theorem setStray (h : TasksMatch N C ts ts') (hs : N.Strays t) {us : Keyed PromiseId (Task P)}
    (hus : ∀ {q}, q ≠ t → us.get? q = ts.get? q)
    (ht : ∀ task, us.get? t = some task → task.Away N C ∧ (N.gone t → task.restsOn ≠ none)) :
    TasksMatch N C us ts' where
  known {q task} hq := by
    by_cases he : q = t
    · exact he ▸ hs.1
    · exact h.known ((hus he).symm.trans hq)
  known' := h.known'
  linked {q q'} hq := by
    rw [hus]
    · exact h.linked hq
    · rintro rfl
      exact hq.not_strays hs
  waiting {q q'} hn hf hg := by
    rw [hus]
    · exact h.waiting hn hf hg
    · rintro rfl
      exact hs.2.elim (fun hnone => nomatch hnone.symm.trans hn) hg
  gone := h.gone
  stray {q task} hq hg := by
    by_cases he : q = t
    · subst he
      exact (ht task hg).1
    · exact h.stray hq ((hus he).symm.trans hg)
  begun {q task} hq hg := by
    by_cases he : q = t
    · subst he
      exact (ht task hg).2 hq
    · exact h.begun hq ((hus he).symm.trans hg)

/-- A free task that has not begun is changed alike in both loops. -/
theorem setWaiting (h : TasksMatch N C ts ts') (hn : N.name t = some t') (hf : N.free t) (hg : ¬ N.gone t)
    {us us' : Keyed PromiseId (Task P)} (hus : ∀ {q}, q ≠ t → us.get? q = ts.get? q)
    (hus' : ∀ {q}, q ≠ t' → us'.get? q = ts'.get? q)
    (ht : ∃ point point' marked, us.get? t = some ⟨point, none, marked⟩ ∧
      us'.get? t' = some ⟨point', none, marked⟩ ∧ C.idle point point') : TasksMatch N C us us' where
  known {q task} hq := by
    by_cases he : q = t
    · exact he ▸ (N.known hn).1
    · exact h.known ((hus he).symm.trans hq)
  known' {q task} hq := by
    by_cases he : q = t'
    · exact he ▸ (N.known hn).2
    · exact h.known' ((hus' he).symm.trans hq)
  linked {q q'} hq := by
    have he : q ≠ t := fun he => hq.2 (he ▸ hf)
    rw [hus he, hus' (Names.ne_of_ne hq.1 hn he)]
    exact h.linked hq
  waiting {q q'} hq hfq hgq := by
    by_cases he : q = t
    · subst he
      rwa [← Option.some.inj (hn.symm.trans hq)]
    · rw [hus he, hus' (Names.ne_of_ne hq hn he)]
      exact h.waiting hq hfq hgq
  gone {q q'} hq hgq := by
    have he : q ≠ t := fun he => hg (he ▸ hgq)
    rw [hus' (Names.ne_of_ne hq hn he)]
    exact h.gone hq hgq
  stray {q task} hs hq := by
    refine h.stray hs ((hus ?_).symm.trans hq)
    rintro rfl
    exact hs.2.elim (fun hnone => nomatch hnone.symm.trans hn) hg
  begun {q task} hgq hq := by
    refine h.begun hgq ((hus ?_).symm.trans hq)
    rintro rfl
    exact hg hgq

/-- A free task has had its turn: what is left of it has come to its end. -/
theorem depart (h : TasksMatch N C ts ts') (hn : N.name t = some t') (hf : N.free t)
    {us : Keyed PromiseId (Task P)} (hus : ∀ {q}, q ≠ t → us.get? q = ts.get? q)
    (ht : ∀ task, us.get? t = some task → task.Away (N.depart t hf) C ∧ task.restsOn ≠ none) :
    TasksMatch (N.depart t hf) C us (ts'.erase t') where
  known {q task} hq := by
    by_cases he : q = t
    · exact he ▸ (N.known hn).1
    · exact h.known ((hus he).symm.trans hq)
  known' {q task} hq := by
    rw [Keyed.get?_erase] at hq
    split at hq
    · cases hq
    · exact h.known' hq
  linked {q q'} hq := by
    have he : q ≠ t := fun he => hq.2 (he ▸ hf)
    rw [hus he, Keyed.get?_erase, if_neg (Names.ne_of_ne hq.1 hn he)]
    exact Option.Rel.imp (h.linked hq) (·.mono (Names.le_depart hf) ⟨id, id, id, id, id⟩)
  waiting {q q'} hq hfq hg := by
    have he : q ≠ t := fun he => hg (.inl he)
    rw [hus he, Keyed.get?_erase, if_neg (Names.ne_of_ne hq hn he)]
    exact h.waiting hq hfq fun hgq => hg (.inr hgq)
  gone {q q'} hq hg := by
    rw [Keyed.get?_erase]
    split
    · rfl
    · rename_i he
      refine h.gone hq (hg.resolve_left ?_)
      rintro rfl
      exact he (Option.some.inj (hq.symm.trans hn))
  stray {q task} hs hq := by
    by_cases he : q = t
    · subst he
      exact (ht task hq).1
    · exact Task.Away.mono (Names.le_depart hf) ⟨id, id, id, id, id⟩
        (h.stray ⟨hs.1, hs.2.imp_right (·.resolve_left he)⟩ ((hus he).symm.trans hq))
  begun {q task} hg hq := by
    by_cases he : q = t
    · subst he
      exact (ht task hq).2
    · exact h.begun (hg.resolve_left he) ((hus he).symm.trans hq)

end TasksMatch

end Loop

end SourceTrees
