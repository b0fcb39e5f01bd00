import Mathlib.Logic.Function.Iterate
import SourceTrees.Loop

/-!
# What is left of a loop, and by which names

If some of the tasks of a loop had never been started, nor what they have started, the loop would have fewer
promises, and those that are left would go by other names.

## Protocol

* **Names** tell by which name a promise of the full loop goes in what is left of it.  A promise with a name
  is **linked** to the other one.  A promise without a name is **stray**.
* Some tasks are in both loops, but nobody asks how they end; they are **free**.  A free task has one turn
  that is had in both; when that is over it is **gone** and counts among the strays.
* Names are never changed; promises that are made later get new ones, or none.

## Results

* `Sifted` — a list, and what is left of it; `Sifted.pick` — the places of what is left.
* `Names` — the names; `Names.push`, `Names.grow`, `Names.depart` — how there come to be more.
-/

set_option autoImplicit false

namespace SourceTrees

/-! ## What is left of a list -/

/-- The second list is what is left of the first: some entries are dropped, the others are related. -/
inductive Sifted {α β : Type} (R : α → β → Prop) (D : α → Prop) : List α → List β → Prop
  | nil : Sifted R D [] []
  | keep {a : α} {b : β} {as : List α} {bs : List β} (h : R a b) (hs : Sifted R D as bs) :
      Sifted R D (a :: as) (b :: bs)
  | drop {a : α} {as : List α} {bs : List β} (h : D a) (hs : Sifted R D as bs) : Sifted R D (a :: as) bs

namespace Sifted

variable {α β α₁ β₁ : Type} {R R' : α → β → Prop} {D D' : α → Prop} {as as' : List α} {bs bs' : List β}
  {a : α} {b : β}

theorem mono (h : Sifted R D as bs) (hR : ∀ {a b}, R a b → R' a b) (hD : ∀ {a}, D a → D' a) :
    Sifted R' D' as bs := by
  induction h with
  | nil => exact .nil
  | keep h _ ih => exact .keep (hR h) ih
  | drop h _ ih => exact .drop (hD h) ih

theorem append (h : Sifted R D as bs) (h' : Sifted R D as' bs') : Sifted R D (as ++ as') (bs ++ bs') := by
  induction h with
  | nil => exact h'
  | keep h _ ih => exact .keep h ih
  | drop h _ ih => exact .drop h ih

theorem one (h : R a b) : Sifted R D [a] [b] := .keep h .nil

theorem none_left (h : ∀ a ∈ as, D a) : Sifted R D as [] := by
  induction as with
  | nil => exact .nil
  | cons a as ih =>
    exact .drop (h a List.mem_cons_self) (ih fun a' ha => h a' (List.mem_cons_of_mem a ha))

/-- What is left of the entries that something is made of. -/
theorem map {f : α → α₁} {g : β → β₁} {R₁ : α₁ → β₁ → Prop} {D₁ : α₁ → Prop} (h : Sifted R D as bs)
    (hR : ∀ {a b}, R a b → R₁ (f a) (g b)) (hD : ∀ {a}, D a → D₁ (f a)) :
    Sifted R₁ D₁ (as.map f) (bs.map g) := by
  induction h with
  | nil => exact .nil
  | keep h _ ih => exact .keep (hR h) ih
  | drop h _ ih => exact .drop (hD h) ih

theorem filter {f : α → Bool} {g : β → Bool} (h : Sifted R D as bs) (hfg : ∀ {a b}, R a b → g b = f a) :
    Sifted R D (as.filter f) (bs.filter g) := by
  induction h with
  | nil => exact .nil
  | @keep a b as bs h _ ih =>
    rw [List.filter_cons, List.filter_cons, hfg h]
    split
    · exact .keep h ih
    · exact ih
  | @drop a as bs h _ ih =>
    rw [List.filter_cons]
    split
    · exact .drop h ih
    · exact ih

/-- An entry is left in the place that its rank gives it, or it is dropped. -/
theorem pick (h : Sifted R D as bs) (kept : α → Bool) (hR : ∀ {a b}, R a b → kept a = true)
    (hD : ∀ {a}, D a → kept a = false) : ∀ {i : Nat}, as[i]? = some a →
    (kept a = true ∧ ∃ b, bs[(as.take i).countP kept]? = some b ∧ R a b ∧
        Sifted R D (as.eraseIdx i) (bs.eraseIdx ((as.take i).countP kept))) ∨
      kept a = false ∧ D a ∧ Sifted R D (as.eraseIdx i) bs := by
  induction h with
  | nil => exact fun hi => nomatch hi
  | @keep a' b' as bs h hs ih =>
    rintro (_ | i) hi
    · cases hi
      exact .inl ⟨hR h, b', rfl, h, hs⟩
    · rw [List.take_succ_cons, List.countP_cons_of_pos (hR h)]
      refine (ih hi).imp (fun ⟨hk, b, hb, hr, hrest⟩ => ⟨hk, b, hb, hr, .keep h hrest⟩)
        fun ⟨hk, hd, hrest⟩ => ⟨hk, hd, .keep h hrest⟩
  | @drop a' as bs h hs ih =>
    rintro (_ | i) hi
    · cases hi
      exact .inr ⟨hD h, h, hs⟩
    · rw [List.take_succ_cons, List.countP_cons_of_neg (by simp [hD h])]
      refine (ih hi).imp (fun ⟨hk, b, hb, hr, hrest⟩ => ⟨hk, b, hb, hr, .drop h hrest⟩)
        fun ⟨hk, hd, hrest⟩ => ⟨hk, hd, .drop h hrest⟩

end Sifted

/-! ## Names -/

/-- By which names promises go in what is left, which of them are free and gone, and how many promises there
    are in both loops. -/
structure Names where
  name : PromiseId → Option PromiseId
  free : PromiseId → Prop
  gone : PromiseId → Prop
  size : Nat
  size' : Nat
  known : ∀ {p p'}, name p = some p' → p < size ∧ p' < size'
  injective : ∀ {p q p'}, name p = some p' → name q = some p' → p = q
  free_lt : ∀ {p}, free p → p < size
  gone_free : ∀ {p}, gone p → free p

namespace Names

variable {N : Names} {p p' q q' : PromiseId}

/-- The promise is linked to one that is left. -/
def Links (N : Names) (p p' : PromiseId) : Prop := N.name p = some p' ∧ ¬ N.free p

/-- Nothing is left of the promise. -/
def Unnamed (N : Names) (p : PromiseId) : Prop := p < N.size ∧ N.name p = none

/-- Nothing is left of the promise, or nobody looks at what is. -/
def Strays (N : Names) (p : PromiseId) : Prop := p < N.size ∧ (N.name p = none ∨ N.gone p)

theorem Unnamed.strays (h : N.Unnamed p) : N.Strays p := ⟨h.1, .inl h.2⟩

theorem Links.not_strays (h : N.Links p p') : ¬ N.Strays p := by
  rintro ⟨-, hn | hg⟩
  · rw [h.1] at hn
    cases hn
  · exact h.2 (N.gone_free hg)

theorem Links.eq_iff (h : N.Links p p') (h' : N.Links q q') : p' = q' ↔ p = q :=
  ⟨fun he => N.injective h.1 (he ▸ h'.1), fun he => Option.some.inj (h.1.symm.trans (he ▸ h'.1))⟩

theorem ne_of_ne (h : N.name p = some p') (h' : N.name q = some q') (hne : p ≠ q) : p' ≠ q' := fun he =>
  hne (N.injective h (he ▸ h'))

theorem name_of_le (h : N.size ≤ p) : N.name p = none := by
  cases hn : N.name p with
  | none => rfl
  | some p' => exact absurd (N.known hn).1 (Nat.not_lt.2 h)

/-- A promise is made in both loops. -/
def push (N : Names) : Names where
  name := Function.update N.name N.size (some N.size')
  free := N.free
  gone := N.gone
  size := N.size + 1
  size' := N.size' + 1
  known {p p'} h := by
    rw [Function.update_apply] at h
    split at h
    · cases h
      subst p
      exact ⟨Nat.lt_succ_self _, Nat.lt_succ_self _⟩
    · exact (N.known h).imp Nat.lt_succ_of_lt Nat.lt_succ_of_lt
  injective {p q p'} h h' := by
    rw [Function.update_apply] at h h'
    split at h <;> split at h'
    · exact ‹p = _›.trans ‹q = _›.symm
    · cases h
      exact absurd (N.known h').2 (Nat.lt_irrefl _)
    · cases h'
      exact absurd (N.known h).2 (Nat.lt_irrefl _)
    · exact N.injective h h'
  free_lt h := Nat.lt_succ_of_lt (N.free_lt h)
  gone_free := N.gone_free

/-- A promise is made in the full loop only. -/
def grow (N : Names) : Names where
  name := N.name
  free := N.free
  gone := N.gone
  size := N.size + 1
  size' := N.size'
  known h := ⟨Nat.lt_succ_of_lt (N.known h).1, (N.known h).2⟩
  injective := N.injective
  free_lt h := Nat.lt_succ_of_lt (N.free_lt h)
  gone_free := N.gone_free

/-- The newest promise is free. -/
def pushFree (N : Names) : Names where
  name := N.push.name
  free p := p = N.size ∨ N.free p
  gone := N.gone
  size := N.size + 1
  size' := N.size' + 1
  known := N.push.known
  injective := N.push.injective
  free_lt h := h.elim (fun he => he ▸ Nat.lt_succ_self _) fun h => Nat.lt_succ_of_lt (N.free_lt h)
  gone_free h := .inr (N.gone_free h)

/-- A free task has had its turn. -/
def depart (N : Names) (t : PromiseId) (ht : N.free t) : Names where
  name := N.name
  free := N.free
  gone p := p = t ∨ N.gone p
  size := N.size
  size' := N.size'
  known := N.known
  injective := N.injective
  free_lt := N.free_lt
  gone_free h := h.elim (fun he => he ▸ ht) N.gone_free

/-- The promises keep their names, and strays stay what they are. -/
structure Le (N N₁ : Names) : Prop where
  links : ∀ {p p'}, N.Links p p' → N₁.Links p p'
  name : ∀ {p p'}, N.name p = some p' → N₁.name p = some p'
  none : ∀ {p}, p < N.size → N.name p = none → N₁.name p = none
  gone : ∀ {p}, N.gone p → N₁.gone p
  size : N.size ≤ N₁.size

theorem Le.refl (N : Names) : N.Le N := ⟨id, id, fun _ => id, id, Nat.le_refl _⟩

theorem Le.trans {N₁ N₂ : Names} (h : N.Le N₁) (h' : N₁.Le N₂) : N.Le N₂ where
  links hp := h'.links (h.links hp)
  name hp := h'.name (h.name hp)
  none hlt hp := h'.none (Nat.lt_of_lt_of_le hlt h.size) (h.none hlt hp)
  gone hp := h'.gone (h.gone hp)
  size := Nat.le_trans h.size h'.size

theorem Le.unnamed {N₁ : Names} (h : N.Le N₁) (hp : N.Unnamed p) : N₁.Unnamed p :=
  ⟨Nat.lt_of_lt_of_le hp.1 h.size, h.none hp.1 hp.2⟩

theorem Le.strays {N₁ : Names} (h : N.Le N₁) (hp : N.Strays p) : N₁.Strays p :=
  ⟨Nat.lt_of_lt_of_le hp.1 h.size, hp.2.imp (h.none hp.1) h.gone⟩

theorem push_name (N : Names) : N.push.name N.size = some N.size' := Function.update_self ..

theorem push_name_of_lt (h : p < N.size) : N.push.name p = N.name p := Function.update_of_ne (Nat.ne_of_lt h) ..

theorem push_links (N : Names) : N.push.Links N.size N.size' :=
  ⟨N.push_name, fun h => Nat.lt_irrefl _ (N.free_lt h)⟩

theorem le_push (N : Names) : N.Le N.push where
  links hp := ⟨(push_name_of_lt (N.known hp.1).1).trans hp.1, hp.2⟩
  name hp := (push_name_of_lt (N.known hp).1).trans hp
  none hlt hp := (push_name_of_lt hlt).trans hp
  gone := id
  size := Nat.le_succ _

theorem le_pushFree (N : Names) : N.Le N.pushFree where
  links hp := ⟨(push_name_of_lt (N.known hp.1).1).trans hp.1,
    fun h => h.elim (Nat.ne_of_lt (N.known hp.1).1) hp.2⟩
  name hp := (push_name_of_lt (N.known hp).1).trans hp
  none hlt hp := (push_name_of_lt hlt).trans hp
  gone := id
  size := Nat.le_succ _

theorem le_grow (N : Names) : N.Le N.grow := ⟨id, id, fun _ => id, id, Nat.le_succ _⟩

theorem grow_unnamed (N : Names) : N.grow.Unnamed N.size :=
  ⟨Nat.lt_succ_self _, show N.name N.size = none from name_of_le (Nat.le_refl _)⟩

/-- Promises are made one after the other, in both loops or in the full one only. -/
def extend : Names → List Bool → Names
  | N, [] => N
  | N, true :: made => N.push.extend made
  | N, false :: made => N.grow.extend made

theorem le_extend : ∀ (made : List Bool) (N : Names), N.Le (N.extend made)
  | [], N => .refl N
  | true :: made, N => N.le_push.trans (le_extend made _)
  | false :: made, N => N.le_grow.trans (le_extend made _)

theorem extend_append (made made' : List Bool) : ∀ N : Names,
    N.extend (made ++ made') = (N.extend made).extend made' := by
  induction made with
  | nil => exact fun _ => rfl
  | cons b made ih => cases b <;> exact fun N => ih _

theorem size_extend (made : List Bool) : ∀ N : Names, (N.extend made).size = N.size + made.length := by
  induction made with
  | nil => exact fun _ => rfl
  | cons b made ih =>
    intro N
    rw [List.length_cons, ← Nat.add_assoc, Nat.add_right_comm]
    cases b <;> exact ih _

theorem free_extend (made : List Bool) : ∀ {N : Names}, (N.extend made).free p ↔ N.free p := by
  induction made with
  | nil => exact Iff.rfl
  | cons b made ih => cases b <;> exact ih

theorem iterate_push (m : ℕ) : ∀ N : Names, push^[m] N = N.extend (List.replicate m true) := by
  induction m with
  | zero => exact fun _ => rfl
  | succ m ih => exact fun N => ih N.push

theorem iterate_grow (m : ℕ) : ∀ N : Names, grow^[m] N = N.extend (List.replicate m false) := by
  induction m with
  | zero => exact fun _ => rfl
  | succ m ih => exact fun N => ih N.grow

theorem le_depart {t : PromiseId} (ht : N.free t) : N.Le (N.depart t ht) :=
  ⟨id, id, fun _ => id, .inr, Nat.le_refl _⟩

end Names

end SourceTrees
