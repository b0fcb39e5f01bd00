import SourceTrees.Proofs.Engine.Worlds

/-!
# Worlds in which importing is fixed

If every module goes on importing as it does, then whether a module can be imported, and with which fault it
cannot, is the same whenever it is asked, whatever is done in the world in between.

## Results

* `World.ImportsConstantly` — importing a module ends alike however often it is tried.
* `World.SameImports` — the worlds in which imports end as in a given one.
* `World.SameImports.kept` — whatever is done in such a world leads to another one.
* `Attempt.Steady` — an attempt ends alike in all worlds of a kind.
* `Attempt.steady_importModule` — so does importing a module in worlds with the same imports.
-/

set_option autoImplicit false

namespace SourceTrees

open Attempt

/-- The script answers every call alike. -/
def Script.Constant {α : Type} (s : Script α) : Prop := ∀ o ∈ s.outcomes, ∀ o' ∈ s.outcomes, o = o'

/-- A script that answers every call alike goes on doing so. -/
theorem Script.Constant.next {α : Type} {s : Script α} (h : s.Constant) (d : α) :
    (s.next d).2.Constant ∧ ((s.next d).2.next d).1 = (s.next d).1 := by
  obtain ⟨outcomes⟩ := s
  refine ⟨fun o ho o' ho' => h o ((Script.mem_next _ d).2 o ho) o' ((Script.mem_next _ d).2 o' ho'), ?_⟩
  cases outcomes with
  | nil => rfl
  | cons o rest =>
    cases rest with
    | nil => rfl
    | cons o' rest =>
      have he : o' = o := h o' (by simp) o (by simp)
      cases rest with
      | nil => exact he
      | cons o'' rest => exact he

/-- The script has one outcome at most. -/
theorem Script.Constant.of_length {α : Type} {s : Script α} (h : s.outcomes.length ≤ 1) : s.Constant := by
  intro o ho o' ho'
  obtain ⟨i, hi, rfl⟩ := List.getElem_of_mem ho
  obtain ⟨j, hj, rfl⟩ := List.getElem_of_mem ho'
  congr 1
  omega

/-- How importing the module ends. -/
def Module.importing (m : Module) : Option Fault :=
  if m.isImported then none else (m.imports.next none).1

namespace World

variable {w w₀ w' : World} {owner key name : String} {x : Member}

/-! ## Changing a member -/

theorem get?_setMember (owner key : String) (x : Member) (name : String) :
    (w.setMember owner key x).modules.get? name =
      if name = owner then
        (w.modules.get? owner).map fun m => { m with members := m.members.put key x }
      else w.modules.get? name := by
  show (w.modules.adjust owner _).get? name = _
  cases hm : w.modules.get? owner with
  | none =>
    rw [Keyed.adjust, hm]
    dsimp only
    split
    · rename_i he
      rw [he, hm]
      rfl
    · rfl
  | some m =>
    rw [Keyed.adjust, hm]
    exact Keyed.get?_put ..

theorem contains_setMember (owner key : String) (x : Member) (name : String) :
    (w.setMember owner key x).modules.contains name = w.modules.contains name := by
  unfold Keyed.contains
  rw [get?_setMember]
  split
  · rename_i he
    rw [he, Option.isSome_map]
  · rfl

/-- Whether modules lie in a module is told by the names of modules alone. -/
theorem isPackage_congr (h : ∀ name, w'.modules.contains name = w.modules.contains name) (name : String) :
    w'.isPackage name = w.isPackage name := by
  have hkeys : ∀ k, k ∈ w'.modules.keys ↔ k ∈ w.modules.keys := fun k => by
    rw [← Keyed.contains_iff, ← Keyed.contains_iff, h]
  rw [Bool.eq_iff_iff, isPackage, isPackage, List.any_eq_true, List.any_eq_true]
  exact ⟨fun ⟨k, hk, hp⟩ => ⟨k, (hkeys k).1 hk, hp⟩, fun ⟨k, hk, hp⟩ => ⟨k, (hkeys k).2 hk, hp⟩⟩

theorem missing_congr (h : ∀ name, w'.modules.contains name = w.modules.contains name) (name : String) :
    w'.missing name = w.missing name := by
  unfold missing
  cases Module.parent? name with
  | none => rfl
  | some outer =>
    dsimp only
    rw [isPackage_congr h]

/-! ## The same imports -/

/-- However often a module is imported that cannot be, it ends alike. -/
def ImportsConstantly (w : World) : Prop :=
  ∀ {name m}, w.modules.get? name = some m → m.imports.Constant

/-- The modules that are there are the same, and importing them ends as in the first world. -/
structure SameImports (w₀ w : World) : Prop where
  contains : ∀ name, w.modules.contains name = w₀.modules.contains name
  imports : ∀ {name m m₀}, w.modules.get? name = some m → w₀.modules.get? name = some m₀ →
    m.imports.Constant ∧ m.importing = m₀.importing

namespace SameImports

theorem refl (h : w.ImportsConstantly) : SameImports w w where
  contains _ := rfl
  imports h₁ h₂ := by
    cases h₁.symm.trans h₂
    exact ⟨h h₁, rfl⟩

/-- Where the modules are the same, so are the imports. -/
theorem congr (h : SameImports w₀ w) (hm : w'.modules = w.modules) : SameImports w₀ w' where
  contains name := by rw [hm, h.contains]
  imports hg := h.imports (hm ▸ hg)

/-- Members do not matter to imports. -/
theorem setMember (h : SameImports w₀ w) (owner key : String) (x : Member) :
    SameImports w₀ (w.setMember owner key x) where
  contains name := by rw [contains_setMember, h.contains]
  imports {name m m₀} hg hg₀ := by
    rw [get?_setMember] at hg
    split at hg
    · rename_i he
      obtain ⟨m', hm', rfl⟩ := Option.map_eq_some_iff.1 hg
      exact h.imports (m := m') (he ▸ hm') hg₀
    · exact h.imports hg hg₀

/-- A module that is there is put in its own place. -/
theorem contains_put {m m' : Module} (hg : w.modules.get? name = some m) (name' : String) :
    (w.modules.put name m').contains name' = w.modules.contains name' := by
  unfold Keyed.contains
  rw [Keyed.get?_put]
  split
  · rename_i he
    rw [he, hg]
    rfl
  · rfl

/-- An import that has ended goes on ending so. -/
theorem imported (h : SameImports w₀ w) {m : Module} (hg : w.modules.get? name = some m)
    (hfresh : m.isImported = false) :
    SameImports w₀ { w with modules := w.modules.put name { m with
      imports := (m.imports.next none).2
      isImported := (m.imports.next none).1.isNone } } where
  contains name' := (contains_put hg name').trans (h.contains name')
  imports {name' m' m₀} hg' hg₀ := by
    replace hg' : (w.modules.put name _).get? name' = some m' := hg'
    rw [Keyed.get?_put] at hg'
    split at hg'
    · rename_i he
      subst he
      cases hg'
      obtain ⟨hconstant, hsame⟩ := h.imports hg hg₀
      refine ⟨(hconstant.next none).1, ?_⟩
      rw [← hsame, Module.importing, Module.importing, hfresh, (hconstant.next none).2]
      cases (m.imports.next none).1 <;> rfl
    · exact h.imports hg' hg₀

/-- Whatever is done in a world leads to one with the same imports. -/
theorem kept : KeptByWork (fun _ => True) (fun _ => True) (SameImports w₀) where
  ordinary _ := trivial
  noted _ h := h.congr rfl
  imported h hg hfresh := h.imported hg hfresh
  raised _ _ _ _ := trivial
  placed h _ _ := h.setMember ..
  raising _ _ := trivial
  compiled h _ := h.setMember ..
  answered _ _ := by split <;> simp
  added _ h := h.congr rfl
  parsed h _ := h.congr rfl
  bound _ _ := (KeptByBinding.meets_bindParser (F := fun _ => True)
    { ordinary := fun _ => trivial
      noted := fun _ h => h.congr rfl
      asked := fun h _ => h.setMember ..
      added := fun _ h => h.congr rfl
      rebound := fun _ _ h => h.congr rfl
      raising := fun _ _ => trivial
      answered := fun _ _ _ => trivial
      bare := fun _ _ _ => trivial }).mono (fun _ => id) (fun _ _ => id) fun _ _ h => h.2

end SameImports

end World

namespace Attempt

/-! ## Attempts that end alike -/

variable {α β : Type} {P : World → Prop} {w₀ : World} {F : Fault → Prop}

/-- From all worlds of the kind the attempt ends in the same way, in a world of the kind. -/
def Steady (P : World → Prop) (a : Attempt α) : Prop :=
  ∃ r : Except Fault α, Meets P a (fun x w => r = .ok x ∧ P w) fun f w => r = .error f ∧ P w

namespace Steady

theorem pure (x : α) : Steady P (Pure.pure x) := ⟨.ok x, .pure fun _ hw => ⟨rfl, hw⟩⟩

/-- What is tried after something steady may start from its value. -/
theorem exists_bind {γ : Type} {a : Attempt α} {f : α → Attempt β}
    {Q : Except Fault γ → β → World → Prop} {S : World → Prop} (h : Steady P a)
    (hS : ∀ w, P w → S w)
    (hf : ∀ x, ∃ r, Meets P (f x) (Q r) fun e w => r = .error e ∧ S w) :
    ∃ r, Meets P (a >>= f) (Q r) fun e w => r = .error e ∧ S w := by
  obtain ⟨r, hr⟩ := h
  cases r with
  | error e =>
    refine ⟨.error e, .bind (R := fun _ _ => False) ?_ fun x w hw => hw.elim⟩
    exact hr.mono (fun _ => id) (fun _ _ hx => by cases hx.1) fun _ _ hx => by
      cases hx.1
      exact ⟨rfl, hS _ hx.2⟩
  | ok x =>
    obtain ⟨r', hr'⟩ := hf x
    refine ⟨r', .bind (R := fun y w => y = x ∧ P w) ?_ fun y w hw => ?_⟩
    · exact hr.mono (fun _ => id) (fun _ _ hx => by
        cases hx.1
        exact ⟨rfl, hx.2⟩) fun _ _ hx => by cases hx.1
    · obtain ⟨rfl, hw⟩ := hw
      exact hr' w hw

theorem bind {a : Attempt α} {f : α → Attempt β} (h : Steady P a) (hf : ∀ x, Steady P (f x)) :
    Steady P (a >>= f) :=
  exists_bind (Q := fun r y w => r = .ok y ∧ P w) h (fun _ => id) hf

theorem forM {f : β → Attempt PUnit} : ∀ xs : List β, (∀ x ∈ xs, Steady P (f x)) → Steady P (xs.forM f)
  | [], _ => pure _
  | x :: xs, h => bind (h x List.mem_cons_self) fun _ =>
      forM xs fun y hy => h y (List.mem_cons_of_mem _ hy)

theorem ite {p : Prop} [Decidable p] {a b : Attempt α} (ha : p → Steady P a) (hb : ¬ p → Steady P b) :
    Steady P (if p then a else b) := by
  split
  · exact ha ‹_›
  · exact hb ‹_›

/-- What comes after a fault does not matter. -/
theorem throwBind {f : Fault} {g : α → Attempt β} : Steady P (MonadExcept.throw f >>= g) :=
  ⟨.error f, .throwBind fun _ hw => ⟨rfl, hw⟩⟩

/-- How it ends and where it leads to may be looked at one after the other. -/
theorem of_meets {a : Attempt α} {r : Except Fault α}
    (h : Meets P a (fun x _ => r = .ok x) fun f _ => r = .error f)
    (hk : Meets P a (fun _ => P) fun _ => P) : Steady P a :=
  ⟨r, h.and hk⟩

end Steady

theorem steady_importOne (hl : ∀ {w}, P w → w₀.SameImports w)
    (hk : KeptByImports (fun _ => True) F P) (name : String) :
    Steady P (importOne name) := by
  have hkeeps : Meets P (importOne name) (fun _ => P) fun _ => P :=
    (meets_importOne hk trivial).mono (fun _ => id) (fun _ _ => id) fun _ _ h => h.2
  refine .of_meets (r := (w₀.modules.get? name).elim (.error (w₀.missing name)) fun m =>
    m.importing.elim (.ok ()) .error) (.bind .get fun w => ?_) hkeeps
  -- The module is there in the one world if it is there in the other.
  have hthere : P w → (w.modules.get? name).isSome = (w₀.modules.get? name).isSome := fun hw =>
    (hl hw).contains name
  cases hm : w.modules.get? name with
  | none =>
    refine .throw fun w' hw => ?_
    have hw' : P w := hw.1 ▸ hw.2
    have hnone : w₀.modules.get? name = none := by
      have he := hthere hw'
      rw [hm] at he
      exact Option.isNone_iff_eq_none.1 (by simpa using he.symm)
    have hmissing := World.missing_congr (hl hw').contains name
    simp only [hnone, hmissing, Option.elim_none]
  | some m =>
    have himports : P w → ∃ m₀, w₀.modules.get? name = some m₀ ∧ m.importing = m₀.importing := fun hw => by
      have hw' := hthere hw
      rw [hm] at hw'
      obtain ⟨m₀, hm₀⟩ := Option.isSome_iff_exists.1 hw'.symm
      exact ⟨m₀, hm₀, ((hl hw).imports hm hm₀).2⟩
    refine .ite (fun hdone => .pure fun w' hw => ?_) fun hfresh => ?_
    · have hw' : P w := hw.1 ▸ hw.2
      obtain ⟨m₀, hm₀, he⟩ := himports hw'
      have hnone : m₀.importing = none := by rw [← he, Module.importing, if_pos hdone]
      simp only [hm₀, hnone, Option.elim_some, Option.elim_none]
    · have hends : P w → ∀ o i, m.imports.next none = (o, i) → ∃ m₀, w₀.modules.get? name = some m₀ ∧
          m₀.importing = o := fun hw o i hx => by
        obtain ⟨m₀, hm₀, he⟩ := himports hw
        refine ⟨m₀, hm₀, ?_⟩
        rw [← he, Module.importing, if_neg hfresh, hx]
      revert hends
      generalize m.imports.next none = x
      intro hends
      obtain ⟨o, i⟩ := x
      refine .bind (R := fun _ _ => P w) (.set fun w' hw => hw.1 ▸ hw.2) fun _ => ?_
      cases o with
      | none =>
        refine .modify fun _ hw => ?_
        obtain ⟨m₀, hm₀, he⟩ := hends hw _ _ rfl
        simp only [hm₀, he, Option.elim_some, Option.elim_none]
      | some f =>
        refine .throw fun _ hw => ?_
        obtain ⟨m₀, hm₀, he⟩ := hends hw _ _ rfl
        simp only [hm₀, he, Option.elim_some]

theorem steady_importModule (hl : ∀ {w}, P w → w₀.SameImports w)
    (hk : KeptByImports (fun _ => True) F P) (name : String) :
    Steady P (importModule name) :=
  .ite (fun _ => .throwBind) fun _ => .ite (fun _ => .throwBind) fun _ =>
    .forM _ fun n _ => steady_importOne hl hk n

end Attempt

end SourceTrees
