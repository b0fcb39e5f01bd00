import SourceTrees.Config.Basic
import SourceTrees.Proofs.Engine.Importing

/-!
# Worlds in which everything is fixed

If imports, pointer functions, the grammar compiler, the parser maker and the parsers answer every call
alike, then they go on doing so, whatever is done in the world and in whatever order.

## Protocol

* What is **called** is what the configuration names: the parts of its engine, and the functions of its
  locators.  A module that is imported comes in the place of whatever goes by its name in the module
  that it lies in; that must be nothing that is called.

## Results

* `World.Fixed` — the world answers every call alike, with ordinary faults and no null grammar.
* `World.Like` — the worlds that answer as a given one does.
* **`World.Like.kept`** — whatever is done in such a world leads to another one.
-/

set_option autoImplicit false

namespace SourceTrees

open Attempt

/-! ## What is fixed -/

/-- The member answers every call alike. -/
def Member.Constant : Member → Prop
  | .compiler script => script.Constant
  | .maker script _ => script.Constant
  | _ => True

/-- The member's script has one outcome at most. -/
def Member.isScriptedOnce : Member → Bool
  | .compiler script => script.outcomes.length ≤ 1
  | .maker script _ => script.outcomes.length ≤ 1
  | _ => true

theorem Member.Constant.of_isScriptedOnce {m : Member} (h : m.isScriptedOnce = true) : m.Constant := by
  cases m with
  | compiler script => exact .of_length (of_decide_eq_true h)
  | maker script last => exact .of_length (of_decide_eq_true h)
  | _ => trivial

/-- What a member answers, whatever it has been asked before. -/
def Member.answer : Member → Member
  | .compiler script => .compiler ⟨[(script.next .grammar).1]⟩
  | .maker script _ => .maker ⟨[(script.next .parser).1]⟩ .parser
  | m => m

/-- What is called on behalf of a configuration. -/
def Config.Calls (c : Config) (owner name : String) : Prop :=
  owner = c.engineModule ∧ name ∈ engineParts ∨ ∃ language locator l,
    c.locators.get? language = some locator ∧ Language.Locator.parse? locator = some l ∧
      owner = l.moduleName ∧ name = l.entry

namespace World

/-- Every module, every member and every source answers alike whenever it is asked; faults are ordinary,
    and no grammar is null. -/
structure Fixed (c : Config) (w : World) : Prop where
  imports : ∀ {name m}, w.modules.get? name = some m → m.imports.Constant
  members : ∀ {name m key x}, w.modules.get? name = some m → m.members.get? key = some x → x.Constant
  parses : ∀ {source script}, w.parses.get? source = some script → script.Constant
  raises : w.RaisesWell
  fetches : w.FetchesWell
  /-- No module comes in the place of something that is called. -/
  apart : ∀ {name outer}, w.modules.contains name = true → Module.parent? name = some outer →
    ¬ c.Calls outer (Module.ownName name)

/-- A world is fixed in which every script has one outcome and no module lies in another one. -/
theorem Fixed.of_entries {c : Config} {w : World}
    (hm : ∀ e ∈ w.modules.entries, e.2.imports.outcomes.length ≤ 1 ∧ Module.parent? e.1 = none ∧
      ∀ x ∈ e.2.members.entries, x.2.isScriptedOnce = true)
    (hp : ∀ e ∈ w.parses.entries, e.2.outcomes.length ≤ 1) (hr : w.RaisesWell) (hf : w.FetchesWell) :
    w.Fixed c where
  imports hg := .of_length (hm _ (Keyed.mem_of_lookIn hg)).1
  members hg hx := .of_isScriptedOnce ((hm _ (Keyed.mem_of_lookIn hg)).2.2 _ (Keyed.mem_of_lookIn hx))
  parses hg := .of_length (hp _ (Keyed.mem_of_lookIn hg))
  raises := hr
  fetches := hf
  apart {name outer} hcontains hparent := by
    obtain ⟨m, hg⟩ := Option.isSome_iff_exists.1 hcontains
    rw [(hm _ (Keyed.mem_of_lookIn hg)).2.1] at hparent
    cases hparent

/-- The world answers as the first one does, as far as it is called. -/
structure Like (C : String → String → Prop) (w₀ w : World) : Prop extends SameImports w₀ w where
  members : w.Holds (fun _ => False) Member.Constant
  calls : ∀ {owner name}, C owner name →
    (w.member? owner name).map Member.answer = (w₀.member? owner name).map Member.answer
  parses : ∀ source, (w.parses.get? source).map (fun script => (script.next .none).1) =
    (w₀.parses.get? source).map fun script => (script.next .none).1
  answers : ∀ {source script}, w.parses.get? source = some script → script.Constant

/-! ## Changing a member -/

variable {w w₀ w' : World} {owner key name : String} {x : Member} {C : String → String → Prop}

theorem commonMember?_congr (h : ∀ name, w'.modules.contains name = w.modules.contains name)
    (owner name : String) : w'.commonMember? owner name = w.commonMember? owner name := by
  unfold commonMember?
  rw [isPackage_congr h]

/-- A module with other imports has the same members. -/
theorem member?_congr (h : ∀ name, w'.modules.contains name = w.modules.contains name)
    (hm : (w'.modules.get? owner).map (·.members) = (w.modules.get? owner).map (·.members)) (key : String) :
    w'.member? owner key = w.member? owner key := by
  unfold member?
  rw [commonMember?_congr h]
  cases hg : w.modules.get? owner with
  | none =>
    rw [hg, Option.map_none, Option.map_eq_none_iff] at hm
    rw [hm]
  | some m =>
    rw [hg, Option.map_some, Option.map_eq_some_iff] at hm
    obtain ⟨m', hg', he⟩ := hm
    rw [hg', Option.bind_some, Option.bind_some, he]

theorem member?_setMember (owner key : String) (x : Member) (owner' key' : String) :
    (w.setMember owner key x).member? owner' key' =
      if owner' = owner ∧ key' = key ∧ w.modules.contains owner = true then some x
      else w.member? owner' key' := by
  have hc := fun name => contains_setMember (w := w) owner key x name
  unfold member?
  rw [commonMember?_congr hc, get?_setMember]
  by_cases ho : owner' = owner
  · subst ho
    rw [if_pos rfl]
    unfold Keyed.contains
    cases hm : w.modules.get? owner' with
    | none => simp
    | some m =>
      by_cases hk : key' = key
      · simp [hk]
      · simp [hk]
  · simp [ho]

/-- A member that there is lies in a module that there is. -/
theorem contains_of_member? (h : w.member? owner key = some x) : w.modules.contains owner = true := by
  unfold member? at h
  obtain ⟨m, hm, _⟩ := Option.bind_eq_some_iff.1 h
  rw [Keyed.contains, hm]
  rfl

namespace Like

theorem refl {c : Config} (h : w.Fixed c) : Like C w w where
  toSameImports := .refl h.imports
  members _ _ hg := ⟨False.elim, fun _ _ hx => h.members hg hx⟩
  calls _ := rfl
  parses _ := rfl
  answers := h.parses

/-- What is noted, and what is compiled or made, makes no difference. -/
theorem congr (h : Like C w₀ w) (hm : w'.modules = w.modules) (hp : w'.parses = w.parses) :
    Like C w₀ w' where
  toSameImports := h.toSameImports.congr hm
  members := h.members.congr hm
  calls {owner name} hc := by
    rw [← h.calls hc]
    exact congrArg _ (member?_congr (fun _ => by rw [hm]) (by rw [hm]) name)
  parses source := by rw [hp, h.parses]
  answers hs := h.answers (hp ▸ hs)

/-- Another member in the place of one makes no difference that is not called or answers the same. -/
theorem setMember (h : Like C w₀ w) (hx : x.Constant)
    (hsame : C owner key → (w.member? owner key).map Member.answer = some x.answer) :
    Like C w₀ (w.setMember owner key x) where
  toSameImports := h.toSameImports.setMember ..
  members := h.members.setMember hx owner key
  calls {owner' name} hc := by
    rw [← h.calls hc, member?_setMember]
    split
    · rename_i he
      obtain ⟨rfl, rfl, _⟩ := he
      rw [hsame hc]
      rfl
    · rfl
  parses := h.parses
  answers := h.answers

/-- An import that has ended goes on ending so. -/
theorem imported (h : Like C w₀ w) {m : Module} (hg : w.modules.get? name = some m)
    (hfresh : m.isImported = false) :
    Like C w₀ { w with modules := w.modules.put name { m with
      imports := (m.imports.next none).2
      isImported := (m.imports.next none).1.isNone } } := by
  refine ⟨h.toSameImports.imported hg hfresh, ?_, fun {owner key} hc => ?_, h.parses, h.answers⟩
  · have hmembers : ∀ key x, m.members.get? key = some x → x.Constant := (h.members name m hg).2
    have hno : False → Module.ImportsWell { m with
        imports := (m.imports.next none).2
        isImported := (m.imports.next none).1.isNone } := False.elim
    exact h.members.put hno hmembers rfl
  · rw [← h.calls hc]
    refine congrArg _ (member?_congr (SameImports.contains_put hg) ?_ key)
    show ((w.modules.put name _).get? owner).map _ = _
    rw [Keyed.get?_put]
    split
    · rename_i he
      rw [he, hg]
      rfl
    · rfl

/-- The members that are called go on answering as they have answered. -/
theorem compiled (h : Like C w₀ w) {engine : String} {script : Script CompileOutcome}
    (hm : w.member? engine compilerName = some (.compiler script)) :
    Like C w₀ (w.setMember engine compilerName (.compiler (script.next .grammar).2)) := by
  have hc : Member.Constant (.compiler script) := h.members.member hm (by simp)
  refine h.setMember (Script.Constant.next hc .grammar).1 fun _ => ?_
  rw [hm, Option.map_some, Member.answer, Member.answer, (Script.Constant.next hc .grammar).2]

theorem asked (h : Like C w₀ w) {engine : String} {script : Script BindOutcome} {last : BindOutcome}
    (hm : w.member? engine makerName = some (.maker script last)) :
    Like C w₀ (w.setMember engine makerName
      (.maker (script.next .parser).2 (script.next .parser).1)) := by
  have hc : Member.Constant (.maker script last) := h.members.member hm (by simp)
  refine h.setMember (Script.Constant.next hc .parser).1 fun _ => ?_
  rw [hm, Option.map_some, Member.answer, Member.answer, (Script.Constant.next hc .parser).2]

theorem parsed (h : Like C w₀ w) {source : List UInt8} {script : Script ParseOutcome}
    (hs : w.parses.get? source = some script) :
    Like C w₀ { w with parses := w.parses.put source (script.next .none).2 } := by
  have hc := (h.answers hs).next .none
  refine ⟨h.toSameImports.congr rfl, h.members.congr rfl, fun hcall => ?_, fun source' => ?_,
    fun {source' script'} hs' => ?_⟩
  · rw [← h.calls hcall]
    rfl
  · rw [← h.parses]
    show ((w.parses.put source _).get? source').map _ = _
    rw [Keyed.get?_put]
    split
    · rename_i he
      rw [he, hs, Option.map_some, Option.map_some, hc.2]
    · rfl
  · replace hs' : (w.parses.put source (script.next .none).2).get? source' = some script' := hs'
    rw [Keyed.get?_put] at hs'
    split at hs'
    · cases hs'
      exact hc.1
    · exact h.answers hs'

/-- **Whatever is done in a world leads to one that answers as it does.** -/
theorem kept (hapart : ∀ {name outer}, w₀.modules.contains name = true →
      Module.parent? name = some outer → ¬ C outer (Module.ownName name)) :
    KeptByWork (fun _ => True) (fun _ => True) (Like C w₀) where
  ordinary _ := trivial
  noted _ h := h.congr rfl rfl
  imported h hg hfresh := h.imported hg hfresh
  raised _ _ _ _ := trivial
  placed h hc hp := h.setMember trivial fun hcall => absurd hcall (hapart (h.contains _ ▸ hc) hp)
  raising _ _ := trivial
  compiled h hm := h.compiled hm
  answered _ _ := by split <;> simp
  added _ h := h.congr rfl rfl
  parsed h hs := h.parsed hs
  bound _ _ := (KeptByBinding.meets_bindParser (F := fun _ => True)
    { ordinary := fun _ => trivial
      noted := fun _ h => h.congr rfl rfl
      asked := fun h hm => h.asked hm
      added := fun _ h => h.congr rfl rfl
      rebound := fun _ _ h => h.congr rfl rfl
      raising := fun _ _ => trivial
      answered := fun _ _ _ => trivial
      bare := fun _ _ _ => trivial }).mono (fun _ => id) (fun _ _ => id) fun _ _ h => h.2

end Like

end World

end SourceTrees
