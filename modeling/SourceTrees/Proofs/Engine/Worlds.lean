import SourceTrees.Proofs.Engine.Attempts

/-!
# Worlds in which only faults occur

An interrupt, or a cancellation that a module makes up, is no fault that may be caught.  A world has none
if its scripts have none; then no attempt of an engine ends with one.

## Results

* `World.ImportsWell` — imports succeed or raise ordinary faults; then so does loading an engine.
* `World.FetchesWell` — the same of pointers and compilers, which besides give no null grammar; then so
  does fetching, and what it gives is a grammar.
* `World.RaisesWell` — everything that can raise a fault raises ordinary ones, null grammars being
  allowed; then so do fetching, making parsers and parsing.
* `World.ImportsWell.kept`, `World.FetchesWell.kept`, `World.RaisesWell.kept` — whatever is done in such
  a world keeps it so.
-/

set_option autoImplicit false

namespace SourceTrees

/-- The outcomes of importing the module are successes and ordinary faults. -/
def Module.ImportsWell (m : Module) : Prop :=
  ∀ f, some f ∈ m.imports.outcomes → f.kind.isOrdinary = true

/-- What the member yields when it is called is a pointer, a grammar or an ordinary fault. -/
def Member.YieldsWell : Member → Prop
  | .raising f => f.kind.isOrdinary = true
  | .compiler script => ∀ o ∈ script.outcomes,
      match o with
      | .grammar => True
      | .null => False
      | .fault f => f.kind.isOrdinary = true
  | _ => True

/-- What a maker answers to a call holds ordinary faults only. -/
def BindOutcome.RaisesWell : BindOutcome → Prop
  | parser => True
  | fault f => f.kind.isOrdinary = true
  | bare making setting => (∀ f ∈ making, f.kind.isOrdinary = true) ∧
      ∀ f ∈ setting, f.kind.isOrdinary = true

/-- Whatever the member answers to a call, it raises ordinary faults only. -/
def Member.RaisesWell : Member → Prop
  | .raising f => f.kind.isOrdinary = true
  | .compiler script => ∀ o ∈ script.outcomes,
      match o with
      | .fault f => f.kind.isOrdinary = true
      | _ => True
  | .maker script last => last.RaisesWell ∧ ∀ o ∈ script.outcomes, o.RaisesWell
  | _ => True

/-- The faults of making parsers are ordinary. -/
theorem BindOutcome.RaisesWell.isOrdinary {o : BindOutcome} (h : o.RaisesWell) {f : Fault}
    (hf : o = .fault f ∨ o.making? = some f ∨ o.setting? = some f) : f.kind.isOrdinary = true := by
  cases o with
  | parser => rcases hf with hf | hf | hf <;> cases hf
  | fault g =>
    rcases hf with hf | hf | hf
    · cases hf
      exact h
    · cases hf
    · cases hf
  | bare making setting =>
    rcases hf with hf | hf | hf
    · cases hf
    · exact h.1 f hf
    · exact h.2 f hf

instance decidableImportsWell (m : Module) : Decidable m.ImportsWell :=
  decidable_of_iff (∀ o ∈ m.imports.outcomes, ∀ f ∈ o, f.kind.isOrdinary = true)
    ⟨fun h f hf => h _ hf f rfl, fun h _ ho f hf => h f (Option.mem_def.1 hf ▸ ho)⟩

instance decidableYieldsWell : ∀ x : Member, Decidable x.YieldsWell
  | .raising f => inferInstanceAs (Decidable (f.kind.isOrdinary = true))
  | .compiler script =>
    have : ∀ o : CompileOutcome, Decidable (match o with
        | .grammar => True
        | .null => False
        | .fault f => f.kind.isOrdinary = true) := fun o =>
      match o with
      | .grammar => isTrue trivial
      | .null => isFalse id
      | .fault f => inferInstanceAs (Decidable (f.kind.isOrdinary = true))
    inferInstanceAs (Decidable (∀ o ∈ script.outcomes, _))
  | .pointer _ | .value _ | .inner _ | .maker .. => isTrue trivial

instance decidableBindsWell : ∀ o : BindOutcome, Decidable o.RaisesWell
  | .parser => isTrue trivial
  | .fault f => inferInstanceAs (Decidable (f.kind.isOrdinary = true))
  | .bare making setting => inferInstanceAs (Decidable ((∀ f ∈ making, f.kind.isOrdinary = true) ∧
      ∀ f ∈ setting, f.kind.isOrdinary = true))

instance decidableRaisesWell : ∀ x : Member, Decidable x.RaisesWell
  | .raising f => inferInstanceAs (Decidable (f.kind.isOrdinary = true))
  | .compiler script =>
    have : ∀ o : CompileOutcome, Decidable (match o with
        | .fault f => f.kind.isOrdinary = true
        | _ => True) := fun o =>
      match o with
      | .grammar | .null => isTrue trivial
      | .fault f => inferInstanceAs (Decidable (f.kind.isOrdinary = true))
    inferInstanceAs (Decidable (∀ o ∈ script.outcomes, _))
  | .maker script last =>
    inferInstanceAs (Decidable (last.RaisesWell ∧ ∀ o ∈ script.outcomes, o.RaisesWell))
  | .pointer _ | .value _ | .inner _ => isTrue trivial

namespace World

/-- The modules that are named so import well, and every member of a module is of the kind. -/
def Holds (N : String → Prop) (A : Member → Prop) (w : World) : Prop :=
  ∀ name m, w.modules.get? name = some m →
    (N name → m.ImportsWell) ∧ ∀ key x, m.members.get? key = some x → A x

/-- It is enough to look at the entries. -/
theorem Holds.of_entries {N : String → Prop} {A : Member → Prop} {w : World}
    (h : ∀ e ∈ w.modules.entries, (N e.1 → e.2.ImportsWell) ∧ ∀ x ∈ e.2.members.entries, A x.2) :
    w.Holds N A := by
  intro name m hm
  obtain ⟨himports, hmembers⟩ := h _ (Keyed.mem_of_lookIn hm)
  exact ⟨himports, fun key x hx => hmembers _ (Keyed.mem_of_lookIn hx)⟩

/-- The module and those that it lies in import well. -/
abbrev ImportsWell (engine : String) (w : World) : Prop :=
  w.Holds (· ∈ Module.chain engine) fun _ => True

/-- Every module imports well, and its members yield well. -/
abbrev FetchesWell (w : World) : Prop := w.Holds (fun _ => True) Member.YieldsWell

/-- Whatever is imported, called or parsed, ordinary faults only are raised. -/
structure RaisesWell (w : World) : Prop where
  modules : w.Holds (fun _ => True) Member.RaisesWell
  parses : ∀ {source script f}, w.parses.get? source = some script → .fault f ∈ script.outcomes →
    f.kind.isOrdinary = true

end World

/-- What a script answers next is one of its outcomes, or the default; later outcomes are its own. -/
theorem Script.mem_next {α : Type} (s : Script α) (d : α) :
    ((s.next d).1 ∈ s.outcomes ∨ s.outcomes = [] ∧ (s.next d).1 = d) ∧
      ∀ o ∈ (s.next d).2.outcomes, o ∈ s.outcomes := by
  obtain ⟨outcomes⟩ := s
  cases outcomes with
  | nil => exact ⟨.inr ⟨rfl, rfl⟩, fun _ h => h⟩
  | cons o rest =>
    cases rest with
    | nil => exact ⟨.inl List.mem_cons_self, fun _ h => h⟩
    | cons o' rest => exact ⟨.inl List.mem_cons_self, fun _ h => List.mem_cons_of_mem _ h⟩

/-- A kind of members that is not left by what is done in a world. -/
structure Member.Closed (A : Member → Prop) : Prop where
  inner : ∀ name, A (.inner name)
  compiler : ∀ {script}, A (.compiler script) → A (.compiler (script.next .grammar).2)
  maker : ∀ {script last}, A (.maker script last) →
    A (.maker (script.next .parser).2 (script.next .parser).1)

/-- The faults that come of calling members of the kind to make a parser. -/
structure Member.Makes (F : Fault → Prop) (A : Member → Prop) : Prop where
  ordinary : ∀ {f}, f.kind.isOrdinary = true → F f
  raising : ∀ {f}, A (.raising f) → F f
  answered : ∀ {script last f}, A (.maker script last) → (script.next .parser).1 = .fault f → F f
  bare : ∀ {script last f}, A (.maker script last) → last.making? = some f ∨ last.setting? = some f → F f

theorem Member.makes_any (A : Member → Prop) : Member.Makes (fun _ => True) A :=
  ⟨fun _ => trivial, fun _ => trivial, fun _ _ => trivial, fun _ _ => trivial⟩

namespace World.Holds

open Attempt

variable {N : String → Prop} {A : Member → Prop} {w w' : World} {name key : String} {m : Module}
  {x : Member}

theorem congr (h : w.Holds N A) (hm : w'.modules = w.modules) : w'.Holds N A := by
  intro name m hg
  exact h name m (hm ▸ hg)

theorem put (h : w.Holds N A) (hi : N name → m.ImportsWell) (hx : ∀ key x, m.members.get? key = some x → A x)
    (hm : w'.modules = w.modules.put name m) : w'.Holds N A := by
  intro name' m' hg
  rw [hm, Keyed.get?_put] at hg
  split at hg
  · rename_i he
    cases hg
    exact ⟨he ▸ hi, hx⟩
  · exact h name' m' hg

theorem setMember (h : w.Holds N A) (hx : A x) (owner key : String) :
    (w.setMember owner key x).Holds N A := by
  unfold World.setMember
  cases hg : w.modules.get? owner with
  | none =>
    refine h.congr ?_
    show w.modules.adjust owner _ = _
    rw [Keyed.adjust, hg]
  | some m =>
    obtain ⟨hi, hm⟩ := h owner m hg
    have hput : w.modules.adjust owner (fun old => { old with members := old.members.put key x }) =
        w.modules.put owner { m with members := m.members.put key x } := by
      rw [Keyed.adjust, hg]
    have hi' : N owner → Module.ImportsWell { m with members := m.members.put key x } := hi
    refine h.put hi' (fun key' x' hk => ?_) hput
    rw [Keyed.get?_put] at hk
    split at hk
    · cases hk
      exact hx
    · exact hm key' x' hk

/-- A member is one that the module holds, or a value that every module has. -/
theorem member (h : w.Holds N A) {owner : String} (hm : w.member? owner key = some x)
    (hv : ∀ v, x ≠ .value v) : A x := by
  unfold World.member? at hm
  obtain ⟨m, hg, hm⟩ := Option.bind_eq_some_iff.1 hm
  cases hx : m.members.get? key with
  | some x' =>
    rw [hx, Option.some_or] at hm
    cases hm
    exact (h owner m hg).2 key x hx
  | none =>
    rw [hx, Option.none_or] at hm
    exfalso
    unfold World.commonMember? at hm
    split at hm
    · cases hm
      exact hv _ rfl
    · cases hm
      exact hv _ rfl
    · cases hm
      exact hv _ rfl
    · cases hm
      exact hv _ rfl
    · split at hm
      · cases hm
        exact hv _ rfl
      · cases hm
    · cases hm

/-- The faults of importing are ordinary. -/
theorem keptByImports (hA : Member.Closed A) :
    KeptByImports N (fun f => f.kind.isOrdinary = true) (World.Holds N A) where
  ordinary h := h
  noted _ h := h.congr rfl
  imported {w name m} h hg _ := by
    obtain ⟨hi, hm⟩ := h _ _ hg
    have hnext : N name → Module.ImportsWell { m with
        imports := (m.imports.next none).2, isImported := (m.imports.next none).1.isNone } :=
      fun hn f hf => hi hn f ((Script.mem_next _ _).2 _ hf)
    exact h.put hnext hm rfl
  raised h hn hg hf := by
    obtain ⟨hi, _⟩ := h _ _ hg
    rcases (Script.mem_next _ none).1 with hm | ⟨_, hm⟩
    · exact hi hn _ (hf ▸ hm)
    · rw [hm] at hf
      cases hf
  placed h _ _ := h.setMember (hA.inner _) _ _

/-- Making a parser keeps what is said of modules and members, and touches nothing that is parsed. -/
theorem keptByBinding {F : Fault → Prop} {B : Keyed (List UInt8) (Script ParseOutcome) → Prop}
    (hA : Member.Closed A) (hF : Member.Makes F A) :
    KeptByBinding F fun w => w.Holds N A ∧ B w.parses where
  ordinary := hF.ordinary
  noted _ h := ⟨h.1.congr rfl, h.2⟩
  asked h hm := ⟨h.1.setMember (hA.maker (h.1.member hm (by simp))) _ _, h.2⟩
  added _ h := ⟨h.1.congr rfl, h.2⟩
  rebound _ _ h := ⟨h.1.congr rfl, h.2⟩
  raising h hm := hF.raising (h.1.member hm (by simp))
  answered h hm := hF.answered (h.1.member hm (by simp))
  bare h hm := hF.bare (h.1.member hm (by simp))

theorem keeps_bindParser (hA : Member.Closed A) (engine : String) (g : Grammar) :
    Meets (World.Holds N A) (bindParser engine g) (fun _ => World.Holds N A)
      fun _ => World.Holds N A :=
  (keptByBinding (B := fun _ => True) hA (Member.makes_any A)).meets_bindParser.mono
    (fun _ hw => ⟨hw, trivial⟩) (fun _ _ hw => hw.1) fun _ _ hw => hw.2.1

end World.Holds

namespace World

open Attempt

/-- Whatever is done, the modules go on importing well. -/
theorem ImportsWell.kept (engine : String) :
    KeptByWork (fun _ => True) (fun _ => True) (ImportsWell engine) where
  ordinary _ := trivial
  noted _ h := h.congr rfl
  imported h hg hn := (World.Holds.keptByImports ⟨by simp, by simp, by simp⟩).imported h hg hn
  raised _ _ _ _ := trivial
  placed h _ _ := h.setMember trivial _ _
  raising _ _ := trivial
  compiled h _ := h.setMember trivial _ _
  answered _ _ := by split <;> simp
  added _ h := h.congr rfl
  parsed h _ := h.congr rfl
  bound := World.Holds.keeps_bindParser ⟨by simp, by simp, by simp⟩

/-- Loading the engine raises ordinary faults only. -/
theorem ImportsWell.loadEngine (engine : String) :
    Meets (ImportsWell engine) (Attempt.loadEngine engine) (fun _ => ImportsWell engine)
      fun f w => f.kind.isOrdinary = true ∧ w.ImportsWell engine :=
  meets_loadEngine (World.Holds.keptByImports ⟨by simp, by simp, by simp⟩) fun _ => id

theorem closed_yieldsWell : Member.Closed Member.YieldsWell where
  inner _ := trivial
  compiler h o ho := h o ((Script.mem_next _ _).2 o ho)
  maker _ := trivial

/-- Whatever is done, members go on yielding well. -/
theorem FetchesWell.kept :
    KeptByWork (fun f => f.kind.isOrdinary = true) (fun g => g.isSome = true) FetchesWell where
  toKeptByImports := World.Holds.keptByImports closed_yieldsWell
  raising h hm := h.member hm (by simp)
  compiled h hm := h.setMember (closed_yieldsWell.compiler (h.member hm (by simp))) _ _
  answered {w engine script} h hm := by
    have hy : Member.YieldsWell (.compiler script) := h.member hm (by simp)
    rcases (Script.mem_next script .grammar).1 with ho | ⟨_, ho⟩
    · have hy' := hy _ ho
      split <;> simp_all
    · simp [ho]
  added _ h := h.congr rfl
  parsed h _ := h.congr rfl
  bound := World.Holds.keeps_bindParser closed_yieldsWell

/-! ### Worlds without extraordinary faults -/

/-- It is enough to look at the entries. -/
theorem RaisesWell.of_entries {w : World}
    (hm : ∀ e ∈ w.modules.entries, e.2.ImportsWell ∧ ∀ x ∈ e.2.members.entries, x.2.RaisesWell)
    (hp : ∀ e ∈ w.parses.entries, ∀ o ∈ e.2.outcomes,
      match o with
      | .fault f => f.kind.isOrdinary = true
      | _ => True) : w.RaisesWell where
  modules := .of_entries fun e he => ⟨fun _ => (hm e he).1, (hm e he).2⟩
  parses hg hf := hp _ (Keyed.mem_of_lookIn hg) _ hf

theorem closed_raisesWell : Member.Closed Member.RaisesWell where
  inner _ := trivial
  compiler h o ho := h o ((Script.mem_next _ _).2 o ho)
  maker {script last} h := by
    refine ⟨?_, fun o ho => h.2 o ((Script.mem_next _ _).2 o ho)⟩
    rcases (Script.mem_next script .parser).1 with ho | ⟨_, ho⟩
    · exact h.2 _ ho
    · rw [ho]
      trivial

theorem makes_raisesWell : Member.Makes (fun f => f.kind.isOrdinary = true) Member.RaisesWell where
  ordinary := id
  raising := id
  answered h ho := (closed_raisesWell.maker h).1.isOrdinary (.inl ho)
  bare h ho := h.1.isOrdinary (.inr ho)

namespace RaisesWell

variable {w : World}

theorem keptByImports : KeptByImports (fun _ => True) (fun f => f.kind.isOrdinary = true) RaisesWell where
  ordinary := id
  noted e h := ⟨(World.Holds.keptByImports closed_raisesWell).noted e h.modules, h.parses⟩
  imported h hg hn :=
    ⟨(World.Holds.keptByImports closed_raisesWell).imported h.modules hg hn, h.parses⟩
  raised h := (World.Holds.keptByImports closed_raisesWell).raised h.modules
  placed h hc hn :=
    ⟨(World.Holds.keptByImports closed_raisesWell).placed h.modules hc hn, h.parses⟩

/-- A source that has been parsed goes on being answered well. -/
theorem parsed (h : w.RaisesWell) {source : List UInt8} {script : Script ParseOutcome}
    (hg : w.parses.get? source = some script) :
    RaisesWell { w with parses := w.parses.put source (script.next .none).2 } ∧
      ∀ f, (script.next .none).1 = .fault f → f.kind.isOrdinary = true := by
  refine ⟨⟨h.modules.congr rfl, fun {source' script' f} hs hf => ?_⟩, fun f hf => ?_⟩
  · replace hs : (w.parses.put source (script.next .none).2).get? source' = some script' := hs
    rw [Keyed.get?_put] at hs
    split at hs
    · cases hs
      exact h.parses hg ((Script.mem_next _ _).2 _ hf)
    · exact h.parses hs hf
  · rcases (Script.mem_next script .none).1 with ho | ⟨_, ho⟩
    · exact h.parses hg (hf ▸ ho)
    · rw [hf] at ho
      cases ho

/-- Making a parser raises ordinary faults only. -/
theorem bindParser (engine : String) (g : Grammar) :
    Meets RaisesWell (Attempt.bindParser engine g) (fun _ => RaisesWell)
      fun f w => f.kind.isOrdinary = true ∧ w.RaisesWell :=
  (World.Holds.keptByBinding (B := fun parses => ∀ {source script f}, parses.get? source = some script →
    .fault f ∈ script.outcomes → f.kind.isOrdinary = true) closed_raisesWell
      makes_raisesWell).meets_bindParser.mono (fun _ hw => ⟨hw.modules, hw.parses⟩)
        (fun _ _ hw => ⟨hw.1, hw.2⟩) fun _ _ hw => ⟨hw.1, hw.2.1, hw.2.2⟩

/-- Whatever is done, ordinary faults only go on being raised. -/
theorem kept : KeptByWork (fun f => f.kind.isOrdinary = true) (fun _ => True) RaisesWell where
  toKeptByImports := keptByImports
  raising h hm := h.modules.member hm (by simp)
  compiled h hm :=
    ⟨h.modules.setMember (closed_raisesWell.compiler (h.modules.member hm (by simp))) _ _, h.parses⟩
  answered {w engine script} h hm := by
    have hy : Member.RaisesWell (.compiler script) := h.modules.member hm (by simp)
    rcases (Script.mem_next script .grammar).1 with ho | ⟨_, ho⟩
    · have hy' := hy _ ho
      split <;> simp_all
    · simp [ho]
  added _ h := ⟨h.modules.congr rfl, h.parses⟩
  parsed h hg := (h.parsed hg).1
  bound engine g := (bindParser engine g).mono (fun _ => id) (fun _ _ => id) fun _ _ hw => hw.2

end RaisesWell

end World

end SourceTrees
