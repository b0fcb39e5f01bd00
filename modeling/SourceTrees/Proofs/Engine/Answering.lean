import SourceTrees.Proofs.Engine.Fixed

/-!
# What jobs answer in a fixed world

In a world that answers every call alike, so do the jobs that are made of such calls: loading the engine,
fetching a grammar, making a parser and parsing end as they would end in the world as it was at first.

## Protocol

* Grammars and parsers are numbered as they are made.  Which number one gets depends on the others; from
  what pointer a grammar is compiled, and whether a parser can be made, does not.

## Results

* `Answers` — a table of how each of these ends.
* `Answering` — no world of a kind answers otherwise, and none is left by what is done.
* **`World.Fixed.answering`** — the worlds that answer as a fixed one does have such a table.
-/

set_option autoImplicit false

namespace SourceTrees

/-- How jobs end: loading the engine, fetching from a locator, making a parser, and parsing with a parser
    whose grammar was compiled from a pointer. -/
structure Answers where
  boot : Except Fault Unit
  fetch : String → Except Fault Json
  bind : Except Fault Unit
  parse : Json → List UInt8 → Except Fault (Option Node)

/-- In the worlds of the kind jobs end as the table says, and what they do leads to no others. -/
structure Answering (c : Config) (A : Answers) (P : World → Prop) : Prop where
  kept : ∃ F G, Attempt.KeptByWork F G P
  raises : ∀ {w}, P w → w.RaisesWell
  fetches : ∀ {w}, P w → w.FetchesWell
  boot : Attempt.Meets P (.loadEngine c.engineModule) (fun x _ => A.boot = .ok x)
    fun f _ => A.boot = .error f
  fetch : ∀ language, Attempt.Meets P
    (.fetchGrammar c.engineModule ((c.locators.get? language).getD ""))
    (fun g w => ∃ n pointer, g = some n ∧
      A.fetch ((c.locators.get? language).getD "") = .ok pointer ∧ w.pointers[n - 1]? = some pointer)
    fun f _ => A.fetch ((c.locators.get? language).getD "") = .error f
  bind : ∀ g, Attempt.Meets P (.bindParser c.engineModule g) (fun _ _ => A.bind = .ok ())
    fun f _ => A.bind = .error f
  parse : ∀ {w}, P w → ∀ parser source,
    ((Attempt.parse parser source).run w).1 = A.parse (w.pointerOf (w.grammarOf parser)) source

/-! ## What members come to -/

namespace Member

/-- How calling the function of a pointer ends. -/
def pointing (name : String) : Member → Except Fault Json
  | .pointer p => .ok p
  | .raising f => .error f
  | m => .error (m.callFault name)

/-- How compiling a grammar ends. -/
def compiling : Member → Except Fault Unit
  | .compiler script =>
    match (script.next .grammar).1 with
    | .fault f => .error f
    | _ => .ok ()
  | m => .error (m.callFault compilerName)

/-- How making a bare parser and setting its language ends. -/
def baring : Member → Except Fault Unit
  | .maker _ last =>
    match last.making?.or last.setting? with
    | some f => .error f
    | none => .ok ()
  | .pointer p => .error (.noAttribute p "language")
  | .raising f => .error f
  | m => .error (m.callFault makerName)

/-- How making a parser ends, a bare one if the maker takes no grammar. -/
def making : Member → Except Fault Unit
  | .maker script _ =>
    match (script.next .parser).1 with
    | .parser => .ok ()
    | .fault f => if f.kind = .type then .ok () else .error f
    | o => (maker script o).baring
  | m => m.baring

theorem pointing_answer (name : String) (m : Member) : m.answer.pointing name = m.pointing name := by
  cases m <;> rfl

theorem compiling_answer (m : Member) : m.answer.compiling = m.compiling := by
  cases m <;> rfl

theorem making_answer (m : Member) : m.answer.making = m.making := by
  cases m <;> rfl

end Member

namespace Attempt

variable {α β : Type} {P P' : World → Prop} {w w₀ : World} {c : Config} {engine name : String}

/-! ## Imports -/

section

variable {C : String → String → Prop} {F : Fault → Prop} {G : Grammar → Prop}

/-- Loading an engine whose parts are called. -/
theorem steady_loadEngine (hl : ∀ {w}, P w → w₀.Like C w) (hk : KeptByWork F G P)
    (hc : ∀ part ∈ engineParts, C engine part) : Steady P (loadEngine engine) := by
  refine .bind (steady_importModule (fun hw => (hl hw).toSameImports) hk.toKeptByImports engine) fun _ => ?_
  have hparts : ∀ {w}, P w → w.missingParts engine = w₀.missingParts engine := fun hw => by
    refine List.filter_congr fun part hpart => ?_
    have he := congrArg Option.isNone ((hl hw).calls (hc part hpart))
    simpa using he
  refine .of_meets (r := if (w₀.missingParts engine).isEmpty then .ok ()
    else .error (.incomplete engine (w₀.missingParts engine))) (.bind .get fun w => ?_)
    (.bind .get fun w => .ite (fun _ => .pure fun _ hw => hw.2) fun _ => .throw fun _ hw => hw.2)
  refine .ite (fun he => .pure fun w' hw => ?_) fun he => .throw fun w' hw => ?_
  · rw [hparts (hw.1 ▸ hw.2)] at he
    rw [if_pos he]
  · have hp := hparts (hw.1 ▸ hw.2)
    rw [hp] at he ⊢
    rw [if_neg he]

/-! ## Members that are called -/

/-- What comes of calling a member may be told from the world as it was at first, if it goes by what the
    member answers. -/
theorem meets_called {γ : Type} {a : Attempt α} {Q : γ → α → World → Prop} {E : γ → Fault → World → Prop}
    (hl : ∀ {w}, P w → w₀.Like C w) {owner key : String} (hc : C owner key) {d : γ} {f : Member → γ}
    (hf : ∀ m, f m.answer = f m)
    (h : ∀ w, Meets (fun w' => w' = w ∧ P w) a (Q ((w.member? owner key).elim d f))
      (E ((w.member? owner key).elim d f))) :
    Meets P a (Q ((w₀.member? owner key).elim d f)) (E ((w₀.member? owner key).elim d f)) := by
  intro w hw
  have he := congrArg (Option.elim · d f) ((hl hw).calls hc)
  simp only [Option.elim_map, Function.comp_def, hf] at he
  rw [← he]
  exact h w w ⟨rfl, hw⟩

theorem steady_callPointer (hl : ∀ {w}, P w → w₀.Like C w) (hk : KeptByWork F G P) {l : Language.Locator}
    (hc : C l.moduleName l.entry) : Steady P (callPointer l) := by
  have hkeeps : Meets P (callPointer l) (fun _ => P) fun _ => P :=
    (meets_callPointer hk.toKeptByFetches l).mono (fun _ => id) (fun _ _ => id) fun _ _ h => h.2
  have hends := meets_called (Q := fun r x _ => r = .ok x) (E := fun r f _ => r = .error f)
    (a := callPointer l) hl hc (Member.pointing_answer l.entry)
    (d := .error (.plain .missingName
      ("module '" ++ l.moduleName ++ "' has no attribute '" ++ l.entry ++ "'"))) fun w => ?_
  · exact .of_meets hends hkeeps
  refine .bind .get fun w' => ?_
  refine Meets.mono (P := fun _ => w' = w) ?_ (fun _ hw => hw.1.trans hw.2.1) (fun _ _ => id) fun _ _ => id
  cases hm : w.member? l.moduleName l.entry with
  | none =>
    intro w'' hw
    subst hw
    rw [hm]
    rfl
  | some m =>
    intro w'' hw
    subst hw
    rw [hm]
    cases m <;> rfl

/-- A grammar that is compiled is one, and its pointer is found under its number. -/
theorem meets_compiling (hl : ∀ {w}, P w → w₀.Like C w) (hy : ∀ {w}, P w → w.FetchesWell)
    (hc : C engine compilerName) (pointer : Json) :
    Meets P (compile engine pointer)
      (fun g w => (w₀.member? engine compilerName).elim (.error (.wrongArguments compilerName))
        Member.compiling = .ok () ∧ ∃ n, g = some n ∧ w.pointers[n - 1]? = some pointer)
      fun f _ => (w₀.member? engine compilerName).elim (.error (.wrongArguments compilerName))
        Member.compiling = .error f := by
  refine meets_called (Q := fun r g w => r = .ok () ∧ ∃ n, g = some n ∧ w.pointers[n - 1]? = some pointer)
    (E := fun r f _ => r = .error f) hl hc Member.compiling_answer fun w => .bind .get fun w' => ?_
  cases hm : w'.member? engine compilerName with
  | none =>
    refine .throw fun w'' hw => ?_
    rw [← hw.2.1, ← hw.1, hm]
    rfl
  | some m =>
    cases m with
    | compiler script =>
      have hanswer : P w → w' = w → (w.member? engine compilerName).elim
          (.error (.wrongArguments compilerName)) Member.compiling =
            Member.compiling (.compiler script) := fun _ he => by
        rw [← he, hm]
        rfl
      have hyields : P w → w' = w → (script.next .grammar).1 ≠ .null := fun hw he hnull => by
        have hx : Member.YieldsWell (.compiler script) := (hy hw).member (he ▸ hm) (by simp)
        rcases (Script.mem_next script .grammar).1 with ho | ⟨_, ho⟩
        · have hx' := hx _ ho
          rw [hnull] at hx'
          exact hx'
        · rw [hnull] at ho
          cases ho
      revert hanswer hyields
      rw [Member.compiling]
      dsimp only
      generalize script.next .grammar = x
      obtain ⟨o, script'⟩ := x
      intro hanswer hyields
      refine .bind (R := fun _ _ => P w ∧ w' = w) (.modify fun w'' hw => ⟨hw.2.2, hw.1.trans hw.2.1⟩)
        fun _ => ?_
      cases o with
      | grammar =>
        refine .modifyGet fun w'' hw => ⟨hanswer hw.1 hw.2, _, rfl, ?_⟩
        show (w''.pointers ++ [pointer])[w''.pointers.length]? = some pointer
        simp
      | null => exact .pure fun w'' hw => absurd rfl (hyields hw.1 hw.2)
      | fault f => exact .throw fun w'' hw => hanswer hw.1 hw.2
    | _ =>
      refine .throw fun w'' hw => ?_
      rw [← hw.2.1, ← hw.1, hm]
      rfl

/-- Fetching a grammar ends as it ends for the locator, the grammar being compiled from the pointer that
    is found there. -/
theorem exists_meets_fetchGrammar (hl : ∀ {w}, P w → w₀.Like C w) (hk : KeptByWork F G P)
    (hy : ∀ {w}, P w → w.FetchesWell) (hengine : C engine compilerName) {locator : String}
    (hc : ∀ l, Language.Locator.parse? locator = some l → C l.moduleName l.entry) :
    ∃ r : Except Fault Json, Meets P (fetchGrammar engine locator)
      (fun g w => ∃ n pointer, g = some n ∧ r = .ok pointer ∧ w.pointers[n - 1]? = some pointer)
      fun f _ => r = .error f := by
  unfold fetchGrammar
  cases hparse : Language.Locator.parse? locator with
  | none => exact ⟨.error _, .throw fun _ _ => rfl⟩
  | some l =>
    let Q (r : Except Fault Json) (g : Grammar) (w : World) : Prop :=
      ∃ n pointer, g = some n ∧ r = .ok pointer ∧ w.pointers[n - 1]? = some pointer
    have hcompiles : ∀ pointer, ∃ r, Meets P (compile engine pointer) (Q r)
        fun f _ => r = .error f ∧ True := fun pointer =>
      ⟨((w₀.member? engine compilerName).elim (.error (.wrongArguments compilerName))
        Member.compiling).map fun _ => pointer,
      (meets_compiling hl hy hengine pointer).mono (fun _ => id)
        (fun g w ⟨he, n, hg, hn⟩ => ⟨n, pointer, hg, by rw [he]; rfl, hn⟩)
        fun f _ he => ⟨by rw [he]; rfl, trivial⟩⟩
    obtain ⟨r, hr⟩ := (steady_importModule (fun hw => (hl hw).toSameImports) hk.toKeptByImports
      l.moduleName).exists_bind (Q := Q) (fun _ _ => trivial)
      fun _ => (steady_callPointer hl hk (hc l hparse)).exists_bind (Q := Q) (fun _ _ => trivial) hcompiles
    exact ⟨r, hr.mono (fun _ => id) (fun _ _ => id) fun _ _ => And.left⟩

/-- Making a bare parser ends as the maker says that it does. -/
theorem meets_baring {g : Grammar} {x : Option Member} :
    Meets (fun w => w.member? engine makerName = x) (makeBare engine g)
      (fun _ _ => x.elim (.error (.wrongArguments makerName)) Member.baring = .ok ())
      fun f _ => x.elim (.error (.wrongArguments makerName)) Member.baring = .error f := by
  refine .bind .get fun w => ?_
  cases hm : w.member? engine makerName with
  | none =>
    refine .throw fun w' hw => ?_
    rw [← hw.2, ← hw.1, hm]
    rfl
  | some m =>
    intro w' hw
    rw [← hw.2, ← hw.1, hm]
    cases m with
    | maker script last =>
      dsimp only [Option.elim]
      rw [Member.baring]
      cases last with
      | parser => rfl
      | fault f => rfl
      | bare making setting =>
        cases making with
        | some f => rfl
        | none => cases setting <;> rfl
    | _ => rfl

/-- Making a parser ends as the maker answers, whatever it is made for. -/
theorem meets_making (hl : ∀ {w}, P w → w₀.Like C w) (hc : C engine makerName) (g : Grammar) :
    Meets P (bindParser engine g)
      (fun _ _ => (w₀.member? engine makerName).elim (.error (.wrongArguments makerName))
        Member.making = .ok ())
      fun f _ => (w₀.member? engine makerName).elim (.error (.wrongArguments makerName))
        Member.making = .error f := by
  refine meets_called (Q := fun r _ _ => r = .ok ()) (E := fun r f _ => r = .error f) hl hc
    Member.making_answer fun w => ?_
  -- What is refused as a call with a grammar leaves the member to be called without one.
  refine .tryCatch (D := fun f w' => (f.kind = .type →
      (w'.member? engine makerName).elim (.error (.wrongArguments makerName)) Member.baring =
        (w.member? engine makerName).elim (.error (.wrongArguments makerName)) Member.making) ∧
      (f.kind ≠ .type → (w.member? engine makerName).elim (.error (.wrongArguments makerName))
        Member.making = .error f)) ?_ fun f => .ite (fun htype w' hw => ?_) fun hne => ?_
  · refine .bind .get fun w' => ?_
    cases hm : w'.member? engine makerName with
    | none =>
      refine .throw fun w'' hw => ⟨fun _ => ?_, fun hne => absurd rfl hne⟩
      rw [← hw.2.1, ← hw.1, hm]
      rfl
    | some m =>
      cases m with
      | maker script last =>
        have hanswer : w' = w → (w.member? engine makerName).elim (.error (.wrongArguments makerName))
            Member.making = Member.making (.maker script last) := fun he => by
          rw [← he, hm]
          rfl
        revert hanswer
        rw [Member.making]
        dsimp only
        generalize script.next .parser = x
        obtain ⟨o, script'⟩ := x
        intro hanswer
        -- The maker is left with what it has answered.
        refine .bind (R := fun _ w'' => w' = w ∧
          w''.member? engine makerName = some (.maker script' o)) (.modify fun w'' hw => ?_) fun _ => ?_
        · refine ⟨hw.1.trans hw.2.1, ?_⟩
          rw [← hw.1]
          show (w'.setMember engine makerName _).member? engine makerName = _
          rw [World.member?_setMember, if_pos ⟨rfl, rfl, World.contains_of_member? hm⟩]
        · cases o with
          | parser => exact .modifyGet fun _ hw => hanswer hw.1
          | fault f =>
            refine .throw fun w'' hw => ⟨fun htype => ?_, fun hne => ?_⟩
            · rw [hw.2, hanswer hw.1]
              dsimp only
              rw [if_pos htype]
              rfl
            · rw [hanswer hw.1]
              dsimp only
              rw [if_neg hne]
          | bare making setting =>
            refine .throw fun w'' hw => ⟨fun _ => ?_, fun hne => absurd rfl hne⟩
            rw [hw.2, hanswer hw.1]
            rfl
      | _ =>
        refine .throw fun w'' hw => ⟨fun _ => ?_, fun hne => absurd rfl hne⟩
        rw [← hw.2.1, ← hw.1, hm]
        rfl
  · have he := @meets_baring engine g _ w' rfl
    rw [hw.1 htype] at he
    exact he
  · exact .throw fun _ hw => hw.2 hne

/-! ## Parsing -/

/-- The tree for a source on which nothing is said depends on the pointer of the grammar alone. -/
def plainRoot (pointer : Json) (source : List UInt8) : Node :=
  World.plainTree { pointers := [pointer], parsers := [some 1] } 1 source

/-- How parsing ends with a parser whose grammar was compiled from the pointer. -/
def parsing (w : World) (pointer : Json) (source : List UInt8) : Except Fault (Option Node) :=
  match w.parses.get? source with
  | none => .ok (some (plainRoot pointer source))
  | some script =>
    match (script.next .none).1 with
    | .tree root => .ok (some root)
    | .none => .ok none
    | .fault f => .error f

theorem run_parse (w : World) (parser : Nat) (source : List UInt8) :
    ((parse parser source).run w).1 = parsing w (w.pointerOf (w.grammarOf parser)) source := by
  have hmeets : Meets (· = w) (parse parser source)
      (fun x _ => parsing w (w.pointerOf (w.grammarOf parser)) source = .ok x)
      fun f _ => parsing w (w.pointerOf (w.grammarOf parser)) source = .error f := by
    unfold parsing
    refine .bind (R := fun _ w' => w' = w.note (.parsed parser source.length))
      (.modify fun _ hw => by rw [hw]) fun _ => .bind .get fun w' => ?_
    cases hg : w'.parses.get? source with
    | none =>
      refine .pure fun w'' hw => ?_
      obtain ⟨hw', rfl⟩ := hw
      rw [hw'] at hg
      rw [hw', show w.parses.get? source = none from hg]
      rfl
    | some script =>
      have hanswer : w' = w.note (.parsed parser source.length) →
          w.parses.get? source = some script := fun he => by
        rw [he] at hg
        exact hg
      dsimp only
      generalize hx : script.next .none = x
      obtain ⟨o, script'⟩ := x
      refine .bind (R := fun _ _ => w.parses.get? source = some script)
        (.set fun w'' hw => hanswer (hw.1.trans hw.2)) fun _ => ?_
      cases o with
      | tree root =>
        refine .pure fun w'' hw => ?_
        rw [hw]
        dsimp only
        rw [hx]
      | none =>
        refine .pure fun w'' hw => ?_
        rw [hw]
        dsimp only
        rw [hx]
      | fault f =>
        refine .throw fun w'' hw => ?_
        rw [hw]
        dsimp only
        rw [hx]
  have he := hmeets w rfl
  unfold Ended at he
  split at he
  · rename_i hx
    rw [hx, he]
  · rename_i hx
    rw [hx, he]

/-- Worlds that answer alike parse alike. -/
theorem parsing_congr {w : World} (h : w₀.Like C w) (pointer : Json) (source : List UInt8) :
    parsing w pointer source = parsing w₀ pointer source := by
  have he := h.parses source
  unfold parsing
  cases hg : w.parses.get? source with
  | none =>
    rw [hg, Option.map_none, eq_comm, Option.map_eq_none_iff] at he
    rw [he]
  | some script =>
    rw [hg, Option.map_some, eq_comm, Option.map_eq_some_iff] at he
    obtain ⟨script₀, hg₀, hs⟩ := he
    rw [hg₀]
    dsimp only
    rw [hs]

end

end Attempt

namespace World

open Attempt

/-- **In a world in which everything is fixed jobs end as a table says, whatever has been done.** -/
theorem Fixed.answering {c : Config} {w : World} (h : w.Fixed c) :
    ∃ A P, P w ∧ Answering c A P ∧ A.parse = parsing w := by
  let P (w' : World) : Prop := w.Like c.Calls w' ∧ w'.RaisesWell ∧ w'.FetchesWell
  have hkept : KeptByWork (fun _ => True) (fun _ => True) P :=
    (Like.kept h.apart).and (RaisesWell.kept.and FetchesWell.kept)
  have hlike : ∀ {w'}, P w' → w.Like c.Calls w' := And.left
  have hparts : ∀ part ∈ engineParts, c.Calls c.engineModule part := fun _ hpart => .inl ⟨rfl, hpart⟩
  have hmaker : makerName ∈ engineParts := List.mem_cons_self
  have hcompiler : compilerName ∈ engineParts := List.mem_cons_of_mem _ List.mem_cons_self
  obtain ⟨boot, hboot⟩ := steady_loadEngine (P := P) hlike hkept hparts
  have hfetch : ∀ locator, ∃ r : Except Fault Json,
      (∀ l, Language.Locator.parse? locator = some l → c.Calls l.moduleName l.entry) →
      Meets P (fetchGrammar c.engineModule locator)
        (fun g w => ∃ n pointer, g = some n ∧ r = .ok pointer ∧ w.pointers[n - 1]? = some pointer)
        fun f _ => r = .error f := fun locator => by
    by_cases hc : ∀ l, Language.Locator.parse? locator = some l → c.Calls l.moduleName l.entry
    · obtain ⟨r, hr⟩ := exists_meets_fetchGrammar hlike hkept (fun hw => hw.2.2)
        (hparts _ hcompiler) hc
      exact ⟨r, fun _ => hr⟩
    · exact ⟨.ok .null, fun hall => absurd hall hc⟩
  let A : Answers :=
    { boot
      fetch := fun locator => (hfetch locator).choose
      bind := (w.member? c.engineModule makerName).elim (.error (.wrongArguments makerName)) Member.making
      parse := parsing w }
  refine ⟨A, P, ⟨.refl h, h.raises, h.fetches⟩, ⟨⟨_, _, hkept⟩, fun hw => hw.2.1, fun hw => hw.2.2, ?_,
    fun language => (hfetch _).choose_spec fun l hl => ?_, fun g => ?_, fun hw parser source => ?_⟩, rfl⟩
  · exact hboot.mono (fun _ => id) (fun _ _ => And.left) fun _ _ => And.left
  · cases hlocator : c.locators.get? language with
    | none =>
      rw [hlocator] at hl
      have hempty : Language.Locator.parse? "" = none := by decide
      rw [Option.getD_none, hempty] at hl
      cases hl
    | some locator =>
      rw [hlocator] at hl
      exact .inr ⟨language, locator, l, hlocator, hl, rfl, rfl⟩
  · exact meets_making hlike (hparts _ hmaker) g
  · exact (run_parse ..).trans (parsing_congr hw.1 ..)

end World

end SourceTrees
