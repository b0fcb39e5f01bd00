import SourceTrees.Engine.Build
import SourceTrees.Service.Warmup

/-!
# What attempts do to a world

Rules for attempts, and what the attempts of engines do to the parsers of a world.

## Results

* `Attempt.Meets` — from worlds of some kind an attempt ends as two postconditions say, one for a value
  and one for a fault.  There is one rule for each way in which attempts are put together.
* `Attempt.meets_bindParser` — a parser that is made is the next one; no other attempt makes any.
-/

set_option autoImplicit false

namespace SourceTrees

/-- That a module is missing is an ordinary fault. -/
theorem World.isOrdinary_missing (w : World) (name : String) :
    (w.missing name).kind.isOrdinary = true := by
  unfold missing
  dsimp only
  split
  · split <;> rfl
  · rfl

end SourceTrees

namespace SourceTrees.Attempt

variable {α β : Type} {P P' : World → Prop} {Q Q' R : α → World → Prop} {S : β → World → Prop}
  {E E' : Fault → World → Prop}

/-- The attempt ends with a value or a fault, as said of either. -/
def Ended (Q : α → World → Prop) (E : Fault → World → Prop) : Except Fault α × World → Prop
  | (.ok x, w) => Q x w
  | (.error f, w) => E f w

/-- From every world of the kind the attempt ends as said. -/
def Meets (P : World → Prop) (a : Attempt α) (Q : α → World → Prop) (E : Fault → World → Prop) : Prop :=
  ∀ w, P w → Ended Q E (a.run w)

namespace Meets

theorem mono {a : Attempt α} (h : Meets P a Q E) (hP : ∀ w, P' w → P w)
    (hQ : ∀ x w, Q x w → Q' x w) (hE : ∀ f w, E f w → E' f w) : Meets P' a Q' E' := by
  intro w hw
  have he := h w (hP w hw)
  unfold Ended at he ⊢
  split
  · rename_i hx
    rw [hx] at he
    exact hQ _ _ he
  · rename_i hx
    rw [hx] at he
    exact hE _ _ he

theorem and {a : Attempt α} (h : Meets P a Q E) (h' : Meets P a Q' E') :
    Meets P a (fun x w => Q x w ∧ Q' x w) fun f w => E f w ∧ E' f w := by
  intro w hw
  have he := h w hw
  have he' := h' w hw
  unfold Ended at he he' ⊢
  split
  · rename_i hx
    rw [hx] at he he'
    exact ⟨he, he'⟩
  · rename_i hx
    rw [hx] at he he'
    exact ⟨he, he'⟩

/-- What is said of the world alone. -/
theorem world {a : Attempt α} {S : World → Prop} (h : Meets P a (fun _ => S) fun _ => S) {w : World}
    (hw : P w) : S (a.run w).2 := by
  have he := h w hw
  unfold Ended at he
  split at he
  · rename_i hx
    rw [hx]
    exact he
  · rename_i hx
    rw [hx]
    exact he

theorem pure {x : α} (h : ∀ w, P w → Q x w) : Meets P (Pure.pure x) Q E := h

theorem throw {f : Fault} (h : ∀ w, P w → E f w) : Meets P (throw f : Attempt α) Q E := h

theorem bind {a : Attempt α} {f : α → Attempt β} (h : Meets P a R E)
    (hf : ∀ x, Meets (R x) (f x) S E) : Meets P (a >>= f) S E := by
  intro w hw
  have he := h w hw
  have hrun : (a >>= f).run w = match a.run w with
      | (.ok x, w) => (f x).run w
      | (.error e, w) => (.error e, w) := by
    show (ExceptT.bindCont f (a.run w).1 : StateM World _) (a.run w).2 = _
    rcases a.run w with ⟨_ | _, _⟩ <;> rfl
  rw [hrun]
  rcases hr : a.run w with ⟨e | x, w'⟩
  · rw [hr] at he
    exact he
  · rw [hr] at he
    exact hf x w' he

/-- What comes after a fault does not matter. -/
theorem throwBind {f : Fault} {g : α → Attempt β} (h : ∀ w, P w → E f w) :
    Meets P (MonadExcept.throw f >>= g) S E :=
  bind (R := fun _ _ => False) (throw h) fun _ _ hw => hw.elim

theorem get : Meets P (get : Attempt World) (fun x w => x = w ∧ P w) E := fun _ hw => ⟨rfl, hw⟩

theorem set {w' : World} {Q : Unit → World → Prop} (h : ∀ w, P w → Q () w') :
    Meets P (set w' : Attempt Unit) Q E := h

theorem modify {f : World → World} {Q : Unit → World → Prop} (h : ∀ w, P w → Q () (f w)) :
    Meets P (modify f : Attempt Unit) Q E := h

theorem modifyGet {f : World → α × World} (h : ∀ w, P w → Q (f w).1 (f w).2) :
    Meets P (modifyGet f : Attempt α) Q E := h

theorem tryCatch {D : Fault → World → Prop} {a : Attempt α} {c : Fault → Attempt α} (h : Meets P a Q D)
    (hc : ∀ f, Meets (D f) (c f) Q E) : Meets P (tryCatch a c) Q E := by
  intro w hw
  have he := h w hw
  have hrun : (MonadExcept.tryCatch a c).run w = match a.run w with
      | (.ok x, w) => (.ok x, w)
      | (.error f, w) => (c f).run w := by
    show (ExceptT.tryCatch a c).run w = _
    unfold ExceptT.tryCatch ExceptT.mk ExceptT.run Bind.bind
    rcases hr : a w with ⟨_ | _, _⟩ <;> simp [Monad.toBind, StateT.instMonad, StateT.bind, hr] <;> rfl
  rw [hrun]
  rcases hr : a.run w with ⟨f | x, w'⟩
  · rw [hr] at he
    exact hc f w' he
  · rw [hr] at he
    exact he

theorem forM {f : β → Attempt PUnit} :
    ∀ xs : List β, (∀ x ∈ xs, Meets P (f x) (fun _ => P) E) → Meets P (xs.forM f) (fun _ => P) E
  | [], _ => pure fun _ hw => hw
  | x :: xs, h => bind (h x List.mem_cons_self) fun _ =>
      forM xs fun y hy => h y (List.mem_cons_of_mem _ hy)

theorem ite {c : Prop} [Decidable c] {a b : Attempt α} (ha : c → Meets P a Q E)
    (hb : ¬ c → Meets P b Q E) : Meets P (if c then a else b) Q E := by
  split
  · exact ha ‹_›
  · exact hb ‹_›

end Meets

/-! ## Importing and fetching -/

variable {F : Fault → Prop} {G : Grammar → Prop}

/-- Importing modules keeps the world as it is said, and the faults of those that are named so are of the
    kind. -/
structure KeptByImports (N : String → Prop) (F : Fault → Prop) (P : World → Prop) : Prop where
  ordinary : ∀ {f}, f.kind.isOrdinary = true → F f
  noted : ∀ {w} e, P w → P (w.note e)
  imported : ∀ {w name m}, P w → w.modules.get? name = some m → m.isImported = false →
    P { w with
      modules := w.modules.put name { m with
        imports := (m.imports.next none).2
        isImported := (m.imports.next none).1.isNone } }
  raised : ∀ {w name m f}, P w → N name → w.modules.get? name = some m →
    (m.imports.next none).1 = some f → F f
  placed : ∀ {w name outer}, P w → w.modules.contains name = true → Module.parent? name = some outer →
    P (w.setMember outer (Module.ownName name) (.inner name))

/-- Fetching grammars keeps the world as it is said, and its grammars and faults are of the kinds. -/
structure KeptByFetches (F : Fault → Prop) (G : Grammar → Prop) (P : World → Prop) : Prop
    extends KeptByImports (fun _ => True) F P where
  raising : ∀ {w owner name f}, P w → w.member? owner name = some (.raising f) → F f
  compiled : ∀ {w engine script}, P w → w.member? engine compilerName = some (.compiler script) →
    P (w.setMember engine compilerName (.compiler (script.next .grammar).2))
  answered : ∀ {w engine script}, P w → w.member? engine compilerName = some (.compiler script) →
    match (script.next .grammar).1 with
    | .grammar => ∀ n, G (some n)
    | .null => G none
    | .fault f => F f
  added : ∀ {w} pointer, P w → P (w.addGrammar pointer).2
  parsed : ∀ {w source script}, P w → w.parses.get? source = some script →
    P { w with parses := w.parses.put source (script.next .none).2 }

variable {N : String → Prop} {name : String}

theorem meets_importOne (h : KeptByImports N F P) (hn : N name) :
    Meets P (importOne name) (fun _ => P) fun f w => F f ∧ P w := by
  refine .bind .get fun w => ?_
  cases hm : w.modules.get? name with
  | none =>
    exact .throw fun w' hw => ⟨h.ordinary (World.isOrdinary_missing w name), hw.2⟩
  | some m =>
    refine .ite (fun _ => .pure fun w' hw => hw.2) fun hfresh => ?_
    have hk : ∀ o i, m.imports.next none = (o, i) → P w → P { w.note (.imported name) with
        modules := w.modules.put name { m with imports := i, isImported := o.isNone } } := by
      intro o i hx hw
      have hi := h.imported (w := w.note (.imported name)) (h.noted _ hw) hm (by simpa using hfresh)
      rwa [hx] at hi
    have hthere : ∀ o i, (w.modules.put name { m with imports := i, isImported := o }).contains name =
        true := fun o i => by simp [Keyed.contains, Keyed.get?_put]
    have hf : ∀ f i, m.imports.next none = (some f, i) → P w → F f := fun f i hx hw =>
      h.raised hw hn hm (by rw [hx])
    revert hk hf
    generalize m.imports.next none = x
    intro hk hf
    rcases x with ⟨_ | f, i⟩
    · refine .bind (R := fun _ w' => P w' ∧ w'.modules.contains name = true) (.set fun w' hw => ?_)
        fun _ => .modify fun w' hw => ?_
      · exact ⟨hk none i rfl (hw.1 ▸ hw.2), hthere _ _⟩
      · unfold World.place
        split
        · exact h.placed hw.1 hw.2 ‹_›
        · exact hw.1
    · refine .bind (R := fun _ w' => F f ∧ P w') (.set fun w' hw => ?_) fun _ => .throw fun _ => id
      exact ⟨hf f i rfl (hw.1 ▸ hw.2), hk (some f) i rfl (hw.1 ▸ hw.2)⟩

theorem meets_importModule (h : KeptByImports N F P) (hn : ∀ n ∈ Module.chain name, N n) :
    Meets P (importModule name) (fun _ => P) fun f w => F f ∧ P w := by
  refine .ite (fun _ => .throwBind fun _ hw => ⟨h.ordinary rfl, hw⟩) fun _ => ?_
  refine .ite (fun _ => .throwBind fun _ hw => ⟨h.ordinary rfl, hw⟩) fun _ => ?_
  exact .forM _ fun n hm => meets_importOne h (hn n hm)

theorem meets_loadEngine (h : KeptByImports N F P) (hn : ∀ n ∈ Module.chain name, N n) :
    Meets P (loadEngine name) (fun _ => P) fun f w => F f ∧ P w := by
  refine .bind (meets_importModule h hn) fun _ => .bind .get fun w => ?_
  exact .ite (fun _ => .pure fun _ hw => hw.2) fun _ => .throw fun _ hw => ⟨h.ordinary rfl, hw.2⟩

theorem meets_isFound (h : KeptByImports (fun _ => True) F P) : Meets P (isFound name) (fun _ => P) fun f w => F f ∧ P w := by
  have hlook {Q : World → Prop} (hQ : ∀ w, Q w → P w) :
      Meets Q (do return (← MonadState.get).modules.contains name : Attempt Bool) (fun _ => P)
        fun f w => F f ∧ P w :=
    .bind .get fun _ => .pure fun _ hw => hQ _ hw.2
  have hload {w : World} (outer : String) : Meets (fun w' => w = w' ∧ P w')
      (do
        importModule outer
        return (← MonadState.get).modules.contains name : Attempt Bool) (fun _ => P)
        fun f w => F f ∧ P w :=
    .bind ((meets_importModule h fun _ _ => trivial).mono (fun _ hw => hw.2) (fun _ _ => id)
      fun _ _ => id) fun _ => hlook fun _ => id
  refine .ite (fun _ => .throwBind fun _ hw => ⟨h.ordinary rfl, hw⟩) fun _ => ?_
  refine .bind .get fun w => ?_
  cases Module.parent? name with
  | none =>
    cases w.modules.get? name with
    | none => exact hlook fun _ hw => hw.2
    | some m => exact .ite (fun _ => .pure fun _ hw => hw.2) fun _ => hlook fun _ hw => hw.2
  | some outer =>
    cases w.modules.get? name with
    | none => exact hload outer
    | some m => exact .ite (fun _ => .pure fun _ hw => hw.2) fun _ => hload outer

theorem keeps_isAvailable (h : KeptByImports (fun _ => True) F P) (locator : String) :
    Meets P (isAvailable locator) (fun _ => P) fun _ => P := by
  unfold isAvailable
  cases Language.Locator.parse? locator with
  | none => exact .pure fun _ => id
  | some l =>
    refine .tryCatch (meets_isFound h) fun f => ?_
    exact .ite (fun _ => .pure fun _ hw => hw.2) fun _ => .throw fun _ hw => hw.2

theorem keeps_availability (h : KeptByImports (fun _ => True) F P) (table : LocatorTable) :
    Meets P (Warmup.availability table) (fun _ => P) fun _ => P := by
  have hprobe : ∀ es, Meets P (Warmup.probe es) (fun _ => P) fun _ => P := by
    intro es
    induction es with
    | nil => exact .pure fun _ => id
    | cons e es ih => exact .bind (keeps_isAvailable h e.2) fun _ => .bind ih fun _ => .pure fun _ => id
  exact hprobe _

/-- A member that is called notes it and raises what it is made to raise, or refuses the call. -/
theorem meets_callMember {m : Member} (hn : ∀ {w} e, P w → P (w.note e))
    (ho : ∀ {f}, f.kind.isOrdinary = true → F f) (hm : ∀ f, m = .raising f → F f) (owner : String) :
    Meets P (callMember owner name m) (fun _ => P) fun f w => F f ∧ P w := by
  cases m with
  | pointer p => exact .bind (R := fun _ => P) (.modify fun _ hw => hn _ hw) fun _ => .pure fun _ => id
  | raising f =>
    exact .bind (R := fun _ => P) (.modify fun _ hw => hn _ hw) fun _ => .throw fun _ hw => ⟨hm f rfl, hw⟩
  | _ => exact .throw fun _ hw => ⟨ho rfl, hw⟩

theorem meets_callPointer (h : KeptByFetches F G P) (l : Language.Locator) :
    Meets P (callPointer l) (fun _ => P) fun f w => F f ∧ P w := by
  refine .bind .get fun w => ?_
  cases hm : w.member? l.moduleName l.entry with
  | none => exact .throw fun _ hw => ⟨h.ordinary rfl, hw.2⟩
  | some m =>
    intro w' hw
    refine meets_callMember h.noted h.ordinary (fun f hf => ?_) l.moduleName w' hw.2
    exact h.raising hw.2 (by rw [← hw.1, hm, hf])

theorem meets_compile (h : KeptByFetches F G P) (engine : String) (pointer : Json) :
    Meets P (compile engine pointer) (fun g w => G g ∧ P w) fun f w => F f ∧ P w := by
  refine .bind .get fun w => ?_
  cases hm : w.member? engine compilerName with
  | none => exact .throw fun _ hw => ⟨h.ordinary rfl, hw.2⟩
  | some m =>
    cases m with
    | compiler script =>
      have ha : P w → _ := fun hw => h.answered hw hm
      have hc : P w → _ := fun hw => h.noted (.compiled pointer) (h.compiled hw hm)
      revert ha hc
      dsimp only
      generalize script.next .grammar = x
      obtain ⟨o, script'⟩ := x
      intro ha hc
      refine .bind (R := fun _ w' => P w' ∧ P w) (.modify fun w' hw => ?_) fun _ => ?_
      · rw [← hw.1]
        exact ⟨hc (hw.1 ▸ hw.2), hw.1 ▸ hw.2⟩
      · cases o with
        | grammar => exact .modifyGet fun w' hw => ⟨ha hw.2 _, h.added _ hw.1⟩
        | null => exact .pure fun w' hw => ⟨ha hw.2, hw.1⟩
        | fault f => exact .throw fun w' hw => ⟨ha hw.2, hw.1⟩
    | _ => exact .throw fun _ hw => ⟨h.ordinary rfl, hw.2⟩

theorem meets_fetchGrammar (h : KeptByFetches F G P) (engine locator : String) :
    Meets P (fetchGrammar engine locator) (fun g w => G g ∧ P w) fun f w => F f ∧ P w := by
  unfold fetchGrammar
  cases Language.Locator.parse? locator with
  | none => exact .throw fun _ hw => ⟨h.ordinary rfl, hw⟩
  | some l =>
    exact .bind (meets_importModule h.toKeptByImports fun _ _ => trivial) fun _ =>
      .bind (meets_callPointer h l) fun _ => meets_compile h engine _

theorem meets_parse (hn : ∀ {w} e, P w → P (w.note e))
    (hs : ∀ {w source script}, P w → w.parses.get? source = some script →
      P { w with parses := w.parses.put source (script.next .none).2 } ∧
        ∀ f, (script.next .none).1 = .fault f → F f)
    (parser : Nat) (source : List UInt8) :
    Meets P (parse parser source) (fun _ => P) fun f w => F f ∧ P w := by
  refine .bind (R := fun _ => P) (.modify fun _ hw => hn _ hw) fun _ => .bind .get fun w => ?_
  cases hg : w.parses.get? source with
  | none => exact .pure fun _ hw => hw.2
  | some script =>
    have hs' : P w → _ := fun hw => hs hw hg
    revert hs'
    dsimp only
    generalize script.next .none = x
    obtain ⟨o, script'⟩ := x
    intro hs'
    refine .bind (R := fun _ w' => P w' ∧ P w) (.set fun w' hw => ?_) fun _ => ?_
    · rw [hw.1] at hs' ⊢
      exact ⟨(hs' hw.2).1, hw.2⟩
    · cases o with
      | tree root => exact .pure fun _ hw => hw.1
      | none => exact .pure fun _ hw => hw.1
      | fault f => exact .throw fun _ hw => ⟨(hs' hw.2).2 f rfl, hw.1⟩

theorem keeps_parse (h : KeptByFetches F G P) (parser : Nat) (source : List UInt8) :
    Meets P (parse parser source) (fun _ => P) fun _ => P :=
  (meets_parse (F := fun _ => True) h.noted (fun hw hg => ⟨h.parsed hw hg, fun _ _ => trivial⟩) parser
    source).mono (fun _ => id) (fun _ _ => id) fun _ _ hw => hw.2

/-! ## Parsers -/

/-- Importing, fetching and parsing make no parsers. -/
theorem keptByFetches_parsers (B : List Grammar → Prop) :
    KeptByFetches (fun _ => True) (fun _ => True) fun w => B w.parsers where
  ordinary _ := trivial
  noted _ h := h
  imported h _ _ := h
  raised _ _ _ _ := trivial
  placed h _ _ := h
  raising _ _ := trivial
  compiled h _ := h
  answered {w engine script} _ _ := by split <;> simp
  added _ h := h
  parsed h _ := h

variable {engine : String} {g : Grammar} {ps : List Grammar}

/-- The parser is the next one, bound to the grammar, and no other has been made. -/
def Binds (ps : List Grammar) (g : Grammar) (parser : Nat) (w : World) : Prop :=
  parser = ps.length + 1 ∧ w.parsers = ps ++ [g]

/-- No parser has been made but one that is bound to nothing. -/
def BindsNone (ps : List Grammar) (w : World) : Prop := w.parsers = ps ∨ w.parsers = ps ++ [none]

theorem meets_makeBound : Meets (·.parsers = ps) (makeBound engine g) (Binds ps g)
    fun _ w => w.parsers = ps := by
  refine .bind .get fun w => ?_
  cases w.member? engine makerName with
  | none => exact .throw fun _ hw => hw.2
  | some m =>
    cases m with
    | maker script last =>
      dsimp only
      generalize script.next .parser = x
      obtain ⟨o, script'⟩ := x
      refine .bind (R := fun _ w => w.parsers = ps) (.modify fun _ hw => hw.2) fun _ => ?_
      cases o with
      | parser => exact .modifyGet fun w' hw => ⟨by rw [← hw]; rfl, by rw [← hw]; rfl⟩
      | fault f => exact .throw fun _ => id
      | bare making setting => exact .throw fun _ => id
    | _ => exact .throw fun _ hw => hw.2

theorem meets_makeBare : Meets (·.parsers = ps) (makeBare engine g) (Binds ps g)
    fun _ => BindsNone ps := by
  refine .bind .get fun w => ?_
  cases w.member? engine makerName with
  | none => exact .throw fun _ hw => .inl hw.2
  | some m =>
    have hcall : ∀ m : Member, Meets (fun w' => w = w' ∧ w'.parsers = ps)
        (do
          let made ← callMember engine makerName m
          MonadExcept.throw (Fault.noAttribute made "language") : Attempt Nat)
        (Binds ps g) fun _ => BindsNone ps := by
      intro m
      refine .bind (R := fun _ w => w.parsers = ps) ?_ fun _ => .throw fun _ => .inl
      exact (meets_callMember (P := (·.parsers = ps)) (F := fun _ => True) (fun _ => id)
        (fun _ => trivial) (fun _ _ => trivial) engine).mono (fun _ hw => hw.2) (fun _ _ => id)
        fun _ _ hw => .inl hw.2
    cases m with
    | maker script last =>
      refine .bind (R := fun _ w => w.parsers = ps) (.modify fun _ hw => hw.2) fun _ => ?_
      have hset : Meets (·.parsers = ps) (modifyGet fun w : World => w.addParser none)
          (Binds ps none) fun _ => BindsNone ps :=
        .modifyGet fun w' hw => ⟨by rw [← hw]; rfl, by rw [← hw]; rfl⟩
      cases last.making? with
      | some f => exact .throwBind fun _ => .inl
      | none =>
        refine .bind hset fun parser => ?_
        refine .bind (R := fun _ => Binds ps none parser) (.modify fun _ => id) fun _ => ?_
        cases last.setting? with
        | some f => exact .throwBind fun _ hw => .inr hw.2
        | none =>
          refine .bind (R := fun _ => Binds ps g parser) (.modify fun w' hw => ⟨hw.1, ?_⟩)
            fun _ => .pure fun _ => id
          show w'.parsers.set (parser - 1) g = _
          rw [hw.2, hw.1, Nat.add_sub_cancel, List.set_append_right _ _ (Nat.le_refl _), Nat.sub_self]
          rfl
    | pointer p => exact hcall (.pointer p)
    | raising f => exact hcall (.raising f)
    | value v => exact hcall (.value v)
    | inner i => exact hcall (.inner i)
    | compiler script => exact hcall (.compiler script)

/-- A parser that is made is the next one, bound to the grammar. -/
theorem meets_bindParser :
    Meets (·.parsers = ps) (bindParser engine g) (Binds ps g) fun _ => BindsNone ps :=
  .tryCatch meets_makeBound fun _ => .ite (fun _ => meets_makeBare) fun _ => .throw fun _ => .inl

/-- Making parsers keeps the world as it is said, and its faults are of the kind. -/
structure KeptByBinding (F : Fault → Prop) (P : World → Prop) : Prop where
  ordinary : ∀ {f}, f.kind.isOrdinary = true → F f
  noted : ∀ {w} e, P w → P (w.note e)
  asked : ∀ {w engine script last}, P w → w.member? engine makerName = some (.maker script last) →
    P (w.setMember engine makerName (.maker (script.next .parser).2 (script.next .parser).1))
  added : ∀ {w} g, P w → P (w.addParser g).2
  rebound : ∀ {w} parser g, P w → P (w.rebind parser g)
  raising : ∀ {w engine f}, P w → w.member? engine makerName = some (.raising f) → F f
  answered : ∀ {w engine script last f}, P w → w.member? engine makerName = some (.maker script last) →
    (script.next .parser).1 = .fault f → F f
  bare : ∀ {w engine script last f}, P w → w.member? engine makerName = some (.maker script last) →
    last.making? = some f ∨ last.setting? = some f → F f

namespace KeptByBinding

theorem meets_makeBound (h : KeptByBinding F P) :
    Meets P (makeBound engine g) (fun _ => P) fun f w => F f ∧ P w := by
  refine .bind .get fun w => ?_
  cases hm : w.member? engine makerName with
  | none => exact .throw fun _ hw => ⟨h.ordinary rfl, hw.2⟩
  | some x =>
    cases x with
    | maker script last =>
      have hfault : P w → _ := fun hw f => h.answered (f := f) hw hm
      have hnext : P w → _ := fun hw => h.noted (.bound g) (h.asked hw hm)
      revert hfault hnext
      dsimp only
      generalize script.next .parser = y
      obtain ⟨o, script'⟩ := y
      intro hfault hnext
      refine .bind (R := fun _ w' => P w ∧ P w') (.modify fun w' hw => ?_) fun _ => ?_
      · rw [← hw.1]
        exact ⟨hw.1 ▸ hw.2, hnext (hw.1 ▸ hw.2)⟩
      · cases o with
        | parser => exact .modifyGet fun _ hw => h.added _ hw.2
        | fault f => exact .throw fun _ hw => ⟨hfault hw.1 f rfl, hw.2⟩
        | bare making setting => exact .throw fun _ hw => ⟨h.ordinary rfl, hw.2⟩
    | _ => exact .throw fun _ hw => ⟨h.ordinary rfl, hw.2⟩

theorem meets_makeBare (h : KeptByBinding F P) :
    Meets P (makeBare engine g) (fun _ => P) fun f w => F f ∧ P w := by
  refine .bind .get fun w => ?_
  have hcall : ∀ x : Member, w.member? engine makerName = some x → Meets (fun w' => w = w' ∧ P w')
      (do
        let made ← callMember engine makerName x
        MonadExcept.throw (Fault.noAttribute made "language") : Attempt Nat)
      (fun _ => P) fun f w => F f ∧ P w := by
    intro x hx
    refine .bind (R := fun _ => P) (fun w' hw => ?_) fun _ => .throw fun _ hw => ⟨h.ordinary rfl, hw⟩
    exact meets_callMember h.noted h.ordinary (fun f hf => h.raising (hw.1 ▸ hw.2) (hf ▸ hx)) engine w'
      hw.2
  cases hm : w.member? engine makerName with
  | none => exact .throw fun _ hw => ⟨h.ordinary rfl, hw.2⟩
  | some x =>
    cases x with
    | maker script last =>
      have hbad : P w → ∀ {f}, last.making? = some f ∨ last.setting? = some f → F f :=
        fun hw _ => h.bare hw hm
      refine .bind (R := fun _ w' => P w ∧ P w')
        (.modify fun _ hw => ⟨hw.1 ▸ hw.2, h.noted _ hw.2⟩) fun _ => ?_
      cases hmaking : last.making? with
      | some f => exact .throwBind fun _ hw => ⟨hbad hw.1 (.inl hmaking), hw.2⟩
      | none =>
        refine .bind (R := fun _ w' => P w ∧ P w') (.modifyGet fun _ hw => ⟨hw.1, h.added _ hw.2⟩)
          fun parser => ?_
        refine .bind (R := fun _ w' => P w ∧ P w') (.modify fun _ hw => ⟨hw.1, h.noted _ hw.2⟩)
          fun _ => ?_
        cases hsetting : last.setting? with
        | some f => exact .throwBind fun _ hw => ⟨hbad hw.1 (.inr hsetting), hw.2⟩
        | none =>
          exact .bind (R := fun _ => P) (.modify fun _ hw => h.rebound parser g hw.2) fun _ =>
            .pure fun _ => id
    | pointer p => exact hcall (.pointer p) hm
    | raising f => exact hcall (.raising f) hm
    | value v => exact hcall (.value v) hm
    | inner i => exact hcall (.inner i) hm
    | compiler script => exact hcall (.compiler script) hm

/-- Making a parser, in either way. -/
theorem meets_bindParser (h : KeptByBinding F P) :
    Meets P (bindParser engine g) (fun _ => P) fun f w => F f ∧ P w :=
  .tryCatch h.meets_makeBound fun _ => .ite
    (fun _ => h.meets_makeBare.mono (fun _ hw => hw.2) (fun _ _ => id) fun _ _ => id)
    fun _ => .throw fun _ => id

end KeptByBinding

/-- All that is done in a world keeps it as it is said. -/
structure KeptByWork (F : Fault → Prop) (G : Grammar → Prop) (P : World → Prop) : Prop
    extends KeptByFetches F G P where
  bound : ∀ engine g, Meets P (bindParser engine g) (fun _ => P) fun _ => P

/-- What is kept in two respects is kept in both. -/
theorem KeptByWork.and {F' : Fault → Prop} {G' : Grammar → Prop} (h : KeptByWork F G P)
    (h' : KeptByWork F' G' P') : KeptByWork (fun _ => True) (fun _ => True) fun w => P w ∧ P' w where
  ordinary _ := trivial
  noted e hw := ⟨h.noted e hw.1, h'.noted e hw.2⟩
  imported hw hg hfresh := ⟨h.imported hw.1 hg hfresh, h'.imported hw.2 hg hfresh⟩
  raised _ _ _ _ := trivial
  placed hw hc hp := ⟨h.placed hw.1 hc hp, h'.placed hw.2 hc hp⟩
  raising _ _ := trivial
  compiled hw hm := ⟨h.compiled hw.1 hm, h'.compiled hw.2 hm⟩
  answered _ _ := by split <;> simp
  added pointer hw := ⟨h.added pointer hw.1, h'.added pointer hw.2⟩
  parsed hw hs := ⟨h.parsed hw.1 hs, h'.parsed hw.2 hs⟩
  bound engine g := (((h.bound engine g).mono (fun _ => And.left) (fun _ _ => id) fun _ _ => id).and
    ((h'.bound engine g).mono (fun _ => And.right) (fun _ _ => id) fun _ _ => id))

/-- The parsers that have been made stay, bound as they are. -/
theorem keptByWork_parsers (ps : List Grammar) :
    KeptByWork (fun _ => True) (fun _ => True) fun w => ps <+: w.parsers where
  toKeptByFetches := keptByFetches_parsers fun qs => ps <+: qs
  bound engine g := by
    intro w hw
    have hmore : ∀ {qs : List Grammar}, ps <+: w.parsers ++ qs := hw.trans (List.prefix_append ..)
    have hmeets : Meets (·.parsers = w.parsers) (bindParser engine g) (fun _ w' => ps <+: w'.parsers)
        fun _ w' => ps <+: w'.parsers := by
      refine meets_bindParser.mono (fun _ => id) (fun _ w' hw' => hw'.2 ▸ hmore) fun _ w' hw' => ?_
      rcases hw' with hw' | hw'
      · exact hw' ▸ hw
      · exact hw' ▸ hmore
    exact hmeets w rfl

/-- The pointers from which grammars have been compiled stay. -/
theorem keptByWork_pointers (ps : List Json) :
    KeptByWork (fun _ => True) (fun _ => True) fun w => ps <+: w.pointers where
  ordinary _ := trivial
  noted _ h := h
  imported h _ _ := h
  raised _ _ _ _ := trivial
  placed h _ _ := h
  raising _ _ := trivial
  compiled h _ := h
  answered _ _ := by split <;> simp
  added _ h := h.trans (List.prefix_append ..)
  parsed h _ := h
  bound engine g := (KeptByBinding.meets_bindParser (F := fun _ => True)
    ⟨fun _ => trivial, fun _ => id, fun h _ => h, fun _ => id, fun _ _ => id, fun _ _ => trivial,
      fun _ _ _ => trivial, fun _ _ _ => trivial⟩).mono (fun _ => id) (fun _ _ => id) fun _ _ h => h.2

/-- Nothing is done to the files. -/
theorem keptByWork_files (files : Keyed String File) :
    KeptByWork (fun _ => True) (fun _ => True) fun w => w.files = files where
  ordinary _ := trivial
  noted _ h := h
  imported h _ _ := h
  raised _ _ _ _ := trivial
  placed h _ _ := h
  raising _ _ := trivial
  compiled h _ := h
  answered _ _ := by split <;> simp
  added _ h := h
  parsed h _ := h
  bound engine g := (KeptByBinding.meets_bindParser (F := fun _ => True)
    ⟨fun _ => trivial, fun _ => id, fun h _ => h, fun _ => id, fun _ _ => id, fun _ _ => trivial,
      fun _ _ _ => trivial, fun _ _ _ => trivial⟩).mono (fun _ => id) (fun _ _ => id) fun _ _ h => h.2

end SourceTrees.Attempt
