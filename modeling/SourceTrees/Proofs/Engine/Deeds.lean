import Mathlib.Data.List.Forall2
import SourceTrees.Proofs.Engine.Answering

/-!
# What is done for one language, and what for others

In a world grammars are fetched, parsers made and sources parsed for several languages.  What comes of it for
one language may depend on what was done for the others, since they share the engine.  It does not if it is
the same once all that was done for the others is left out.

## Protocol

* A **ledger** is a world with the grammars that were fetched and the parsers that were made for one language,
  in order.  A **deed** is something done in it; deeds for the language go by the order of its grammars and
  parsers, so that they can be done in another world too.
* Availability is looked up for no language in particular; that is not left out.
* Which number a grammar or a parser gets depends on the others.  Two worlds are in **accord** about pairs of
  grammars and of parsers if these are one to one, the grammars of a pair come from the same pointer, and the
  parsers of a pair are bound to the grammars of one.

## Results

* `Ledger.Independent` — what comes of the deeds for the language does not depend on those for others.
* `World.Accord` — accord; `World.Accord.fetch`, `World.Accord.bind` — what is made alike is in accord.
* `World.Twin` — a world, and what it would be if the deeds for others had been left out.
* **`World.Twin.fetch`**, `World.Twin.bind`, `World.Twin.parse`, … — what is done for the language comes to the
  same in both; `World.Twin.other` — what is done for others need not be done.
* **`World.Accord.independent`** — in a world in which everything is fixed languages are independent.
-/

set_option autoImplicit false

namespace SourceTrees

variable {w w' w₁ w₁' : World} {g g' : Grammar} {p p' : Nat}

theorem getElem?_of_extends {α : Type} {xs ys : List α} (h : xs <+: ys) {n : Nat} (hn : n < xs.length) :
    ys[n]? = xs[n]? := by
  obtain ⟨zs, rfl⟩ := h
  exact List.getElem?_append_left hn

/-! ## Pairs -/

/-- The pairs are one to one. -/
def OneToOne {α β : Type} (es : List (α × β)) : Prop := ∀ e ∈ es, ∀ e' ∈ es, e.1 = e'.1 ↔ e.2 = e'.2

theorem OneToOne.snoc {α β : Type} {es : List (α × β)} {a : α} {b : β} (h : OneToOne es)
    (hnew : ∀ e ∈ es, e.1 = a ↔ e.2 = b) : OneToOne (es ++ [(a, b)]) := by
  intro e he e' he'
  rw [List.mem_append, List.mem_singleton] at he he'
  rcases he with he | rfl <;> rcases he' with he' | rfl
  · exact h e he e' he'
  · exact hnew e he
  · rw [eq_comm, hnew e' he', eq_comm]
  · exact ⟨fun _ => rfl, fun _ => rfl⟩

theorem map_fst_self {α : Type} (as : List α) : (as.map fun a => (a, a)).map Prod.fst = as := by
  simp [Function.comp_def]

theorem map_snd_self {α : Type} (as : List α) : (as.map fun a => (a, a)).map Prod.snd = as := by
  simp [Function.comp_def]

/-! ## Grammars and parsers of two worlds -/

namespace World

/-- The pointer that a grammar was compiled from; none for the null grammar. -/
def origin? (w : World) (g : Grammar) : Option Json := g.bind fun n => w.pointers[n - 1]?

/-- The grammar is one of the world, or null. -/
def Knows (w : World) (g : Grammar) : Prop := ∀ n, g = some n → n - 1 < w.pointers.length

theorem pointerOf_eq (w : World) (g : Grammar) : w.pointerOf g = (w.origin? g).getD .null := by
  cases g <;> rfl

/-- Nothing is lost, and nobody touches the files. -/
structure Grows (w w' : World) : Prop where
  pointers : w.pointers <+: w'.pointers
  parsers : w.parsers <+: w'.parsers
  files : w'.files = w.files

theorem Grows.refl (w : World) : w.Grows w := ⟨List.prefix_refl _, List.prefix_refl _, rfl⟩

theorem Grows.knows (h : w.Grows w') (hg : w.Knows g) : w'.Knows g := fun n he =>
  Nat.lt_of_lt_of_le (hg n he) h.pointers.length_le

theorem Grows.origin? (h : w.Grows w') (hg : w.Knows g) : w'.origin? g = w.origin? g := by
  cases g with
  | none => rfl
  | some n => exact getElem?_of_extends h.pointers (hg n rfl)

theorem Grows.grammarOf (h : w.Grows w') (hp : p - 1 < w.parsers.length) :
    w'.grammarOf p = w.grammarOf p := by
  unfold World.grammarOf
  rw [getElem?_of_extends h.parsers hp]

/-- Grammars of two worlds that were compiled from the same pointer. -/
structure SameGrammar (w w' : World) (g g' : Grammar) : Prop where
  known : w.Knows g
  known' : w'.Knows g'
  origin : w'.origin? g' = w.origin? g

theorem SameGrammar.grow (h : SameGrammar w w' g g') (hg : w.Grows w₁) (hg' : w'.Grows w₁') :
    SameGrammar w₁ w₁' g g' where
  known := hg.knows h.known
  known' := hg'.knows h.known'
  origin := by rw [hg'.origin? h.known', hg.origin? h.known, h.origin]

/-- The null grammar was compiled from no pointer. -/
theorem SameGrammar.none_iff (h : SameGrammar w w' g g') : g = none ↔ g' = none := by
  have ho := h.origin
  have hsome : ∀ {w : World} {n : Nat}, w.Knows (some n) → w.origin? (some n) ≠ none := fun hk =>
    mt List.getElem?_eq_none_iff.1 (Nat.not_le.2 (hk _ rfl))
  cases g with
  | none =>
    cases g' with
    | none => exact ⟨fun _ => rfl, fun _ => rfl⟩
    | some n' => exact absurd ho (hsome h.known')
  | some n =>
    cases g' with
    | none => exact absurd ho.symm (hsome h.known)
    | some n' => exact ⟨nofun, nofun⟩

/-- The grammars are of a pair, or null. -/
def Among (gs : List (Grammar × Grammar)) (g g' : Grammar) : Prop := g = none ∧ g' = none ∨ (g, g') ∈ gs

theorem Among.extend {gs gs₁ : List (Grammar × Grammar)} (h : Among gs g g') (hgs : gs <+: gs₁) :
    Among gs₁ g g' := h.imp_right fun hm => hgs.subset hm

/-- Grammars of a pair come from the same pointer, parsers of a pair are bound to grammars of one, pairs are
    one to one, and there are the same files. -/
structure Accord (gs : List (Grammar × Grammar)) (ps : List (Nat × Nat)) (w w' : World) : Prop where
  grammars : ∀ {g g'}, (g, g') ∈ gs → SameGrammar w w' g g'
  made : ∀ {p p'}, (p, p') ∈ ps → p - 1 < w.parsers.length ∧ p' - 1 < w'.parsers.length
  bound : ∀ {p p'}, (p, p') ∈ ps → Among gs (w.grammarOf p) (w'.grammarOf p')
  oneGrammar : OneToOne gs
  oneParser : OneToOne ps
  files : w'.files = w.files

end World

namespace Attempt

variable {F : Fault → Prop} {G : Grammar → Prop}

/-- Everything that is done in a world lets it grow. -/
theorem keptByWork_grows (w : World) : KeptByWork (fun _ => True) (fun _ => True) w.Grows := by
  have h := (keptByWork_pointers w.pointers).and ((keptByWork_parsers w.parsers).and (keptByWork_files w.files))
  have he : w.Grows = fun w' => w.pointers <+: w'.pointers ∧ w.parsers <+: w'.parsers ∧ w'.files = w.files :=
    funext fun w' => propext ⟨fun h => ⟨h.pointers, h.parsers, h.files⟩, fun h => ⟨h.1, h.2.1, h.2.2⟩⟩
  rw [he]
  exact h

/-- A grammar that is fetched is a new one of the world, or null. -/
theorem meets_fetchGrammar_new (ps : List Json) (engine locator : String) :
    Meets (ps <+: ·.pointers) (fetchGrammar engine locator)
      (fun g w => ∀ n, g = some n → ps.length ≤ n - 1 ∧ n - 1 < w.pointers.length) fun _ _ => True := by
  have hkept := (keptByWork_pointers ps).toKeptByFetches
  have hcompiles : ∀ pointer, Meets (ps <+: ·.pointers) (compile engine pointer)
      (fun g w => ∀ n, g = some n → ps.length ≤ n - 1 ∧ n - 1 < w.pointers.length) fun _ _ => True := by
    intro pointer
    refine .bind (R := fun _ w => ps <+: w.pointers) (fun _ hw => hw) fun w => ?_
    cases w.member? engine compilerName with
    | none => exact .throw fun _ _ => trivial
    | some m =>
      cases m with
      | compiler script =>
        dsimp only
        generalize script.next .grammar = x
        obtain ⟨o, script'⟩ := x
        refine .bind (R := fun _ w => ps <+: w.pointers) (.modify fun _ hw => hw) fun _ => ?_
        cases o with
        | grammar =>
          refine .modifyGet fun w' hw n hn => ?_
          cases hn
          exact ⟨hw.length_le, by simp [World.addGrammar]⟩
        | null => exact .pure fun _ _ => nofun
        | fault f => exact .throw fun _ _ => trivial
      | _ => exact .throw fun _ _ => trivial
  unfold fetchGrammar
  cases Language.Locator.parse? locator with
  | none => exact .throw fun _ _ => trivial
  | some l =>
    refine .bind ((meets_importModule hkept.toKeptByImports fun _ _ => trivial).mono (fun _ => id)
      (fun _ _ => id) fun _ _ _ => trivial) fun _ => ?_
    exact .bind ((meets_callPointer hkept l).mono (fun _ => id) (fun _ _ => id) fun _ _ _ => trivial)
      fun _ => hcompiles _

section

variable {P : World → Prop} (h : KeptByWork F G P) (hw : P w)

include h hw

/-- What is fetched or made, parsed or looked up keeps what all work keeps. -/
theorem KeptByWork.fetched (engine locator : String) : P ((fetchGrammar engine locator).run w).2 :=
  ((meets_fetchGrammar h.toKeptByFetches engine locator).mono (fun _ => id) (fun _ _ h => h.2)
    fun _ _ h => h.2).world hw

theorem KeptByWork.made (engine : String) (g : Grammar) : P ((bindParser engine g).run w).2 :=
  (h.bound engine g).world hw

theorem KeptByWork.ran (parser : Nat) (source : List UInt8) : P ((parse parser source).run w).2 :=
  (keeps_parse h.toKeptByFetches parser source).world hw

theorem KeptByWork.probed (table : LocatorTable) : P ((Warmup.availability table).run w).2 :=
  (keeps_availability h.toKeptByImports table).world hw

end

theorem grows_fetch (engine locator : String) (w : World) :
    w.Grows ((fetchGrammar engine locator).run w).2 := (keptByWork_grows w).fetched (.refl w) engine locator

theorem grows_bind (engine : String) (g : Grammar) (w : World) : w.Grows ((bindParser engine g).run w).2 :=
  (keptByWork_grows w).made (.refl w) engine g

theorem grows_parse (parser : Nat) (source : List UInt8) (w : World) :
    w.Grows ((parse parser source).run w).2 := (keptByWork_grows w).ran (.refl w) parser source

theorem grows_probe (table : LocatorTable) (w : World) : w.Grows ((Warmup.availability table).run w).2 :=
  (keptByWork_grows w).probed (.refl w) table

theorem grows_note (e : Event) (w : World) : w.Grows (w.note e) := (keptByWork_grows w).noted e (.refl w)

end Attempt


namespace World

namespace Accord

variable {gs : List (Grammar × Grammar)} {ps : List (Nat × Nat)} {r r' : Except Fault Grammar}
  {b b' : Except Fault Nat} {engine locator : String}

/-- Worlds that grow stay in accord. -/
theorem grow (h : Accord gs ps w w') (hw : w.Grows w₁) (hw' : w'.Grows w₁') : Accord gs ps w₁ w₁' where
  grammars hg := (h.grammars hg).grow hw hw'
  made hp := ⟨Nat.lt_of_lt_of_le (h.made hp).1 hw.parsers.length_le,
    Nat.lt_of_lt_of_le (h.made hp).2 hw'.parsers.length_le⟩
  bound hp := by
    rw [hw.grammarOf (h.made hp).1, hw'.grammarOf (h.made hp).2]
    exact h.bound hp
  oneGrammar := h.oneGrammar
  oneParser := h.oneParser
  files := by rw [hw'.files, h.files, hw.files]

/-- Corresponding grammars come from the same pointer. -/
theorem sameGrammar (h : Accord gs ps w w') (hg : Among gs g g') : SameGrammar w w' g g' := by
  rcases hg with ⟨rfl, rfl⟩ | hg
  · exact ⟨nofun, nofun, rfl⟩
  · exact h.grammars hg

/-- Grammars that are fetched from the same pointer come to be a pair. -/
theorem fetch (h : Accord gs ps w w') (hr : (Attempt.fetchGrammar engine locator).run w = (.ok g, w₁))
    (hr' : (Attempt.fetchGrammar engine locator).run w' = (.ok g', w₁'))
    (ho : w₁'.origin? g' = w₁.origin? g) : Accord (gs ++ [(g, g')]) ps w₁ w₁' := by
  have hnew : ∀ {w₀ w₁ g}, (Attempt.fetchGrammar engine locator).run w₀ = (.ok g, w₁) → ∀ n, g = some n →
      w₀.pointers.length ≤ n - 1 ∧ n - 1 < w₁.pointers.length := fun {w₀ _ _} hrun => by
    have hmeets := Attempt.meets_fetchGrammar_new w₀.pointers engine locator w₀ (List.prefix_refl _)
    rw [hrun] at hmeets
    exact hmeets
  have hw := Attempt.grows_fetch engine locator w
  have hw' := Attempt.grows_fetch engine locator w'
  rw [hr] at hw
  rw [hr'] at hw'
  have hgrown := h.grow hw hw'
  have hsame : SameGrammar w₁ w₁' g g' := ⟨fun n hn => (hnew hr n hn).2, fun n hn => (hnew hr' n hn).2, ho⟩
  refine {
    grammars := fun hg => ?_
    made := hgrown.made
    bound := fun hp => (hgrown.bound hp).extend (List.prefix_append _ _)
    oneGrammar := hgrown.oneGrammar.snoc fun e he => ?_
    oneParser := hgrown.oneParser
    files := hgrown.files }
  · rcases List.mem_append.1 hg with hg | hg
    · exact hgrown.grammars hg
    · cases List.mem_singleton.1 hg
      exact hsame
  · have hold : SameGrammar w w' e.1 e.2 := h.grammars he
    -- A new grammar has a number that no other had before.
    cases g with
    | none => rw [hsame.none_iff.1 rfl, hold.none_iff]
    | some n =>
      cases g' with
      | none => cases hsame.none_iff.2 rfl
      | some n' =>
        exact ⟨fun hn => absurd (hold.known n hn) (Nat.not_lt.2 (hnew hr n rfl).1),
          fun hn => absurd (hold.known' n' hn) (Nat.not_lt.2 (hnew hr' n' rfl).1)⟩

/-- Parsers that are made for corresponding grammars come to be a pair. -/
theorem bind (h : Accord gs ps w w') (hg : Among gs g g')
    (hr : (Attempt.bindParser engine g).run w = (.ok p, w₁))
    (hr' : (Attempt.bindParser engine g').run w' = (.ok p', w₁')) : Accord gs (ps ++ [(p, p')]) w₁ w₁' := by
  have hmade : ∀ {w₀ w₁ g p}, (Attempt.bindParser engine g).run w₀ = (.ok p, w₁) →
      Attempt.Binds w₀.parsers g p w₁ := fun {w₀ w₁ g p} hrun => by
    have hmeets := @Attempt.meets_bindParser engine g w₀.parsers w₀ rfl
    rw [hrun] at hmeets
    exact hmeets
  have hlast : ∀ {w₀ w₁ : World} {g p}, Attempt.Binds w₀.parsers g p w₁ →
      p - 1 = w₀.parsers.length ∧ p - 1 < w₁.parsers.length ∧ w₁.grammarOf p = g := by
    rintro w₀ w₁ g p ⟨rfl, hps⟩
    unfold World.grammarOf
    rw [hps]
    simp
  have hw := Attempt.grows_bind engine g w
  have hw' := Attempt.grows_bind engine g' w'
  rw [hr] at hw
  rw [hr'] at hw'
  have hgrown := h.grow hw hw'
  obtain ⟨hnew, hlt, hof⟩ := hlast (hmade hr)
  obtain ⟨hnew', hlt', hof'⟩ := hlast (hmade hr')
  refine {
    grammars := hgrown.grammars
    made := fun hp => ?_
    bound := fun hp => ?_
    oneGrammar := hgrown.oneGrammar
    oneParser := hgrown.oneParser.snoc fun e he => ?_
    files := hgrown.files }
  · rcases List.mem_append.1 hp with hp | hp
    · exact hgrown.made hp
    · cases List.mem_singleton.1 hp
      exact ⟨hlt, hlt'⟩
  · rcases List.mem_append.1 hp with hp | hp
    · exact hgrown.bound hp
    · cases List.mem_singleton.1 hp
      rwa [hof, hof']
  · have hold : e.1 - 1 < w.parsers.length ∧ e.2 - 1 < w'.parsers.length := h.made he
    constructor
    · intro he
      rw [he, hnew] at hold
      exact absurd hold.1 (Nat.lt_irrefl _)
    · intro he
      rw [he, hnew'] at hold
      exact absurd hold.2 (Nat.lt_irrefl _)

end Accord

end World

/-! ## Deeds -/

/-- Something done in a world: looking up availability; fetching the grammar of the language, making a parser
    for a grammar, parsing with a parser, and lending one; and the same for other languages. -/
inductive Deed where
  | probe (table : LocatorTable)
  | fetch
  | bind (grammar : Nat)
  | parse (parser : Nat) (source : List UInt8)
  | lend (holder : String) (parser : Nat)
  | fetchOther (language : String)
  | bindOther (g : Grammar)
  | parseOther (parser : Nat) (source : List UInt8)
  | lendOther (holder : String) (parser : Nat)

/-- Is the deed done for another language? -/
def Deed.isOther : Deed → Bool
  | fetchOther _ | bindOther _ | parseOther .. | lendOther .. => true
  | _ => false

/-- What comes of a deed for the language: a grammar by the pointer that it was compiled from, a parser, the
    root of a tree or no tree, or a fault. -/
inductive Deed.Outcome where
  | grammar (origin : Option Json)
  | parser
  | tree (root : Option Node)
  | fault (f : Fault)

/-- What comes of something that was tried. -/
def Deed.told {α : Type} (f : α → Outcome) : Except Fault α → Outcome
  | .ok a => f a
  | .error f => .fault f

/-- The same comes of two attempts if they raise the same fault, or give values of which the same is told. -/
theorem Deed.told_eq {α : Type} {f f' : α → Outcome} {r r' : Except Fault α} (h : told f r = told f' r')
    (hf : ∀ a e, f a ≠ .fault e) (hf' : ∀ a e, f' a ≠ .fault e) :
    (∃ e, r = .error e ∧ r' = .error e) ∨ ∃ a a', r = .ok a ∧ r' = .ok a' ∧ f a = f' a' := by
  cases r with
  | error e =>
    cases r' with
    | error e' =>
      cases h
      exact .inl ⟨e, rfl, rfl⟩
    | ok a' => exact absurd h.symm (hf' a' e)
  | ok a =>
    cases r' with
    | error e' => exact absurd h (hf a e')
    | ok a' => exact .inr ⟨a, a', rfl, rfl, h⟩

/-- A world, and the grammars and parsers of one language in it, in order. -/
structure Ledger where
  world : World
  grammars : List Grammar
  parsers : List Nat

namespace Ledger

section

variable (c : Config) (engine language : String)

/-- Does a deed, and tells what comes of it if it is one for the language.  A parser that there is not does
    nothing. -/
def act (x : Ledger) : Deed → Option Deed.Outcome × Ledger
  | .probe table => (none, { x with world := ((Warmup.availability table).run x.world).2 })
  | .fetch =>
    let (r, world) := (Attempt.fetchGrammar engine ((c.locators.get? language).getD "")).run x.world
    (some (Deed.told (fun g => .grammar (world.origin? g)) r),
      { x with world, grammars := x.grammars ++ r.toOption.toList })
  | .bind i =>
    let (r, world) := (Attempt.bindParser engine (x.grammars[i]?.getD none)).run x.world
    (some (Deed.told (fun _ => .parser) r), { x with world, parsers := x.parsers ++ r.toOption.toList })
  | .parse i source =>
    match x.parsers[i]? with
    | none => (none, x)
    | some parser =>
      let (r, world) := (Attempt.parse parser source).run x.world
      (some (Deed.told .tree r), { x with world })
  | .lend holder i =>
    match x.parsers[i]? with
    | none => (none, x)
    | some parser => (none, { x with world := x.world.note (.leased holder parser) })
  | .fetchOther other =>
    (none, { x with
      world := ((Attempt.fetchGrammar engine ((c.locators.get? other).getD "")).run x.world).2 })
  | .bindOther g => (none, { x with world := ((Attempt.bindParser engine g).run x.world).2 })
  | .parseOther parser source => (none, { x with world := ((Attempt.parse parser source).run x.world).2 })
  | .lendOther holder parser => (none, { x with world := x.world.note (.leased holder parser) })

/-- The ledger after deeds. -/
def after (x : Ledger) (ds : List Deed) : Ledger := ds.foldl (fun x d => (x.act c engine language d).2) x

/-- What comes of the deeds for the language, one after the other. -/
def outcomes : Ledger → List Deed → List Deed.Outcome
  | _, [] => []
  | x, d :: ds => (x.act c engine language d).1.toList ++ outcomes (x.act c engine language d).2 ds

/-- **What comes of the deeds for the language does not depend on those for others**: it is the same if they
    are left out. -/
def Independent (x : Ledger) : Prop :=
  ∀ ds : List Deed, .fetchOther language ∉ ds →
    x.outcomes c engine language (ds.filter (!·.isOther)) = x.outcomes c engine language ds

/-- The second ledger is what the first would be if the deeds for others had been left out. -/
def Without (x₀ x x' : Ledger) : Prop :=
  ∃ ds : List Deed, .fetchOther language ∉ ds ∧ x = x₀.after c engine language ds ∧
    x' = x₀.after c engine language (ds.filter (!·.isOther))

end

variable {c : Config} {engine language : String} {x x' x₀ : Ledger} {d : Deed}

theorem after_snoc (x : Ledger) (ds : List Deed) (d : Deed) :
    x.after c engine language (ds ++ [d]) = ((x.after c engine language ds).act c engine language d).2 := by
  simp [after]

theorem outcomes_snoc (ds : List Deed) (d : Deed) : ∀ x : Ledger,
    x.outcomes c engine language (ds ++ [d]) = x.outcomes c engine language ds ++
      ((x.after c engine language ds).act c engine language d).1.toList := by
  induction ds with
  | nil => exact fun x => List.append_nil _
  | cons e ds ih =>
    intro x
    show _ ++ outcomes c engine language _ (ds ++ [d]) = (_ ++ outcomes c engine language _ ds) ++ _
    rw [ih, List.append_assoc]
    rfl

theorem Without.refl (x : Ledger) : Without c engine language x x x := ⟨[], nofun, rfl, rfl⟩

/-- A deed that is done in both comes to the same. -/
theorem Without.own (h : Without c engine language x₀ x x') (hx : x₀.Independent c engine language)
    (hd : d.isOther = false) : (x'.act c engine language d).1 = (x.act c engine language d).1 ∧
      Without c engine language x₀ (x.act c engine language d).2 (x'.act c engine language d).2 := by
  obtain ⟨ds, hds, rfl, rfl⟩ := h
  have hne : .fetchOther language ∉ ds ++ [d] := by
    rintro hm
    rcases List.mem_append.1 hm with hm | hm
    · exact hds hm
    · rw [← List.mem_singleton.1 hm] at hd
      cases hd
  have hfilter : (ds ++ [d]).filter (!·.isOther) = ds.filter (!·.isOther) ++ [d] := by
    rw [List.filter_append, List.filter_cons_of_pos (by simp [hd]), List.filter_nil]
  refine ⟨?_, ds ++ [d], hne, (after_snoc ..).symm, by rw [hfilter, after_snoc]⟩
  have hall := hx (ds ++ [d]) hne
  rw [hfilter, outcomes_snoc, outcomes_snoc, hx ds hds, List.append_cancel_left_eq] at hall
  generalize (act c engine language _ d).1 = o' at hall ⊢
  generalize (act c engine language _ d).1 = o at hall ⊢
  cases o <;> cases o' <;> simp_all

/-- A deed for another language need not be done. -/
theorem Without.other (h : Without c engine language x₀ x x') (hd : d.isOther = true)
    (hne : d ≠ .fetchOther language) : Without c engine language x₀ (x.act c engine language d).2 x' := by
  obtain ⟨ds, hds, rfl, rfl⟩ := h
  refine ⟨ds ++ [d], fun hm => ?_, (after_snoc ..).symm, ?_⟩
  · rcases List.mem_append.1 hm with hm | hm
    · exact hds hm
    · exact hne (List.mem_singleton.1 hm).symm
  · rw [List.filter_append, List.filter_cons_of_neg (by simp [hd]), List.filter_nil, List.append_nil]

/-- Whatever is done keeps what all work keeps. -/
theorem keeps_act {F : Fault → Prop} {G : Grammar → Prop} {P : World → Prop}
    (h : Attempt.KeptByWork F G P) (hx : P x.world) (d : Deed) :
    P (x.act c engine language d).2.world := by
  cases d with
  | probe table => exact h.probed hx table
  | fetch | fetchOther other => exact h.fetched hx ..
  | bind i => exact h.made hx ..
  | bindOther g => exact h.made hx ..
  | parse i source =>
    simp only [act]
    split
    · exact hx
    · exact h.ran hx ..
  | parseOther parser source => exact h.ran hx ..
  | lend holder i =>
    simp only [act]
    split
    · exact hx
    · exact h.noted _ hx
  | lendOther => exact h.noted _ hx

/-- A deed for another language makes no grammar and no parser of the language. -/
theorem act_other (x : Ledger) (hd : d.isOther = true) :
    x.act c engine language d = (none, { x with world := (x.act c engine language d).2.world }) := by
  cases d with
  | fetchOther | bindOther | parseOther | lendOther => rfl
  | _ => cases hd

end Ledger

/-! ## Twins -/

namespace World

variable {gs : List (Grammar × Grammar)} {ps : List (Nat × Nat)} {c : Config} {engine language : String}
  {x₀ : Ledger} {r r' : Except Fault Grammar} {b b' : Except Fault Nat} {n n' : Except Fault (Option Node)}

/-- The first world of a pair, with the grammars and parsers that correspond to others. -/
abbrev ledger (w : World) (gs : List (Grammar × Grammar)) (ps : List (Nat × Nat)) : Ledger :=
  ⟨w, gs.map Prod.fst, ps.map Prod.fst⟩

/-- The second world of a pair. -/
abbrev ledger' (w' : World) (gs : List (Grammar × Grammar)) (ps : List (Nat × Nat)) : Ledger :=
  ⟨w', gs.map Prod.snd, ps.map Prod.snd⟩

/-- The second world is what the first would be if the deeds for others had been left out, and they are in
    accord. -/
structure Twin (c : Config) (engine language : String) (x₀ : Ledger) (gs : List (Grammar × Grammar))
    (ps : List (Nat × Nat)) (w w' : World) : Prop extends Accord gs ps w w' where
  without : Ledger.Without c engine language x₀ (w.ledger gs ps) (w'.ledger' gs ps)

/-- A ledger whose parsers are bound to its grammars is in accord with itself. -/
theorem Accord.refl {x : Ledger} (hg : ∀ g ∈ x.grammars, x.world.Knows g)
    (hp : ∀ p ∈ x.parsers, p - 1 < x.world.parsers.length)
    (hb : ∀ p ∈ x.parsers, x.world.grammarOf p = none ∨ x.world.grammarOf p ∈ x.grammars) :
    Accord (x.grammars.map fun g => (g, g)) (x.parsers.map fun p => (p, p)) x.world x.world := by
  have hself : ∀ {α : Type} {as : List α} {a b : α}, (a, b) ∈ as.map (fun a => (a, a)) → a ∈ as ∧ b = a := by
    intro α as a b h
    obtain ⟨a', ha, he⟩ := List.mem_map.1 h
    cases he
    exact ⟨ha, rfl⟩
  have hone : ∀ {α : Type} (as : List α), OneToOne (as.map fun a => (a, a)) := by
    intro α as e he e' he'
    rw [(hself (a := e.1) (b := e.2) he).2, (hself (a := e'.1) (b := e'.2) he').2]
  refine ⟨fun {g g'} h => ?_, fun {p p'} h => ?_, fun {p p'} h => ?_, hone _, hone _, rfl⟩
  · obtain ⟨hm, rfl⟩ := hself h
    exact ⟨hg g' hm, hg g' hm, rfl⟩
  · obtain ⟨hm, rfl⟩ := hself h
    exact ⟨hp p' hm, hp p' hm⟩
  · obtain ⟨hm, rfl⟩ := hself h
    exact (hb p' hm).imp (fun h => ⟨h, h⟩) fun h => List.mem_map.2 ⟨_, h, rfl⟩

/-- Corresponding grammars stand in the same place. -/
theorem Among.getElem? (h : Among gs g g') :
    ∃ i : Nat, (gs.map Prod.fst)[i]?.getD none = g ∧ (gs.map Prod.snd)[i]?.getD none = g' := by
  rcases h with ⟨rfl, rfl⟩ | h
  · exact ⟨gs.length, by simp, by simp⟩
  · obtain ⟨i, hi⟩ := List.mem_iff_getElem?.1 h
    exact ⟨i, by simp [hi], by simp [hi]⟩

namespace Twin

theorem refl {x : Ledger} (h : Accord (x.grammars.map fun g => (g, g)) (x.parsers.map fun p => (p, p))
    x.world x.world) : Twin c engine language x (x.grammars.map fun g => (g, g))
      (x.parsers.map fun p => (p, p)) x.world x.world where
  toAccord := h
  without := by
    rw [ledger, ledger', map_fst_self, map_fst_self, map_snd_self, map_snd_self]
    exact .refl x

/-- A deed for another language need not be done. -/
theorem other (h : Twin c engine language x₀ gs ps w w') {d : Deed} (hd : d.isOther = true)
    (hne : d ≠ .fetchOther language) :
    Twin c engine language x₀ gs ps ((w.ledger gs ps).act c engine language d).2.world w' where
  toAccord := h.grow (Ledger.keeps_act (Attempt.keptByWork_grows w) (.refl w) d) (.refl _)
  without := by
    have hw := h.without.other hd hne
    rwa [Ledger.act_other _ hd] at hw

/-- Availability is looked up in both. -/
theorem probe (h : Twin c engine language x₀ gs ps w w') (hx : x₀.Independent c engine language)
    (table : LocatorTable) :
    Twin c engine language x₀ gs ps ((Warmup.availability table).run w).2
      ((Warmup.availability table).run w').2 where
  toAccord := h.grow (Attempt.grows_probe table w) (Attempt.grows_probe table w')
  without := (h.without.own hx (d := .probe table) rfl).2

/-- Corresponding parsers stand in the same place. -/
theorem exists_place (hp : (p, p') ∈ ps) :
    ∃ i : Nat, (ps.map Prod.fst)[i]? = some p ∧ (ps.map Prod.snd)[i]? = some p' := by
  obtain ⟨i, hi⟩ := List.mem_iff_getElem?.1 hp
  exact ⟨i, by simp [hi], by simp [hi]⟩

/-- A parser is lent. -/
theorem lend (h : Twin c engine language x₀ gs ps w w') (hx : x₀.Independent c engine language)
    (hp : (p, p') ∈ ps) (holder : String) :
    Twin c engine language x₀ gs ps (w.note (.leased holder p)) (w'.note (.leased holder p')) where
  toAccord := h.grow (Attempt.grows_note ..) (Attempt.grows_note ..)
  without := by
    obtain ⟨i, hi, hi'⟩ := exists_place hp
    have hown := (h.without.own hx (d := .lend holder i) rfl).2
    simp only [Ledger.act, hi, hi'] at hown
    exact hown

/-- **A grammar is fetched in both, and comes from the same pointer, or the same fault is raised.** -/
theorem fetch (h : Twin c engine language x₀ gs ps w w') (hx : x₀.Independent c engine language)
    (hr : (Attempt.fetchGrammar engine ((c.locators.get? language).getD "")).run w = (r, w₁))
    (hr' : (Attempt.fetchGrammar engine ((c.locators.get? language).getD "")).run w' = (r', w₁')) :
    (∃ f, r = .error f ∧ r' = .error f ∧ Twin c engine language x₀ gs ps w₁ w₁') ∨
      ∃ g g', r = .ok g ∧ r' = .ok g' ∧ Twin c engine language x₀ (gs ++ [(g, g')]) ps w₁ w₁' := by
  obtain ⟨he, hown⟩ := h.without.own hx (d := .fetch) rfl
  simp only [Ledger.act, hr, hr', Option.some.injEq] at he hown
  have hcases := Deed.told_eq he.symm (fun _ _ h => by cases h) fun _ _ h => by cases h
  rcases hcases with ⟨f, rfl, rfl⟩ | ⟨g, g', rfl, rfl, ho⟩
  · have hw := Attempt.grows_fetch engine ((c.locators.get? language).getD "") w
    have hw' := Attempt.grows_fetch engine ((c.locators.get? language).getD "") w'
    rw [hr] at hw
    rw [hr'] at hw'
    simp only [Except.toOption, Option.toList_none, List.append_nil] at hown
    exact .inl ⟨f, rfl, rfl, h.grow hw hw', hown⟩
  · refine .inr ⟨g, g', rfl, rfl, h.toAccord.fetch hr hr' (Deed.Outcome.grammar.inj ho).symm, ?_⟩
    rw [ledger, ledger', List.map_append, List.map_append]
    exact hown

/-- **A parser is made in both, for grammars from the same pointer, or the same fault is raised.** -/
theorem bind (h : Twin c engine language x₀ gs ps w w') (hx : x₀.Independent c engine language)
    (hg : Among gs g g') (hr : (Attempt.bindParser engine g).run w = (b, w₁))
    (hr' : (Attempt.bindParser engine g').run w' = (b', w₁')) :
    (∃ f, b = .error f ∧ b' = .error f ∧ Twin c engine language x₀ gs ps w₁ w₁') ∨
      ∃ p p', b = .ok p ∧ b' = .ok p' ∧ Twin c engine language x₀ gs (ps ++ [(p, p')]) w₁ w₁' := by
  obtain ⟨i, hi, hi'⟩ := hg.getElem?
  obtain ⟨he, hown⟩ := h.without.own hx (d := .bind i) rfl
  simp only [Ledger.act, hi, hi', hr, hr', Option.some.injEq] at he hown
  have hcases := Deed.told_eq he.symm (fun _ _ h => by cases h) fun _ _ h => by cases h
  rcases hcases with ⟨f, rfl, rfl⟩ | ⟨p, p', rfl, rfl, -⟩
  · have hw := Attempt.grows_bind engine g w
    have hw' := Attempt.grows_bind engine g' w'
    rw [hr] at hw
    rw [hr'] at hw'
    simp only [Except.toOption, Option.toList_none, List.append_nil] at hown
    exact .inl ⟨f, rfl, rfl, h.grow hw hw', hown⟩
  · refine .inr ⟨p, p', rfl, rfl, h.toAccord.bind hg hr hr', ?_⟩
    rw [ledger, ledger', List.map_append, List.map_append]
    exact hown

/-- **A source is parsed in both, and the same comes of it.** -/
theorem parse (h : Twin c engine language x₀ gs ps w w') (hx : x₀.Independent c engine language)
    (hp : (p, p') ∈ ps) {source : List UInt8} (hr : (Attempt.parse p source).run w = (n, w₁))
    (hr' : (Attempt.parse p' source).run w' = (n', w₁')) :
    n' = n ∧ Twin c engine language x₀ gs ps w₁ w₁' := by
  obtain ⟨i, hi, hi'⟩ := exists_place hp
  obtain ⟨he, hown⟩ := h.without.own hx (d := .parse i source) rfl
  simp only [Ledger.act, hi, hi', hr, hr', Option.some.injEq] at he hown
  have hw := Attempt.grows_parse p source w
  have hw' := Attempt.grows_parse p' source w'
  rw [hr] at hw
  rw [hr'] at hw'
  refine ⟨?_, h.grow hw hw', hown⟩
  cases n <;> cases n' <;> cases he <;> rfl

end Twin

/-! ## Fixed worlds -/

section

variable {A : Answers} {P : World → Prop} (hA : Answering c A P)

include hA

/-- Where every job answers as a table says, a deed for the language comes to the same in worlds in accord. -/
theorem Accord.own (h : Accord gs ps w w') (hw : P w) (hw' : P w') {d : Deed} (hd : d.isOther = false) :
    ((w'.ledger' gs ps).act c c.engineModule language d).1 =
        ((w.ledger gs ps).act c c.engineModule language d).1 ∧
      ∃ gs₁ ps₁ w₁ w₁', ((w.ledger gs ps).act c c.engineModule language d).2 = w₁.ledger gs₁ ps₁ ∧
        ((w'.ledger' gs ps).act c c.engineModule language d).2 = w₁'.ledger' gs₁ ps₁ ∧
        Accord gs₁ ps₁ w₁ w₁' := by
  have hplace : ∀ i : Nat, ((ps.map Prod.fst)[i]? = none ∧ (ps.map Prod.snd)[i]? = none) ∨
      ∃ p p', (ps.map Prod.fst)[i]? = some p ∧ (ps.map Prod.snd)[i]? = some p' ∧ (p, p') ∈ ps := fun i => by
    cases hi : ps[i]? with
    | none => exact .inl ⟨by simp [hi], by simp [hi]⟩
    | some e => exact .inr ⟨e.1, e.2, by simp [hi], by simp [hi], List.mem_of_getElem? hi⟩
  cases d with
  | probe table => exact ⟨rfl, gs, ps, _, _, rfl, rfl, h.grow (Attempt.grows_probe ..) (Attempt.grows_probe ..)⟩
  | fetch =>
    have hends := hA.fetch language w hw
    have hends' := hA.fetch language w' hw'
    have hgrows := Attempt.grows_fetch c.engineModule ((c.locators.get? language).getD "") w
    have hgrows' := Attempt.grows_fetch c.engineModule ((c.locators.get? language).getD "") w'
    simp only [Ledger.act]
    cases hr : (Attempt.fetchGrammar c.engineModule ((c.locators.get? language).getD "")).run w with
    | mk r w₁ =>
    cases hr' : (Attempt.fetchGrammar c.engineModule ((c.locators.get? language).getD "")).run w' with
    | mk r' w₁' =>
    rw [hr] at hends hgrows
    rw [hr'] at hends' hgrows'
    cases r with
    | error f =>
      cases r' with
      | ok g' =>
        obtain ⟨_, _, -, hok, -⟩ := hends'
        cases hok.symm.trans hends
      | error f' =>
        cases Except.error.inj (hends'.symm.trans hends)
        exact ⟨rfl, gs, ps, w₁, w₁', by simp [Except.toOption], by simp [Except.toOption], h.grow hgrows hgrows'⟩
    | ok g =>
      obtain ⟨n, pointer, rfl, hok, hn⟩ := hends
      cases r' with
      | error f' => cases hok.symm.trans hends'
      | ok g' =>
        obtain ⟨n', pointer', rfl, hok', hn'⟩ := hends'
        cases hok.symm.trans hok'
        have ho : w₁'.origin? (some n') = w₁.origin? (some n) := hn'.trans hn.symm
        exact ⟨congrArg (fun o => some (Deed.Outcome.grammar o)) ho, gs ++ [(some n, some n')], ps, w₁, w₁',
          by simp [Except.toOption], by simp [Except.toOption], h.fetch hr hr' ho⟩
  | bind i =>
    have hg : Among gs ((gs.map Prod.fst)[i]?.getD none) ((gs.map Prod.snd)[i]?.getD none) := by
      cases hi : gs[i]? with
      | none => exact .inl ⟨by simp [hi], by simp [hi]⟩
      | some e => exact .inr (by simpa [hi] using List.mem_of_getElem? hi)
    simp only [Ledger.act]
    generalize (gs.map Prod.fst)[i]?.getD none = g at hg ⊢
    generalize (gs.map Prod.snd)[i]?.getD none = g' at hg ⊢
    have hends := hA.bind g w hw
    have hends' := hA.bind g' w' hw'
    have hgrows := Attempt.grows_bind c.engineModule g w
    have hgrows' := Attempt.grows_bind c.engineModule g' w'
    cases hr : (Attempt.bindParser c.engineModule g).run w with
    | mk b w₁ =>
    cases hr' : (Attempt.bindParser c.engineModule g').run w' with
    | mk b' w₁' =>
    rw [hr] at hends hgrows
    rw [hr'] at hends' hgrows'
    cases b with
    | error f =>
      cases b' with
      | ok p' => cases hends'.symm.trans hends
      | error f' =>
        cases Except.error.inj (hends'.symm.trans hends)
        exact ⟨rfl, gs, ps, w₁, w₁', by simp [Except.toOption], by simp [Except.toOption], h.grow hgrows hgrows'⟩
    | ok p =>
      cases b' with
      | error f' => cases hends'.symm.trans hends
      | ok p' =>
        exact ⟨rfl, gs, ps ++ [(p, p')], w₁, w₁', by simp [Except.toOption], by simp [Except.toOption],
          h.bind hg hr hr'⟩
  | parse i source =>
    simp only [Ledger.act]
    rcases hplace i with ⟨hi, hi'⟩ | ⟨p, p', hi, hi', hp⟩
    · rw [hi, hi']
      exact ⟨rfl, gs, ps, w, w', rfl, rfl, h⟩
    · have hpointer : w'.pointerOf (w'.grammarOf p') = w.pointerOf (w.grammarOf p) := by
        rw [pointerOf_eq, pointerOf_eq, (h.sameGrammar (h.bound hp)).origin]
      rw [hi, hi']
      refine ⟨congrArg (fun r => some (Deed.told .tree r)) ?_, gs, ps, _, _, rfl, rfl,
        h.grow (Attempt.grows_parse p source w) (Attempt.grows_parse p' source w')⟩
      exact (hA.parse hw' p' source).trans (hpointer ▸ (hA.parse hw p source).symm)
  | lend holder i =>
    simp only [Ledger.act]
    rcases hplace i with ⟨hi, hi'⟩ | ⟨p, p', hi, hi', hp⟩
    · rw [hi, hi']
      exact ⟨rfl, gs, ps, w, w', rfl, rfl, h⟩
    · rw [hi, hi']
      exact ⟨rfl, gs, ps, _, _, rfl, rfl, h.grow (Attempt.grows_note ..) (Attempt.grows_note ..)⟩
  | _ => cases hd

end

end World

end SourceTrees
