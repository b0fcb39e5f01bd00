import SourceTrees.Proofs.Engine.Importing

/-!
# Probing before fetching

A locator is resolved in two ways.  A probe looks whether the module could be found, and imports only those
that it lies in; a fetch imports the module.  Where imports are fixed the two agree: what is not found
cannot be fetched either, whatever has been done in the world in between.

## Protocol

* A module that is not there cannot be imported, and neither can one that lies in a module which cannot.
* A probe takes faults of importing and of values for an answer, and passes the others on.

## Results

* `Module.parent?_cases` — the modules that a module lies in are those that the outer one lies in, and it.
* `World.Unfetchable` — no fetch from the locator succeeds, nor is it interrupted.
* **`Warmup.keys_of_availability`**, **`Warmup.unfetchable_of_availability`** — a probe looks at every
  language of the table, and what it reports unavailable cannot be fetched.
-/

set_option autoImplicit false

namespace SourceTrees

/-! ## Names of modules -/

namespace Module

variable {name outer : String} {cs ds es : List Char} {acc : List (List Char) × List Char}

/-- What is collected as a name is gone over: the names of the modules that it lies in, and the name so
    far, all of them backwards. -/
def collect (acc : List (List Char) × List Char) (cs : List Char) : List (List Char) × List Char :=
  cs.foldl (fun acc c => (if c = '.' then acc.2 :: acc.1 else acc.1, c :: acc.2)) acc

theorem chain_eq_collect (cs : List Char) :
    chain (String.ofList cs) = ((collect ([], []) cs).2 :: (collect ([], []) cs).1).reverse.map
      fun cs => String.ofList cs.reverse := by
  unfold chain
  rw [String.toList_ofList]
  rfl

theorem collect_append (acc : List (List Char) × List Char) (ds es : List Char) :
    collect acc (ds ++ es) = collect (collect acc ds) es := List.foldl_append

theorem snd_collect (cs : List Char) : ∀ acc, (collect acc cs).2 = cs.reverse ++ acc.2 := by
  induction cs with
  | nil => exact fun _ => rfl
  | cons c cs ih =>
    intro acc
    show (collect _ cs).2 = _
    rw [ih]
    simp

/-- Where there is no dot no name is collected. -/
theorem fst_collect_of_undotted (h : '.' ∉ cs) : ∀ acc, (collect acc cs).1 = acc.1 := by
  induction cs with
  | nil => exact fun _ => rfl
  | cons c cs ih =>
    intro acc
    have hc : c ≠ '.' := fun he => h (he ▸ List.mem_cons_self)
    show (collect _ cs).1 = _
    rw [ih fun hm => h (List.mem_cons_of_mem _ hm)]
    exact if_neg hc

theorem chain_of_undotted (h : '.' ∉ cs) : chain (String.ofList cs) = [String.ofList cs] := by
  rw [chain_eq_collect, snd_collect, fst_collect_of_undotted h]
  simp

/-- What stands before the last dot is the name of the outer module. -/
theorem chain_of_dotted (h : '.' ∉ es) :
    chain (String.ofList (ds ++ '.' :: es)) =
      chain (String.ofList ds) ++ [String.ofList (ds ++ '.' :: es)] := by
  have hdot : ∀ acc, collect acc ('.' :: es) = collect (acc.2 :: acc.1, '.' :: acc.2) es := fun _ => rfl
  rw [chain_eq_collect, chain_eq_collect, collect_append, hdot, snd_collect, fst_collect_of_undotted h,
    snd_collect]
  simp

/-- A name has a last dot, or none. -/
theorem undotted_or_dotted (cs : List Char) :
    '.' ∉ cs ∨ ∃ ds es, cs = ds ++ '.' :: es ∧ '.' ∉ es := by
  by_cases h : '.' ∈ cs
  · obtain ⟨after, before, he, hn⟩ := List.eq_append_cons_of_mem (List.mem_reverse.2 h)
    refine .inr ⟨before.reverse, after.reverse, ?_, by simpa using hn⟩
    rw [← List.reverse_reverse cs, he]
    simp
  · exact .inl h

/-- The last module of its chain is the module itself. -/
theorem getLast?_chain (cs : List Char) :
    (chain (String.ofList cs)).getLast? = some (String.ofList cs) := by
  rcases undotted_or_dotted cs with h | ⟨ds, es, rfl, h⟩
  · rw [chain_of_undotted h]
    rfl
  · rw [chain_of_dotted h, List.getLast?_concat]

/-- **A module lies in no other, or in those that the outer one lies in, and the outer one.** -/
theorem parent?_cases (name : String) :
    parent? name = none ∧ chain name = [name] ∨ ∃ outer rest, parent? name = some outer ∧
      chain name = chain outer ++ [name] ∧ name.toList = outer.toList ++ '.' :: rest := by
  obtain ⟨cs, rfl⟩ : ∃ cs, name = String.ofList cs := ⟨name.toList, String.ofList_toList.symm⟩
  unfold parent?
  rcases undotted_or_dotted cs with h | ⟨ds, es, rfl, h⟩
  · rw [chain_of_undotted h]
    exact .inl ⟨rfl, rfl⟩
  · rw [chain_of_dotted h, List.dropLast_concat, getLast?_chain]
    exact .inr ⟨_, es, rfl, rfl, by simp⟩

end Module

/-- A locator that is split names a module. -/
theorem Language.Locator.isEmpty_moduleName {text : String} {l : Language.Locator}
    (h : parse? text = some l) : l.moduleName.isEmpty = false := by
  unfold parse? at h
  split at h
  · cases h
    rw [Bool.eq_false_iff]
    simp
  · cases h

namespace World

/-- No import of the module succeeds, nor is it interrupted, whatever else has been done in the world. -/
def Unimportable (w₀ : World) (name : String) : Prop :=
  Attempt.Meets w₀.SameImports (.importModule name) (fun _ _ => False)
    fun f _ => f.kind.isOrdinary = true

/-- Nor does a fetch from the locator. -/
def Unfetchable (w₀ : World) (locator : String) : Prop :=
  ∀ engine, Attempt.Meets w₀.SameImports (.fetchGrammar engine locator) (fun _ _ => False)
    fun f _ => f.kind.isOrdinary = true

end World

namespace Attempt

open Language

variable {w w₀ : World} {name outer locator : String}

/-- A name that is no relative one is imported with all that it lies in. -/
theorem importModule_eq (hne : name.isEmpty = false) (hdot : ¬ name.startsWith "." = true) :
    importModule name = (Module.chain name).forM importOne := by
  unfold importModule
  rw [if_neg (by simp [hne]), if_neg hdot]

/-- A module is imported after those that it lies in. -/
theorem importModule_eq_bind {names : List String} (hne : name.isEmpty = false)
    (hdot : ¬ name.startsWith "." = true) (hchain : Module.chain name = names ++ [name]) :
    importModule name = names.forM importOne >>= fun _ => [name].forM importOne := by
  rw [importModule_eq hne hdot, hchain]
  exact List.forM_append

/-- The outer module of one whose name is no relative one has no relative name either. -/
theorem outer_isAbsolute {rest : List Char} (he : name.toList = outer.toList ++ '.' :: rest)
    (hdot : ¬ name.startsWith "." = true) :
    outer.isEmpty = false ∧ ¬ outer.startsWith "." = true := by
  rw [String.startsWith_string_iff] at hdot ⊢
  refine ⟨?_, fun hp => hdot (hp.trans (he ▸ List.prefix_append ..))⟩
  rw [Bool.eq_false_iff]
  intro hempty
  rw [String.isEmpty_iff] at hempty
  subst hempty
  exact hdot ⟨rest, he.symm⟩

/-- A module that is not there is not imported. -/
theorem meets_importOne_of_absent (h : w₀.modules.contains name = false) :
    Meets w₀.SameImports (importOne name) (fun _ _ => False) fun f _ => f.kind.isOrdinary = true := by
  refine .bind .get fun w => ?_
  cases hm : w.modules.get? name with
  | none => exact .throw fun _ _ => World.isOrdinary_missing ..
  | some m =>
    intro w' hw
    have hcontains := hw.2.contains name
    rw [h, ← hw.1, Keyed.contains, hm] at hcontains
    cases hcontains

/-- A relative name is not imported. -/
theorem unimportable_of_relative (hdot : name.startsWith "." = true) : w₀.Unimportable name := by
  refine .ite (fun _ => .throwBind fun _ _ => rfl) fun _ => ?_
  exact .ite (fun _ => .throwBind fun _ _ => rfl) fun hn => absurd hdot hn

/-- What comes after modules that are imported is not there. -/
theorem unimportable_of_absent {names : List String} (hne : name.isEmpty = false)
    (hdot : ¬ name.startsWith "." = true) (hchain : Module.chain name = names ++ [name])
    (hnames : Meets w₀.SameImports (names.forM importOne) (fun _ => w₀.SameImports)
      fun f _ => f.kind.isOrdinary = true)
    (h : w₀.modules.contains name = false) : w₀.Unimportable name := by
  rw [World.Unimportable, importModule_eq_bind hne hdot hchain]
  refine .bind hnames fun _ => .bind (R := fun _ _ => False) (meets_importOne_of_absent h) ?_
  exact fun _ _ hw => hw.elim

/-- A fault that a probe takes for an answer may be caught. -/
theorem isOrdinary_of_taken {f : Fault} (h : (f.kind.isImport || f.kind = .value) = true) :
    f.kind.isOrdinary = true := by
  cases hk : f.kind <;> simp_all [Fault.Kind.isImport, Fault.Kind.isOrdinary]

/-- **What a probe does not find cannot be imported.** -/
theorem meets_isFound_unimportable (hne : name.isEmpty = false) :
    Meets w₀.SameImports (isFound name) (fun found _ => found = false → w₀.Unimportable name)
      fun f _ => (f.kind.isImport || f.kind = .value) = true → w₀.Unimportable name := by
  refine .ite (fun hdot => .throwBind fun _ _ _ => unimportable_of_relative hdot) fun hdot => ?_
  -- After what the module lies in has been imported it is looked for.
  have hlook : ∀ {names : List String}, Module.chain name = names ++ [name] →
      Meets w₀.SameImports (names.forM importOne) (fun _ => w₀.SameImports)
        (fun f _ => f.kind.isOrdinary = true) →
      Meets w₀.SameImports (do return (← MonadState.get).modules.contains name : Attempt Bool)
        (fun found _ => found = false → w₀.Unimportable name)
        fun f _ => (f.kind.isImport || f.kind = .value) = true → w₀.Unimportable name :=
    fun hchain hnames => .bind .get fun w => .pure fun w' hw hfound =>
      unimportable_of_absent hne hdot hchain hnames ((hw.2.contains name).symm.trans (hw.1 ▸ hfound))
  have hsearch : ∀ w {search : Attempt Bool},
      (Module.parent? name = none → search = do return (← MonadState.get).modules.contains name) →
      (∀ outer, Module.parent? name = some outer → search = do
        importModule outer
        return (← MonadState.get).modules.contains name) →
      Meets (fun w' => w = w' ∧ w₀.SameImports w') search
        (fun found _ => found = false → w₀.Unimportable name)
        fun f _ => (f.kind.isImport || f.kind = .value) = true → w₀.Unimportable name := by
    intro w search htop hlies
    refine Meets.mono (P := w₀.SameImports) ?_ (fun _ hw => hw.2) (fun _ _ => id) fun _ _ => id
    rcases Module.parent?_cases name with ⟨hp, hchain⟩ | ⟨outer, rest, hp, hchain, he⟩
    · rw [htop hp]
      exact @hlook [] hchain (.pure fun _ => id)
    · rw [hlies outer hp]
      obtain ⟨hne', hdot'⟩ := outer_isAbsolute he hdot
      have hsteady : Steady w₀.SameImports (importModule outer) :=
        steady_importModule id World.SameImports.kept.toKeptByImports outer
      obtain ⟨r, hr⟩ := hsteady
      have hforM := hr
      rw [importModule_eq hne' hdot'] at hforM
      cases r with
      | ok u =>
        refine .bind (R := fun _ => w₀.SameImports) ?_ fun _ => hlook hchain ?_
        · exact hr.mono (fun _ => id) (fun _ _ hx => hx.2) fun _ _ hx => by cases hx.1
        · exact hforM.mono (fun _ => id) (fun _ _ hx => hx.2) fun _ _ hx => by cases hx.1
      | error f =>
        refine .bind (R := fun _ _ => False) ?_ fun _ _ hw => hw.elim
        refine hr.mono (fun _ => id) (fun _ _ hx => by cases hx.1) fun f' w' hx htaken => ?_
        -- The outer module fails to be imported again, and with it what lies in it.
        cases hx.1
        rw [World.Unimportable, importModule_eq_bind hne hdot hchain]
        refine .bind (R := fun _ _ => False) ?_ fun _ _ hw => hw.elim
        refine hforM.mono (fun _ => id) (fun _ _ hx => by cases hx.1) fun f' w' hx => ?_
        cases hx.1
        exact isOrdinary_of_taken htaken
  refine .bind .get fun w => ?_
  cases w.modules.get? name with
  | none => exact hsearch w (fun hp => by rw [hp]) fun outer hp => by rw [hp]
  | some m =>
    exact .ite (fun _ => .pure fun _ _ he => by cases he) fun _ =>
      hsearch w (fun hp => by rw [hp]) fun outer hp => by rw [hp]

/-- A locator whose module is not found, or that is none, fetches nothing. -/
theorem meets_isAvailable_unfetchable :
    Meets w₀.SameImports (isAvailable locator) (fun found _ => found = false → w₀.Unfetchable locator)
      fun _ _ => True := by
  unfold isAvailable
  cases hl : Locator.parse? locator with
  | none =>
    refine .pure fun _ _ _ engine => ?_
    unfold fetchGrammar
    rw [hl]
    exact .throw fun _ _ => rfl
  | some l =>
    have hunfetchable : w₀.Unimportable l.moduleName → w₀.Unfetchable locator := by
      intro h engine
      unfold fetchGrammar
      rw [hl]
      exact .bind h fun _ _ hw => hw.elim
    refine .tryCatch ((meets_isFound_unimportable (Locator.isEmpty_moduleName hl)).mono (fun _ => id)
      (fun _ _ h he => hunfetchable (h he)) fun _ _ => id) fun f => ?_
    exact .ite (fun htaken => .pure fun _ h _ => hunfetchable (h htaken)) fun _ => .throw fun _ _ => trivial

end Attempt

namespace Warmup

variable {w w₀ : World} {table : LocatorTable} {found : List (String × Bool)} {language : String}

/-- A probe of entries looks at one after the other. -/
theorem meets_probe : ∀ es : List (String × String),
    Attempt.Meets w₀.SameImports (probe es)
      (fun found _ => found.map Prod.fst = es.map Prod.fst ∧ ∀ language, (language, false) ∈ found →
        ∃ locator, (language, locator) ∈ es ∧ w₀.Unfetchable locator)
      fun _ _ => True
  | [] => .pure fun _ _ => ⟨rfl, fun _ h => by cases h⟩
  | e :: es => by
    have hkept := Attempt.keeps_isAvailable (@World.SameImports.kept w₀).toKeptByImports e.2
    refine .bind ((Attempt.meets_isAvailable_unfetchable.and hkept).mono (fun _ => id) (fun _ _ => id)
      fun _ _ _ => trivial) fun available => ?_
    refine .bind (R := fun found _ => (available = false → w₀.Unfetchable e.2) ∧
      found.map Prod.fst = es.map Prod.fst ∧ ∀ language, (language, false) ∈ found →
        ∃ locator, (language, locator) ∈ es ∧ w₀.Unfetchable locator) (fun w hw => ?_) fun found => ?_
    · exact (meets_probe es).mono (fun _ => id) (fun _ _ h => ⟨hw.1, h⟩) (fun _ _ => id) w hw.2
    · refine .pure fun _ hw => ⟨congrArg (e.1 :: ·) hw.2.1, fun language hm => ?_⟩
      rcases List.mem_cons.1 hm with he | hm
      · cases he
        exact ⟨e.2, List.mem_cons_self, hw.1 rfl⟩
      · obtain ⟨locator, hm, hu⟩ := hw.2.2 language hm
        exact ⟨locator, List.mem_cons_of_mem _ hm, hu⟩

theorem of_availability (hw : w₀.SameImports w)
    (h : ((availability table).run w).1 = .ok found) :
    found.map Prod.fst = table.keys ∧ ∀ language, (language, false) ∈ found →
      ∃ locator, (language, locator) ∈ table.entries ∧ w₀.Unfetchable locator := by
  have hmeets := meets_probe table.entries w hw
  unfold availability at h
  generalize (probe table.entries).run w = x at h hmeets
  obtain ⟨r, w'⟩ := x
  cases h
  exact hmeets

/-- **A probe looks at every language of the table**, in its order. -/
theorem keys_of_availability (hw : w₀.SameImports w)
    (h : ((availability table).run w).1 = .ok found) : found.map Prod.fst = table.keys :=
  (of_availability hw h).1

/-- **What a probe reports unavailable cannot be fetched.** -/
theorem unfetchable_of_availability (hw : w₀.SameImports w)
    (h : ((availability table).run w).1 = .ok found) (hl : (language, false) ∈ found) :
    ∃ locator, table.get? language = some locator ∧ w₀.Unfetchable locator := by
  obtain ⟨locator, hm, hu⟩ := (of_availability hw h).2 language hl
  exact ⟨locator, Keyed.get?_of_mem hm, hu⟩

end Warmup

end SourceTrees
