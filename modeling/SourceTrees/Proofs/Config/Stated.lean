import Mathlib.Data.List.TakeWhile
import SourceTrees.Proofs.Config.Locators

/-!
# What an environment states

A configuration that is loaded says what the environment says, variable by variable: of several variables
for the locator of one language the last one counts, blank ones count for nothing, and languages to be
loaded beforehand are those of the list that have a locator.

## Protocol

* The order of an environment is the order of its variables; their names are distinct, but names of
  different variables may come to the same language in small letters.
* A variable that is to hold a number holds one, or is not set.

## Results

* `Keyed.get?_putAll_last`, `Keyed.get?_putAll_of_forall_ne` — of several entries of a key the last one
  stays.
* `Text.trim_eq_empty_iff` — a text has nothing but blanks if nothing is left of it.
* `Config.locatorOf?_eq_some_iff` — which variables set a locator.
* **`Config.load_stated`** — every environment of the kind gives a configuration that says what it says.
-/

set_option autoImplicit false

namespace SourceTrees

/-! ## The last entry of a key -/

namespace Keyed

variable {κ ν : Type} [DecidableEq κ] {k : κ}

/-- Entries of other keys change nothing. -/
theorem get?_putAll_of_forall_ne (es : List (κ × ν)) : ∀ {t : Keyed κ ν}, (∀ e ∈ es, e.1 ≠ k) →
    (t.putAll es).get? k = t.get? k := by
  induction es with
  | nil => intro t _; rfl
  | cons e es ih =>
    intro t h
    have hstep : (t.putAll (e :: es)).get? k = (t.put e.1 e.2).get? k :=
      ih fun e' he' => h e' (List.mem_cons_of_mem _ he')
    rw [hstep, get?_put, if_neg (Ne.symm (h e List.mem_cons_self))]

/-- Of several entries of a key the last one stays. -/
theorem get?_putAll_last (t : Keyed κ ν) (before after : List (κ × ν)) (v : ν)
    (h : ∀ e ∈ after, e.1 ≠ k) : (t.putAll (before ++ (k, v) :: after)).get? k = some v := by
  have hsplit : t.putAll (before ++ (k, v) :: after) = ((t.putAll before).put k v).putAll after := by
    simp only [putAll, List.foldl_append, List.foldl_cons]
  rw [hsplit, get?_putAll_of_forall_ne after h, get?_put, if_pos rfl]

end Keyed

/-! ## Blank texts -/

namespace Text

theorem trimBoth_eq_nil_iff (drop : Char → Bool) (cs : List Char) :
    trimBoth drop cs = [] ↔ cs.all drop = true := by
  unfold trimBoth
  rw [List.reverse_eq_nil_iff, List.dropWhile_eq_nil_iff, List.all_eq_true]
  constructor
  · intro h c hc
    rw [← List.takeWhile_append_dropWhile (p := drop) (l := cs), List.mem_append] at hc
    rcases hc with hc | hc
    · exact List.mem_takeWhile_imp hc
    · exact h c (List.mem_reverse.2 hc)
  · intro h c hc
    exact h c (List.dropWhile_sublist _ |>.subset (List.mem_reverse.1 hc))

/-- A text has nothing but blanks if nothing is left of it. -/
theorem trim_eq_empty_iff (s : String) : trim s = "" ↔ isBlankText s = true := by
  rw [isBlankText, ← trimBoth_eq_nil_iff, trim, ← String.toList_inj, String.toList_ofList]
  rfl

end Text

namespace Config

variable {env : Environment} {config : Config} {lines : List LogLine} {language : String}

/-! ## Variables for locators -/

/-- The variable sets the locator of the language: it goes by a name for it, and is not blank. -/
def Locates (language : String) (setting : String × String) : Prop :=
  (∃ suffix, setting.1 = locatorVariable ++ suffix ∧ Text.lower suffix = language) ∧
    Text.trim setting.2 ≠ ""

theorem locatorOf?_eq_some_iff (setting : String × String) (language locator : String) :
    locatorOf? setting = some (language, locator) ↔
      Locates language setting ∧ locator = Text.trim setting.2 := by
  unfold locatorOf? Locates
  rw [Ne, Text.trim_eq_empty_iff, Bool.not_eq_true]
  constructor
  · intro h
    simp only [Option.ite_none_right_eq_some, Bool.and_eq_true, List.isPrefixOf_iff_prefix, Bool.not_eq_true',
      Option.some.injEq, Prod.mk.injEq] at h
    obtain ⟨⟨⟨rest, hrest⟩, hblank⟩, rfl, rfl⟩ := h
    refine ⟨⟨⟨String.ofList rest, ?_, ?_⟩, hblank⟩, rfl⟩
    · rw [← String.toList_inj, String.toList_append, String.toList_ofList, hrest]
    · rw [Text.lower, String.toList_ofList, ← hrest, List.drop_left]
  · rintro ⟨⟨⟨suffix, hname, rfl⟩, hblank⟩, rfl⟩
    dsimp only
    rw [hname, String.toList_append, List.drop_left, if_pos]
    · rfl
    · rw [Bool.and_eq_true, List.isPrefixOf_iff_prefix, hblank]
      exact ⟨List.prefix_append _ _, rfl⟩

/-- What a variable sets is there if no later one sets the same. -/
theorem locatorsFrom_last {before after : List (String × String)} {setting : String × String}
    (he : env.entries = before ++ setting :: after) (hs : Locates language setting)
    (hlast : ∀ later ∈ after, ¬ Locates language later) :
    (locatorsFrom env).get? language = some (Text.trim setting.2) := by
  have hset := (locatorOf?_eq_some_iff setting language _).2 ⟨hs, rfl⟩
  rw [locatorsFrom, he, List.filterMap_append, List.filterMap_cons_some hset]
  refine Keyed.get?_putAll_last _ _ _ _ ?_
  intro e hmem hkey
  obtain ⟨later, hlater, hof⟩ := List.mem_filterMap.1 hmem
  refine hlast later hlater ((locatorOf?_eq_some_iff later language e.2).1 ?_).1
  rw [hof, ← hkey]

/-- Where no variable sets a locator it is the default. -/
theorem locatorsFrom_default (hnone : ∀ setting ∈ env.entries, ¬ Locates language setting) :
    (locatorsFrom env).get? language = defaultLocators.get? language := by
  refine Keyed.get?_putAll_of_forall_ne _ ?_
  intro e hmem hkey
  obtain ⟨setting, hsetting, hof⟩ := List.mem_filterMap.1 hmem
  refine hnone setting hsetting ((locatorOf?_eq_some_iff setting language e.2).1 ?_).1
  rw [hof, ← hkey]

/-- The languages that have a locator. -/
theorem locatorsFrom_contains : (locatorsFrom env).contains language = true ↔
    defaultLocators.contains language = true ∨ ∃ setting ∈ env.entries, Locates language setting := by
  rw [locatorsFrom, Keyed.contains_putAll_iff]
  refine or_congr_right ?_
  constructor
  · rintro ⟨e, hmem, rfl⟩
    obtain ⟨setting, hsetting, hof⟩ := List.mem_filterMap.1 hmem
    exact ⟨setting, hsetting, ((locatorOf?_eq_some_iff setting e.1 e.2).1 hof).1⟩
  · rintro ⟨setting, hsetting, hlocates⟩
    refine ⟨(language, Text.trim setting.2), ?_, rfl⟩
    exact List.mem_filterMap.2 ⟨setting, hsetting, (locatorOf?_eq_some_iff _ _ _).2 ⟨hlocates, rfl⟩⟩

/-! ## Lists of languages -/

/-- The languages that a list with commas names, of its pieces one for each that is not blank. -/
theorem exists_languageList (text : String) : ∃ pieces : List String, pieces ≠ [] ∧
    ",".intercalate pieces = text ∧ (∀ p ∈ pieces, ',' ∉ p.toList) ∧
      languageList text =
        (pieces.filter fun p => Text.trim p ≠ "").map fun p => Text.lower (Text.trim p) := by
  refine ⟨(splitAtChar ',' text.toList).map String.ofList, ?_, ?_, ?_, ?_⟩
  · rw [Ne, List.map_eq_nil_iff]
    exact splitAtChar_ne_nil _ _
  · have hid : String.toList ∘ String.ofList = id := funext fun _ => String.toList_ofList
    rw [← String.toList_inj, String.toList_intercalate, List.map_map, hid, List.map_id]
    exact splitAtChar_join ',' text.toList
  · intro p hp
    obtain ⟨piece, hpiece, rfl⟩ := List.mem_map.1 hp
    rw [String.toList_ofList]
    exact not_mem_of_mem_splitAtChar hpiece
  · unfold languageList
    induction splitAtChar ',' text.toList with
    | nil => rfl
    | cons piece pieces ih =>
      have htrim : Text.trim (String.ofList piece) = String.ofList (Text.trimBoth Text.isBlank piece) := by
        rw [Text.trim, String.toList_ofList]
      have hlower : Text.lower (Text.trim (String.ofList piece)) =
          String.ofList (Text.lowerChars (Text.trimBoth Text.isBlank piece)) := by
        rw [htrim, Text.lower, String.toList_ofList]
      rw [List.filterMap_cons, List.map_cons]
      by_cases hblank : Text.trimBoth Text.isBlank piece = []
      · rw [List.filter_cons_of_neg (by simp [htrim, hblank]), ← ih]
        simp only [hblank, List.isEmpty_nil, if_true]
      · have hne : Text.trim (String.ofList piece) ≠ "" := by
          rw [htrim, Ne, ← String.toList_inj, String.toList_ofList]
          exact hblank
        rw [List.filter_cons_of_pos (by simpa using hne), List.map_cons, ← ih, hlower]
        simp only [List.isEmpty_iff, hblank, if_false]

/-! ## The law -/

/-- The variables that are to hold integers. -/
def wholeVariables : List String :=
  ["PARSER_BOOT_RETRY_ATTEMPTS", "PARSER_IO_WORKERS", "PARSER_MAX_FILE_SIZE"]

/-- The variable that is to hold a real number. -/
def waitVariable : String := "PARSER_BOOT_RETRY_WAIT"

/-- Every variable that is to hold a number holds one, if it is set. -/
structure Numeric (env : Environment) : Prop where
  whole : ∀ {name text}, name ∈ wholeVariables → env.get? name = some text →
    ∃ n, Decimal.readWhole text = .ok n
  real : ∀ {text}, env.get? waitVariable = some text → ∃ x, Decimal.readReal text = some x

/-- The configuration says what the environment says. -/
structure Stated (env : Environment) (c : Config) : Prop where
  /-- Of several variables for a language the last one sets its locator. -/
  last : ∀ {before setting after language}, env.entries = before ++ setting :: after →
    Locates language setting → (∀ later ∈ after, ¬ Locates language later) →
    c.locators.get? language = some (Text.trim setting.2)
  /-- Where there is none the locator is the default, if there is one. -/
  default : ∀ {language}, (∀ setting ∈ env.entries, ¬ Locates language setting) →
    c.locators.get? language = defaultLocators.get? language
  /-- No default is lost, and only variables add languages. -/
  languages : ∀ {language}, c.hasLocator language = true ↔
    defaultLocators.contains language = true ∨ ∃ setting ∈ env.entries, Locates language setting
  /-- The languages to load beforehand are those of the list that have a locator, in the order of the
      list. -/
  preload : ∃ pieces : List String, pieces ≠ [] ∧
    ",".intercalate pieces = env.valueOr "PARSER_PRELOAD_LANGUAGES" "" ∧
    (∀ p ∈ pieces, ',' ∉ p.toList) ∧
    c.preload = ((pieces.filter fun p => Text.trim p ≠ "").map fun p =>
      Text.lower (Text.trim p)).filter c.hasLocator
  attempts : 1 ≤ c.bootAttempts
  workers : 0 ≤ c.workers
  wait : ¬ c.bootWait < 0
  /-- Validating once more changes nothing and warns about nothing. -/
  valid : c.validate = (c, [])

theorem Numeric.exists_whole (h : Numeric env) (name : String) (hn : name ∈ wholeVariables) (d : Int) :
    ∃ n, env.whole name d = .ok n := by
  unfold Environment.whole
  cases hg : env.get? name with
  | none => exact ⟨d, rfl⟩
  | some text =>
    obtain ⟨n, hread⟩ := h.whole hn hg
    exact ⟨n, by simp only [hread]⟩

theorem Numeric.exists_real (h : Numeric env) (d : Float) : ∃ x, env.real waitVariable d = .ok x := by
  unfold Environment.real
  cases hg : env.get? waitVariable with
  | none => exact ⟨d, rfl⟩
  | some text =>
    obtain ⟨x, hread⟩ := h.real hg
    exact ⟨x, by simp only [hread]⟩

/-- The numbers being numbers, the environment gives a configuration. -/
theorem Numeric.fromEnvironment (h : Numeric env) : ∃ c : Config, Config.fromEnvironment env = .ok c ∧
    c.locators = locatorsFrom env ∧
      c.preload = languageList (env.valueOr "PARSER_PRELOAD_LANGUAGES" "") := by
  obtain ⟨attempts, ha⟩ := h.exists_whole "PARSER_BOOT_RETRY_ATTEMPTS" (by decide) 3
  obtain ⟨wait, hw⟩ := h.exists_real 0.5
  obtain ⟨workers, hn⟩ := h.exists_whole "PARSER_IO_WORKERS" (by decide) 4
  obtain ⟨size, hs⟩ := h.exists_whole "PARSER_MAX_FILE_SIZE" (by decide) 1000000
  rw [waitVariable] at hw
  unfold Config.fromEnvironment
  rw [ha, hw, hn, hs]
  exact ⟨_, rfl, rfl, rfl⟩

/-- **An environment whose numbers are numbers gives a configuration, and that says what it says.** -/
theorem load_stated (h : Numeric env) : ∃ c lines, load env = .ok (c, lines) ∧ Stated env c := by
  obtain ⟨c, hc, hlocators, hpreload⟩ := h.fromEnvironment
  have hload : load env = .ok (c.normalize, c.warnings ++ [loadedLine c.normalize]) := by
    rw [load, hc]
    rfl
  obtain ⟨pieces, hne, hjoin, hcomma, hlist⟩ :=
    exists_languageList (env.valueOr "PARSER_PRELOAD_LANGUAGES" "")
  refine ⟨_, _, hload, ?_⟩
  refine
    { last := fun he hs hlast => ?_
      default := fun hnone => ?_
      languages := ?_
      preload := ⟨pieces, hne, hjoin, hcomma, ?_⟩
      attempts := validAttempts_ge _
      workers := validWorkers_ge _
      wait := validWait_not_lt _
      valid := validate_idem c }
  · rw [load_locators hload]
    exact locatorsFrom_last he hs hlast
  · rw [load_locators hload]
    exact locatorsFrom_default hnone
  · intro language
    show c.normalize.locators.contains language = true ↔ _
    rw [load_locators hload]
    exact locatorsFrom_contains
  · rw [← hlist, ← hpreload]
    rfl

/-- Three variables are for one language, the last of them blank; a language of the list has no locator,
    and two numbers are out of range. -/
def crowded : Environment where
  entries := [("GRAMMAR_LOCATOR_PYTHON", "first:language"), ("GRAMMAR_LOCATOR_Python", " second:language\n"),
    ("GRAMMAR_LOCATOR_python", " "), ("PARSER_PRELOAD_LANGUAGES", " Python,, go ,JAVA, python"),
    ("PARSER_IO_WORKERS", "-3"), ("PARSER_BOOT_RETRY_ATTEMPTS", " 0_0 ")]

/-- The second locator stays, the list is read in order, and the numbers are brought into range. -/
theorem load_stated_crowded : Numeric crowded ∧ ∃ c lines, load crowded = .ok (c, lines) ∧ Stated crowded c ∧
    c.locators.get? "python" = some "second:language" ∧ c.preload = ["python", "java", "python"] ∧
      c.workers = 0 ∧ c.bootAttempts = 1 := by
  have hnumeric : Numeric crowded := by
    refine ⟨fun {name text} hn hg => ?_, fun hg => ?_⟩
    · simp only [wholeVariables, List.mem_cons, List.not_mem_nil, or_false] at hn
      rcases hn with rfl | rfl | rfl
      · cases hg
        exact ⟨0, by decide +kernel⟩
      · cases hg
        exact ⟨-3, by decide +kernel⟩
      · cases hg
    · cases hg
  obtain ⟨c, lines, hload, hstated⟩ := load_stated hnumeric
  refine ⟨hnumeric, c, lines, hload, hstated, ?_⟩
  have hseen : (load crowded).toOption.map (fun r =>
      (r.1.locators.get? "python", r.1.preload, r.1.workers, r.1.bootAttempts)) =
        some (some "second:language", ["python", "java", "python"], 0, 1) := by
    decide +kernel
  rw [hload] at hseen
  simpa [Except.toOption] using hseen

end Config

end SourceTrees
