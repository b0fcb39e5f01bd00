import SourceTrees.Json
import SourceTrees.Keyed
import SourceTrees.Log

/-!
# Configuration

What a service is set up with: the engine's module, how often and how patiently a start-up is tried,
the locator of every language, the languages to load beforehand, the number of workers, and the
largest file that is read.

* `Config.validate` brings every field into its range and warns about what it had to change.
* `validate_idem` — validating once more changes nothing and warns about nothing.
-/

set_option autoImplicit false

namespace SourceTrees

/-- Locators by language. -/
abbrev LocatorTable := Keyed String String

/-- The languages that have a locator without being configured. -/
def defaultLocators : LocatorTable where
  entries := [("java", "tree_sitter_java:language"), ("python", "tree_sitter_python:language"),
    ("typescript", "tree_sitter_typescript:language_typescript"),
    ("javascript", "tree_sitter_javascript:language")]

/-- The configuration of a service. -/
structure Config where
  engineModule : String := "tree_sitter"
  bootAttempts : Int := 3
  bootWait : Float := 0.5
  locators : LocatorTable := defaultLocators
  preload : List String := []
  workers : Int := 4
  maxFileSize : Int := 1000000
  deriving Inhabited

namespace Config

/-- A list of texts inside a message. -/
def listed (texts : List String) : String := (Json.strings texts).literal

/-- Is there a locator for the language? -/
def hasLocator (c : Config) (language : String) : Bool := c.locators.contains language

/-- The languages to load beforehand that have no locator. -/
def strayPreload (c : Config) : List String := c.preload.filter fun l => !c.hasLocator l

/-- At least one attempt is made. -/
def validAttempts (n : Int) : Int := if n < 1 then 1 else n

/-- No wait is negative. -/
def validWait (x : Float) : Float := if x < 0 then 0.0 else x

/-- No count of workers is negative. -/
def validWorkers (n : Int) : Int := if n < 0 then 0 else n

/-- The warnings about a configuration. -/
def warnings (c : Config) : List LogLine :=
  (if c.bootAttempts < 1 then
    [.warning ("Boot retry attempts must be at least 1, got " ++ toString c.bootAttempts)] else []) ++
  (if c.bootWait < 0 then
    [.warning ("Boot retry wait must not be negative, got " ++ Decimal.render c.bootWait)] else []) ++
  (if c.workers < 0 then
    [.warning ("I/O workers must not be negative, got " ++ toString c.workers)] else []) ++
  (if c.strayPreload.isEmpty then [] else
    [.warning ("Ignoring preload languages without a locator: " ++ listed c.strayPreload)])

/-- The configuration with every field in its range. -/
def normalize (c : Config) : Config :=
  { c with
    bootAttempts := validAttempts c.bootAttempts
    bootWait := validWait c.bootWait
    preload := c.preload.filter c.hasLocator
    workers := validWorkers c.workers }

/-- The valid configuration, and the warnings about what was changed. -/
def validate (c : Config) : Config × List LogLine := (c.normalize, c.warnings)

/-! ## Validating once is enough -/

theorem validAttempts_ge (n : Int) : 1 ≤ validAttempts n := by
  unfold validAttempts
  split <;> omega

theorem validWorkers_ge (n : Int) : 0 ≤ validWorkers n := by
  unfold validWorkers
  split <;> omega

theorem validWait_not_lt (x : Float) : ¬ validWait x < 0 := by
  unfold validWait
  split
  · decide
  · assumption

theorem strayPreload_normalize (c : Config) : c.normalize.strayPreload = [] := by
  simp only [strayPreload, normalize, hasLocator, List.filter_filter, List.filter_eq_nil_iff]
  intro l _
  simp

theorem normalize_normalize (c : Config) : c.normalize.normalize = c.normalize := by
  have ha := validAttempts_ge c.bootAttempts
  have hw := validWorkers_ge c.workers
  have hx := validWait_not_lt c.bootWait
  have ha' : validAttempts (validAttempts c.bootAttempts) = validAttempts c.bootAttempts := by
    rw [validAttempts.eq_1 (validAttempts c.bootAttempts), if_neg (by omega)]
  have hw' : validWorkers (validWorkers c.workers) = validWorkers c.workers := by
    rw [validWorkers.eq_1 (validWorkers c.workers), if_neg (by omega)]
  have hx' : validWait (validWait c.bootWait) = validWait c.bootWait := by
    rw [validWait.eq_1 (validWait c.bootWait), if_neg hx]
  simp only [normalize, ha', hw', hx', Config.mk.injEq, true_and, and_true]
  simp only [List.filter_filter, hasLocator, Bool.and_self]
  rfl

theorem warnings_normalize (c : Config) : c.normalize.warnings = [] := by
  have ha : ¬ c.normalize.bootAttempts < 1 := by
    have := validAttempts_ge c.bootAttempts
    simp only [normalize]
    omega
  have hw : ¬ c.normalize.workers < 0 := by
    have := validWorkers_ge c.workers
    simp only [normalize]
    omega
  have hx : ¬ c.normalize.bootWait < 0 := validWait_not_lt c.bootWait
  simp [warnings, strayPreload_normalize, ha, hw, hx]

/-- Validating once more changes nothing and warns about nothing. -/
theorem validate_idem (c : Config) : c.validate.1.validate = (c.validate.1, []) := by
  simp only [validate, normalize_normalize, warnings_normalize]

end Config

end SourceTrees
