import SourceTrees.Config.Basic
import SourceTrees.Decimal.Numeral
import SourceTrees.Fault
import SourceTrees.Text.Lower
import SourceTrees.Text.Pieces

/-!
# Configuration from the environment

Every field of the configuration has a variable.  A variable that is not set leaves the default; one
that holds no number where a number is needed makes the configuration fail.

* A variable `GRAMMAR_LOCATOR_` with a language behind it sets that language's locator unless it is
  blank; of several for one language the last one counts.
* The languages to load beforehand are a list with commas.
-/

set_option autoImplicit false

namespace SourceTrees

/-- The environment: variables in order. -/
abbrev Environment := Keyed String String

namespace Environment

/-- The variable's value, or a default. -/
def valueOr (env : Environment) (name default : String) : String := (env.get? name).getD default

/-- The variable's value as an integer. -/
def whole (env : Environment) (name : String) (default : Int) : Except Fault Int :=
  match env.get? name with
  | none => .ok default
  | some text =>
    match Decimal.readWhole text with
    | .ok n => .ok n
    | .error flaw => .error (.plain .value (flaw.message text))

/-- The variable's value as a real number. -/
def real (env : Environment) (name : String) (default : Float) : Except Fault Float :=
  match env.get? name with
  | none => .ok default
  | some text =>
    match Decimal.readReal text with
    | some x => .ok x
    | none => .error (.plain .value (Decimal.badReal text))

end Environment

namespace Config

/-- How the name of a variable for a locator begins. -/
def locatorVariable : String := "GRAMMAR_LOCATOR_"

/-- The language and locator that a variable sets, if it sets one. -/
def locatorOf? (setting : String × String) : Option (String × String) :=
  let start := locatorVariable.toList
  if start.isPrefixOf setting.1.toList && !Text.isBlankText setting.2 then
    some (String.ofList (Text.lowerChars (setting.1.toList.drop start.length)), Text.trim setting.2)
  else none

/-- The default locators with those of the environment entered over them. -/
def locatorsFrom (env : Environment) (defaults : LocatorTable := defaultLocators) : LocatorTable :=
  defaults.putAll (env.entries.filterMap locatorOf?)

/-- The languages in a list with commas, in small letters, blank pieces left out. -/
def languageList (text : String) : List String :=
  (splitAtChar ',' text.toList).filterMap fun piece =>
    let name := Text.trimBoth Text.isBlank piece
    if name.isEmpty then none else some (String.ofList (Text.lowerChars name))

/-- The configuration as the environment states it, not yet validated. -/
def fromEnvironment (env : Environment) (defaults : LocatorTable := defaultLocators) :
    Except Fault Config := do
  let attempts ← env.whole "PARSER_BOOT_RETRY_ATTEMPTS" 3
  let wait ← env.real "PARSER_BOOT_RETRY_WAIT" 0.5
  let workers ← env.whole "PARSER_IO_WORKERS" 4
  let size ← env.whole "PARSER_MAX_FILE_SIZE" 1000000
  return {
    engineModule := env.valueOr "PARSER_ENGINE_MODULE" "tree_sitter"
    bootAttempts := attempts
    bootWait := wait
    locators := locatorsFrom env defaults
    preload := languageList (env.valueOr "PARSER_PRELOAD_LANGUAGES" "")
    workers := workers
    maxFileSize := size }

/-- The line that tells of a loaded configuration. -/
def loadedLine (c : Config) : LogLine :=
  .info ("Loaded parsing configuration: engine=" ++ c.engineModule ++ ", languages=" ++
    toString c.locators.size ++ ", I/O=" ++ toString c.workers ++ ", preload=" ++ listed c.preload)

/-- The configuration that an environment gives, and what is logged about it. -/
def load (env : Environment) (defaults : LocatorTable := defaultLocators) :
    Except Fault (Config × List LogLine) := do
  let c ← fromEnvironment env defaults
  let (valid, warned) := c.validate
  return (valid, warned ++ [loadedLine valid])

end Config

end SourceTrees
