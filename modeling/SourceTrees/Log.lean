/-!
# The log

What the service notes down while it works: lines with a severity, in order.
-/

set_option autoImplicit false

namespace SourceTrees

/-- How much a line of the log matters. -/
inductive Severity where
  | info
  | warning
  | error
  deriving DecidableEq, Repr, Inhabited

namespace Severity

/-- The name under which a severity is written. -/
def name : Severity → String
  | info => "INFO"
  | warning => "WARNING"
  | error => "ERROR"

/-- The number that orders severities. -/
def rank : Severity → Nat
  | info => 20
  | warning => 30
  | error => 40

end Severity

/-- A line of the log. -/
structure LogLine where
  severity : Severity
  text : String
  deriving DecidableEq, Repr, Inhabited

namespace LogLine

/-- A line of severity info. -/
def info (text : String) : LogLine := ⟨.info, text⟩

/-- A line of severity warning. -/
def warning (text : String) : LogLine := ⟨.warning, text⟩

/-- A line of severity error. -/
def error (text : String) : LogLine := ⟨.error, text⟩

end LogLine

end SourceTrees
