import SourceTrees.Server

/-!
# The command line

Runs a server as the environment of the process says.  The lines of its log go to standard error, as
far as the level lets them through; a fault that comes out of the server follows them and makes the
process fail.

The wire of the transports is not part of this library: no client comes, and the transport ends as
soon as it has been started.
-/

set_option autoImplicit false

namespace SourceTrees.Main

/-- The variables that a server reads. -/
def variableNames : List String := ["HOST", "PORT", "TRANSPORT", "LOG_LEVEL"]

/-- The environment of the process, as far as a server reads it. -/
def environment : IO Environment := do
  let mut env : Environment := .empty
  for name in variableNames do
    if let some value ← IO.getEnv name then env := env.put name value
  return env

/-- A line of the log as it is printed. -/
def printed (line : LogLine) : String := line.severity.name ++ " - " ++ line.text

/-- Runs a server in an environment; the answer is the exit code of the process. -/
def run (env : Environment) (err : IO.FS.Stream) : IO UInt32 := do
  let (log, _, result) := Server.runToEnd env none
  unless log.formats.isEmpty do
    for line in Server.serveLines env none do
      if log.level ≤ line.severity.rank then err.putStrLn (printed line)
  match result with
  | .ok _ => return 0
  | .error f => do
    err.putStrLn (f.kind.name ++ ": " ++ f.message)
    return 1

end SourceTrees.Main

def main : IO UInt32 := do SourceTrees.Main.run (← SourceTrees.Main.environment) (← IO.getStderr)
