import SourceTrees.Config.Environment
import SourceTrees.Keyed

/-!
# The server

The service is offered to clients as a set of tools over one of two transports.  Everything about
the server is set by the environment.

## Protocol

* `HOST` and `PORT` say where to listen; a port that is no number is a fault.
* `TRANSPORT` chooses server-sent events if it is `sse` or not set; any other value means standard
  input and output.
* `LOG_LEVEL` names the least severity that is logged, in any letter case.  An unknown name means
  info, except for two names that stand for something else, which is refused: that of the basic
  format and that of the table of styles.
* A server is run by setting up the log and then serving until the transport ends.  An interrupt
  of the transport is a normal end; any other fault of it comes out of the server.
-/

set_option autoImplicit false

namespace SourceTrees.Server

/-- The identity and address of a server. -/
structure Settings where
  name : String := "syntax-parser"
  instructions : String := "MCP server that parses source code into tree-sitter syntax trees"
  host : String
  port : Int
  deriving DecidableEq, Repr, Inhabited

/-- The settings that an environment gives. -/
def settings (env : Environment) : Except Fault Settings := do
  let port ← env.whole "PORT" 8052
  return { host := env.valueOr "HOST" "0.0.0.0", port }

/-! ## Tools -/

/-- A tool as clients see it: its name, its parameters, and how many of them, from the first on,
    must be given. -/
structure Tool where
  name : String
  parameters : List String
  required : Nat
  deriving DecidableEq, Repr, Inhabited

/-- The parameters that must be given. -/
def Tool.requiredParameters (t : Tool) : List String := t.parameters.take t.required

/-- The tools of the service. -/
def tools : List Tool :=
  [⟨"parse_code", ["code", "language", "max_depth"], 2⟩,
    ⟨"parse_source_file", ["file_path", "max_depth"], 1⟩,
    ⟨"detect_file_language", ["file_path"], 1⟩,
    ⟨"get_parser_status", [], 0⟩]

/-- The names of the tools in order. -/
def toolNames : List String := (tools.map Tool.name).mergeSort fun a b => decide (a ≤ b)

/-! ## Transports -/

/-- How clients reach the server. -/
inductive Transport where
  | events
  | stdio
  deriving DecidableEq, Repr, Inhabited

/-- The name of a transport. -/
def Transport.name : Transport → String
  | events => "sse"
  | stdio => "stdio"

/-- The transport that an environment chooses. -/
def transport (env : Environment) : Transport :=
  if env.valueOr "TRANSPORT" "sse" = "sse" then .events else .stdio

/-- One run of a transport. -/
structure Run where
  transport : Transport
  settings : Settings
  deriving DecidableEq, Repr, Inhabited

/-- Serves clients, given how the transport ends.  The answer is the transport that was run, if any,
    and how serving ended. -/
def serve (env : Environment) (transportEnd : Option Fault) : List Run × Except Fault Unit :=
  match settings env with
  | .error f => ([], .error f)
  | .ok s =>
    ([⟨transport env, s⟩],
      match transportEnd with
      | none => .ok ()
      | some f => if f.kind = .interrupt then .ok () else .error f)

/-- The lines that tell of a transport from its start to its end. -/
def transportLines (t : Transport) (transportEnd : Option Fault) : List LogLine :=
  [.info (match t with
    | .events => "Starting SSE transport server..."
    | .stdio => "Starting stdio transport server...")] ++
  (match transportEnd with
    | none => []
    | some f =>
      if f.kind = .interrupt then [.info "Keyboard interrupt received, shutting down..."]
      else if f.kind.isOrdinary then [.error ("Server error: " ++ f.message)]
      else []) ++
  [.info "Server shutdown completed"]

/-- The lines that a server logs while it serves. -/
def serveLines (env : Environment) (transportEnd : Option Fault) : List LogLine :=
  [.info "Starting syntax parser MCP server...", .info "Creating FastMCP application instance..."] ++
  match settings env with
  | .error _ => []
  | .ok s =>
    [.info ("FastMCP application created - Host: " ++ s.host ++ ", Port: " ++ toString s.port),
      .info "Registering MCP tools...", .info "MCP tools registration completed",
      .info ("Using transport: " ++ env.valueOr "TRANSPORT" "sse")] ++
    transportLines (transport env) transportEnd

/-! ## The log -/

/-- The names of levels. -/
def levels : List (String × Nat) :=
  [("CRITICAL", 50), ("FATAL", 50), ("ERROR", 40), ("WARNING", 30), ("WARN", 30), ("INFO", 20),
    ("DEBUG", 10), ("NOTSET", 0)]

/-- The level before the log is set up. -/
def initialLevel : Nat := 30

/-- How a line of the log is laid out. -/
def logFormat : String := "%(asctime)s - %(name)s - %(levelname)s - %(message)s"

/-- The layout that goes by the name of the basic format. -/
def basicFormat : String := "%(levelname)s:%(name)s:%(message)s"

/-- The table that goes by the name of the styles, as a message shows it. -/
def styleTable : String :=
  "\x7b'%': (<class 'logging.PercentStyle'>, '%(levelname)s:%(name)s:%(message)s'), " ++
    "'\x7b': (<class 'logging.StrFormatStyle'>, '\x7blevelname\x7d:\x7bname\x7d:\x7bmessage\x7d'), " ++
    "'$': (<class 'logging.StringTemplateStyle'>, '$\x7blevelname\x7d:$\x7bname\x7d:$\x7bmessage\x7d')\x7d"

/-- The capitals of a letter, as far as names of levels can tell.  Besides the small letters of the
    basic alphabet these have basic capitals: the small I without dot, the long S, and the joined
    letters of the old type cases. -/
def capitals (c : Char) : List Char :=
  if c = 'ı' then ['I']
  else if c = 'ſ' then ['S']
  else if c = 'ß' then ['S', 'S']
  else if c = 'ﬀ' then ['F', 'F']
  else if c = 'ﬁ' then ['F', 'I']
  else if c = 'ﬂ' then ['F', 'L']
  else if c = 'ﬃ' then ['F', 'F', 'I']
  else if c = 'ﬄ' then ['F', 'F', 'L']
  else if c = 'ﬅ' ∨ c = 'ﬆ' then ['S', 'T']
  else [c.toUpper]

/-- The level that an environment names. -/
def level (env : Environment) : Except Fault Nat :=
  let name := String.ofList ((env.valueOr "LOG_LEVEL" "INFO").toList.flatMap capitals)
  if name = "BASIC_FORMAT" then
    .error (.plain .value ("Unknown level: " ++ Text.quoted basicFormat))
  else if name = "_STYLES" then
    .error (.plain .type ("Level not an integer or a valid string: " ++ styleTable))
  else
    match levels.find? (·.1 == name) with
    | some (_, n) => .ok n
    | none => .ok 20

/-- The log as it is set up: its level, and the layouts of its outlets. -/
structure LogSetup where
  level : Nat := initialLevel
  formats : List String := []
  deriving DecidableEq, Repr, Inhabited

/-- Sets up the log.  If that fails, it is left as it was. -/
def setUpLog (env : Environment) : LogSetup × Except Fault Unit :=
  match level env with
  | .ok n => ({ level := n, formats := [logFormat] }, .ok ())
  | .error f => ({}, .error f)

/-- Runs a server from its start to the end of its transport. -/
def runToEnd (env : Environment) (transportEnd : Option Fault) : LogSetup × List Run × Except Fault Unit :=
  match setUpLog env with
  | (log, .error f) => (log, [], .error f)
  | (log, .ok _) =>
    let (runs, result) := serve env transportEnd
    (log, runs, result)

end SourceTrees.Server
