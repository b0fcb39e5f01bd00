import SourceTrees.Json

/-!
# Faults

Everything that can go wrong in a call: faults of the service itself, faults that engines, grammars
and files bring in, and the cancellation of a call.

A fault has a kind, a message, and what the service knows about its circumstances: the language, the
locator, the engine module, further details, and the fault that caused it.  A circumstance is kept as
it was given; null stands for one that is not known.

## Results

* `Kind.isTransient` — which faults of a start-up are worth another attempt.
* `Kind.isOrdinary` — which faults may be caught and reported; cancellation and an interrupt
  pass through.
* `category`, `report` — how a fault of the service is told to a client.
* `raisedWith` — a fault raised with circumstances; each kind takes some and refuses the others.
* `unsupported`, `notReady`, `unbootable`, … — one constructor for each cause, which fixes the
  wording.
-/

set_option autoImplicit false

namespace SourceTrees

/-- The kinds of fault. -/
inductive Fault.Kind where
  | importFailed
  | moduleMissing
  | system
  | accessDenied
  | fileMissing
  | running
  | value
  | type
  | missingName
  | memory
  | lookup
  | index
  | frozen
  | interrupt
  | cancelled
  | service
  | boot
  | unsupported
  | grammar
  | parse
  deriving DecidableEq, Repr, Inhabited

/-- A fault. -/
structure Fault where
  kind : Fault.Kind
  message : String
  details : Json := .obj []
  language : Json := .null
  locator : Json := .null
  engine : Json := .null
  cause : Option (Fault.Kind × String) := none
  deriving Inhabited, BEq

namespace Fault

/-! ## Kinds -/

namespace Kind

/-- The name under which a kind is reported. -/
def name : Kind → String
  | importFailed => "ImportError"
  | moduleMissing => "ModuleNotFoundError"
  | system => "OSError"
  | accessDenied => "PermissionError"
  | fileMissing => "FileNotFoundError"
  | running => "RuntimeError"
  | value => "ValueError"
  | type => "TypeError"
  | missingName => "AttributeError"
  | memory => "MemoryError"
  | lookup => "LookupError"
  | index => "IndexError"
  | frozen => "FrozenInstanceError"
  | interrupt => "KeyboardInterrupt"
  | cancelled => "CancelledError"
  | service => "SyntaxParserError"
  | boot => "BootFailure"
  | unsupported => "UnsupportedLanguage"
  | grammar => "GrammarLoadFailure"
  | parse => "ParseFailure"

/-- The kinds that engines, grammars, files and transports bring in.  The others come of looking at a
    tree only. -/
def broughtIn : List Kind :=
  [importFailed, moduleMissing, system, accessDenied, fileMissing, running, value, type, missingName,
    memory, interrupt, cancelled, service, boot, unsupported, grammar, parse]

/-- The kind of a given name, if faults of it are brought in. -/
def named? (name : String) : Option Kind := broughtIn.find? fun k => k.name == name

/-- Is the fault one of the service itself? -/
def isOwn : Kind → Bool
  | service | boot | unsupported | grammar | parse => true
  | _ => false

/-- Did an import fail? -/
def isImport : Kind → Bool
  | importFailed | moduleMissing => true
  | _ => false

/-- Did the operating system refuse? -/
def isSystem : Kind → Bool
  | system | accessDenied | fileMissing => true
  | _ => false

/-- Faults of importing and of the system may pass, so a start-up tries again. -/
def isTransient (k : Kind) : Bool := k.isImport || k.isSystem

/-- Faults that may be caught.  An interrupt and a cancellation may not. -/
def isOrdinary : Kind → Bool
  | interrupt | cancelled => false
  | _ => true

/-- Which side a fault is put down to. -/
def category : Kind → String
  | unsupported => "caller"
  | boot | grammar => "resource"
  | parse => "parse"
  | service => "syntax_parser"
  | _ => "unknown"

/-- The service's kinds that a kind belongs to, in order of name. -/
def families : Kind → List Kind
  | boot => [boot, service]
  | grammar => [grammar, service]
  | parse => [parse, service]
  | service => [service]
  | unsupported => [service, unsupported]
  | _ => []

theorem isOwn_isOrdinary {k : Kind} (h : k.isOwn = true) : k.isOrdinary = true := by
  cases k <;> simp_all [isOwn, isOrdinary]

theorem isTransient_isOrdinary {k : Kind} (h : k.isTransient = true) : k.isOrdinary = true := by
  cases k <;> simp_all [isTransient, isImport, isSystem, isOrdinary]

end Kind

/-! ## Telling of a fault -/

/-- The side that the fault is put down to. -/
def category (f : Fault) : String := f.kind.category

/-- A member for a circumstance that is known and not empty. -/
def circumstance (name : String) (value : Json) : List (String × Json) :=
  if value.isPresent then [(name, value)] else []

/-- A fault of the service as it is told to a client. -/
def report (f : Fault) : Json :=
  .obj <|
    [("error_type", .str f.kind.name), ("message", .str f.message), ("category", .str f.category)] ++
      circumstance "language" f.language ++ circumstance "locator" f.locator ++
      circumstance "engine_module" f.engine ++ circumstance "additional_details" f.details

/-- The circumstances that faults of the kind can have besides details, whether they are known or
    not. -/
def circumstances (f : Fault) : List (String × Json) :=
  let language := ("language", f.language)
  match f.kind with
  | .unsupported | .parse => [language]
  | .grammar => [language, ("locator", f.locator)]
  | .boot => [("engine_module", f.engine)]
  | _ => []

/-- The fault as the cause of another. -/
def asCause (f : Fault) : Option (Kind × String) := some (f.kind, f.message)

/-! ## Causes -/

/-- A fault of a kind with a message and nothing else. -/
def plain (kind : Kind) (message : String) : Fault := { kind, message }

/-- The circumstances that a fault of the kind can be raised with. -/
def Kind.accepts : Kind → List String
  | .service => ["details"]
  | .boot => ["engine_module", "details"]
  | .unsupported => ["language"]
  | .grammar => ["language", "locator", "details"]
  | .parse => ["language", "details"]
  | _ => []

/-- What is said of a circumstance that the kind does not take. -/
def Kind.refusal (kind : Kind) (circumstance : String) : String :=
  if kind.isOwn then
    kind.name ++ ".__init__() got an unexpected keyword argument '" ++ circumstance ++ "'"
  else if kind.isImport then
    "'" ++ circumstance ++ "' is an invalid keyword argument for ImportError()"
  else if kind = .missingName then
    "'" ++ circumstance ++ "' is an invalid keyword argument for AttributeError()"
  else kind.name ++ "() takes no keyword arguments"

/-- A fault raised with circumstances, or the refusal of the first of them that its kind does not
    take.  Details that hold nothing are none. -/
def raisedWith (kind : Kind) (message : String) (given : List (String × Json)) :
    Except Fault Fault :=
  match given.find? fun g => !kind.accepts.contains g.1 with
  | some (name, _) => .error (plain .type (kind.refusal name))
  | none =>
    let value (name : String) : Json := ((Json.obj given).member? name).getD .null
    .ok
      { kind, message
        details := if (value "details").isPresent then value "details" else .obj []
        language := value "language"
        locator := value "locator"
        engine := value "engine_module" }

/-- The call was cancelled. -/
def cancellation : Fault := plain .cancelled ""

/-- The language has no locator. -/
def unsupported (language : Json) (supported : List String) : Fault :=
  { kind := .unsupported
    message :=
      "Unsupported language: " ++ language.literal ++ " (supported: " ++
        ", ".intercalate supported ++ ")"
    language := match language with | .str _ => language | _ => .null }

/-- The engine was asked for before it was booted. -/
def notReady (phase engine : String) : Fault :=
  { kind := .boot
    message := "Parsing engine is not ready (state: " ++ phase ++ ")"
    engine := .str engine }

/-- The engine module lacks parts that every engine has. -/
def incomplete (engine : String) (missing : List String) : Fault :=
  { kind := .boot
    message := "Engine module '" ++ engine ++ "' does not provide " ++ ", ".intercalate missing
    engine := .str engine }

/-- The engine module could not be loaded. -/
def unbootable (engine : String) (cause : Fault) : Fault :=
  { kind := .boot
    message := "Could not load parsing engine '" ++ engine ++ "': " ++ cause.message
    engine := .str engine
    cause := cause.asCause }

/-- A grammar could not be fetched or compiled. -/
def unloadable (language locator : String) (cause : Fault) : Fault :=
  { kind := .grammar
    message := "Could not load grammar for " ++ language ++ ": " ++ cause.message
    language := .str language
    locator := .str locator
    cause := cause.asCause }

/-- No parser could be bound to a grammar. -/
def unbindable (language : String) (locator : Option String) (cause : Fault) : Fault :=
  { kind := .grammar
    message := "Could not bind a parser to the " ++ language ++ " grammar: " ++ cause.message
    language := .str language
    locator := Json.ofOption locator
    details := .obj [("stage", .str "parser_construction")]
    cause := cause.asCause }

/-- The parser raised a fault. -/
def parserRaised (language : String) (cause : Fault) : Fault :=
  { kind := .parse
    message := "Failed to parse code for language: " ++ language ++ ": " ++ cause.message
    language := .str language
    cause := cause.asCause }

/-- The parser gave no tree. -/
def noTree (language : String) : Fault :=
  { kind := .parse
    message := "Failed to parse code for language: " ++ language
    language := .str language }

/-- The code is neither text nor bytes. -/
def notSource (code : Json) : Fault :=
  plain .type ("Source code must be str or bytes, got " ++ code.typeName)

/-- A field of an immutable value cannot be assigned. -/
def unassignable (field : String) : Fault :=
  plain .frozen ("cannot assign to field " ++ Text.quoted field)

/-- A field of an immutable value cannot be deleted. -/
def undeletable (field : String) : Fault :=
  plain .frozen ("cannot delete field " ++ Text.quoted field)

/-- A node has no child at the position. -/
def noChild (position : Int) : Fault :=
  plain .index <|
    if -0x8000000000000000 ≤ position ∧ position < 0x8000000000000000 then "tuple index out of range"
    else "cannot fit 'int' into an index-sized integer"

/-- The name of a character set is no text. -/
def notCharsetName (value : Json) : Fault :=
  plain .type ("decode() argument 'encoding' must be str, not " ++
    match value with | .null => "None" | _ => value.typeName)

/-- No character set goes by the name. -/
def unknownCharset (name : String) : Fault := plain .lookup ("unknown encoding: " ++ name)

/-- The name of a character set has a null in it. -/
def nullInName : Fault := plain .value "embedded null character"

/-- The worker pool takes no more jobs. -/
def poolClosed : Fault := plain .running "cannot schedule new futures after shutdown"

end Fault

end SourceTrees
