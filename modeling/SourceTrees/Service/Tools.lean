import SourceTrees.Engine.Files
import SourceTrees.Service.Parsing
import SourceTrees.Service.Reports
import SourceTrees.Tree.Outline

/-!
# Tools

The service as tools for a client: each takes plain values and answers with a document.

* A parsed tree is answered with its outline to a depth, together with the length of the source and
  the number of error nodes in the whole tree.
* Faults of the service are answered as documents too, and logged; other faults come out of the
  tool.
* The file tool looks at the path before it reads: a file whose type has no language is skipped, and
  one that is missing or too large is refused, all without touching the service.
-/

set_option autoImplicit false

namespace SourceTrees.Tools

open Work

/-- How many levels an outline has if nothing is said. -/
def defaultDepth : Int := 6

/-- The answer for a parsed tree. -/
def treeAnswer (t : Tree) (depth : Option Int) (extra : List (String × Json)) : Json :=
  .object <|
    [("success", .bool true)] ++ extra ++
      [("byte_length", .int t.source.length), ("error_count", .int t.errorNodes.length)] ++
      t.members depth

/-- The document for a parsed tree. -/
def treeDocument (t : Tree) (depth : Option Int) (extra : List (String × Json)) : String :=
  (treeAnswer t depth extra).pretty

/-- What a document says of a fault. -/
def faultMember (f : Fault) : Json :=
  if f.kind.isOwn then f.report
  else .obj [("error_type", .str f.kind.name), ("message", .str f.message)]

/-- The document for a fault. -/
def faultDocument (f : Fault) (extra : List (String × Json)) : String :=
  (Json.object ([("success", .bool false)] ++ extra ++ [("error", faultMember f)])).pretty

/-- The document for a file that is skipped. -/
def skippedDocument (path : Json) : String :=
  (Json.obj
    [("success", .bool true), ("skipped", .bool true), ("file_path", path),
      ("reason", .str "Unsupported file type")]).pretty

/-- The document for a file that is refused. -/
def refusedDocument (path : Json) (why : String) : String :=
  (Json.obj [("success", .bool false), ("file_path", path), ("error", .str why)]).pretty

/-- The document that tells a file's language. -/
def languageDocument (path : Json) : String :=
  let language := Parsing.detect path
  (Json.obj
    [("file_path", path), ("language", Json.ofOption language),
      ("supported", .bool language.isSome)]).pretty

/-! ## Files -/

/-- Looks at a path before the file is read. -/
def checkPath (w : World) (path : Json) (limit : Int) : PathCheck :=
  match path with
  | .str path =>
    if path.isEmpty then .invalid "File path is required"
    else
      match w.fileSize? path with
      | none => .invalid ("File not found: " ++ path)
      | some size =>
        if limit < size then
          .invalid ("File too large: " ++ toString size ++ " bytes (limit " ++ toString limit ++ ")")
        else .valid size
  | _ => .invalid "File path is required"

/-! ## Parsing for a use -/

/-- The reply to a finished parse. -/
def finish (use : ParseUse) (result : Except Fault Tree) : Work (Turn ParseStage Reply) := do
  match use, result with
  | .tree, .ok t => done (.tree t)
  | .tree, .error f => fail f
  | .snippet _ depth, .ok t => done (.text (treeDocument t depth []))
  | .snippet language _, .error f =>
    if f.kind.isOwn then do
      log (.warning ("parse_code failed for " ++ language.display ++ ": " ++ f.message))
      done (.text (faultDocument f [("language", language)]))
    else fail f
  | .file path depth, .ok t => done (.text (treeDocument t depth [("file_path", path)]))
  | .file path _, .error f =>
    if f.kind.isOwn then do
      log (.warning ("parse_source_file failed for " ++ path.display ++ ": " ++ f.message))
      done (.text (faultDocument f [("file_path", path)]))
    else fail f

/-- Asks for a parse for some use. -/
def parse (use : ParseUse) (code : Code) (language : Json) : Work (Turn Stage Reply) := do
  let turn ← Parsing.request code language
  andThen (← andThen turn id (finish use)) (.parse use) (fun r => return .finish r)

/-- Continues a parse for some use. -/
def resumeParse (use : ParseUse) (stage : ParseStage) (given : Except Fault Reply) :
    Work (Turn Stage Reply) := do
  let turn ← Parsing.resume stage given
  andThen (← andThen turn id (finish use)) (.parse use) (fun r => return .finish r)

/-- Parses code as the language of a file, or skips it. -/
def parseAs (use : ParseUse) (code : Code) (path : Json) : Work (Turn Stage Reply) := do
  match Parsing.detect path with
  | some language => parse use code (.str language)
  | none => do
    count fun c => { c with parses := { c.parses with skipped := c.parses.skipped + 1 } }
    done .nothing

/-- The file tool. -/
def parseFile (path : Json) (depth : Option Int) : Work (Turn Stage Reply) := do
  let s ← get
  match Parsing.detect path, path with
  | some _, .str name =>
    match checkPath s.world path s.config.maxFileSize with
    | .invalid why => done (.text (refusedDocument path why))
    | .valid _ =>
      match s.world.readFile name with
      | .error f =>
        if f.kind.isSystem then done (.text (faultDocument f [("file_path", path)])) else fail f
      | .ok source => parseAs (.file path depth) (.bytes source) path
  | _, _ => done (.text (skippedDocument path))

end SourceTrees.Tools
