import SourceTrees.Proofs.Config.Locators
import SourceTrees.Proofs.Service.Accepting
import SourceTrees.Proofs.Service.AtOnce
import SourceTrees.Proofs.Service.ParseFaults
import SourceTrees.Proofs.Service.Requests
import SourceTrees.Proofs.Service.Unbegun

/-!
# Files

A call for a file tells the language from the path.  If there is one the call is a parse in that language, and
no difference can be seen; if there is none the file is skipped, and nothing else is done.

## Protocol

* The service is configured by an environment, in which any locators are set.
* Nothing is assumed of the world, of what else is called and cancelled, nor of the order in which errands are
  served and jobs done.

## Results

* `Service.SkipsFile`, `Service.FileSkipped` — what a call does for a file that has no language.
* `Service.FileParsed` — with what it ends for a file that has one.
* **`Service.parses_files`** — the law for every run.
-/

set_option autoImplicit false

namespace SourceTrees

/-- A call for a file begins as a parse in the file's language. -/
theorem Calls.start_parseFile {path : Json} {language : String}
    (hd : Parsing.detect path = some language) (code : Code) :
    start (.parse code (.str language)) = start (.parseFile code path) := by
  funext s
  simp only [start, Tools.parseAs, hd]

/-- What is counted of a file that is skipped. -/
def Service.skipped (s : Service) : Service :=
  { s with counts := { s.counts with parses := { s.counts.parses with
      skipped := s.counts.parses.skipped + 1 } } }

/-- A call for a file that has no language returns nothing, and counts the file. -/
theorem Calls.start_parseFile_of_none {path : Json} (hd : Parsing.detect path = none) (code : Code)
    (s : Service) : start (.parseFile code path) s = (.finish (.ok .nothing), s.skipped) := by
  simp only [start, Tools.parseAs, hd]
  rfl

namespace Service

open Loop

variable {s : Service} {roles : Roles Hook Job} {w : Woken} {m : Midst} {ms : List Service.Move}
  {c : PromiseId} {turn : Turn Stage Reply} {config : Config} {code : Code} {path : Json} {language : String}

/-! ## Files that have a language -/

/-- A call for a file has not begun, or its parse is under way. -/
def IsFileCall (config : Config) (code : Code) (path : Json) (stage : Stage) : Prop :=
  stage = .start (.parseFile code path) ∨
    ∃ point, stage = .parse .tree point ∧ point.IsAccepted config

/-- With what the call ends: with a tree, with a fault, which is not that the language is not supported, or in
    a cancellation. -/
def FileParsed : Settled Reply → Prop
  | .value r => ∃ t, r = .tree t
  | .failed f => f.kind ≠ .unsupported
  | .cancelled => True

theorem fileParsed_error {f : Fault} (h : f.kind ≠ .unsupported) : FileParsed (Program.ended (.error f)) := by
  unfold Program.ended
  dsimp only
  split
  · trivial
  · exact h

/-- A parse goes on, and its tree is replied. -/
theorem goes_replyTree {turn : Turn ParseStage Tree} (h : turn.Accepts (ParseStage.IsAccepted config)) :
    Goes (IsFileCall config code path) FileParsed (replyTree turn) := by
  cases turn with
  | rest p point | giveWay point => exact .inr ⟨point, rfl, h⟩
  | finish result =>
    cases result with
    | ok t => exact ⟨t, rfl⟩
    | error f => exact fileParsed_error (h f rfl)

/-- A turn of a call for a file that has a language. -/
theorem Accepting.goes_file (h : Accepting s roles) (ho : AtRest s roles) (ht : HasTurn s roles w m turn)
    (hconfig : s.config = config) (hl : config.hasLocator language = true)
    (hd : Parsing.detect path = some language) (hs : IsFileCall config code path w.stage) :
    Goes (IsFileCall config code path) FileParsed turn := by
  have hbefore : w.before.config = config := by
    obtain ⟨i, hb⟩ := ht.before
    rw [hb]
    exact hconfig
  have hturn : (Calls.resume w.stage w.given w.before).1 = turn := congrArg Prod.fst ht.resumed
  rcases hs with hs | ⟨point, hs, hp⟩
  · have hgiven := h.accepted_given ho ht (by rw [hs]; rfl)
    rw [hs] at hturn
    cases hg : w.given with
    | error f =>
      rw [hg] at hturn hgiven
      subst hturn
      exact fileParsed_error (hgiven f rfl)
    | ok r =>
      have hsame : Calls.resume (.start (.parseFile code path)) (.ok r) w.before =
          Calls.resume (.start (.parse code (.str language))) (.ok r) w.before :=
        congrFun (Calls.start_parseFile hd code).symm w.before
      rw [hg, hsame, startParse_eq] at hturn
      subst hturn
      exact goes_replyTree (Parsing.accepts_request hl code w.before hbefore)
  · rw [hs, resumeParse_eq] at hturn
    subst hturn
    refine goes_replyTree (Parsing.accepts_resume hp (fun hrun => ?_) w.before hbefore)
    exact h.accepted_given ho ht (by rw [hs]; exact ParseStage.isInner_rest hrun)

/-- What becomes of the call. -/
theorem keeps_file (hl : config.hasLocator language = true) (hd : Parsing.detect path = some language) :
    Keeps (fun _ _ => True) (fun s roles => Accepting s roles ∧ s.config = config) c
      (fun _ => IsFileCall config code path) fun _ => FileParsed where
  step ho _ _ h hst := ⟨h.1.step ho hst, (hst.engine_named ho).1.trans h.2⟩
  turn ho _ h ht _ _ hs := h.1.goes_file ho ht h.2 hl hd hs
  stay _ _ _ _ := id
  keep _ _ _ _ := id

/-! ## Files that have none -/

/-- If the move gives the task its turn, the task ends in it: the file is counted as skipped, and nothing else
    is done; or nothing is done at all, since the task was cancelled before. -/
def SkipsFile (c : PromiseId) (s : Service) (mv : Service.Move) : Prop :=
  ∀ w, s.turnOf? mv = some w → w.task = c →
    s.move mv = program.change w.before.skipped (Program.conclude c (.finish (.ok .nothing))) ∨
      w.isBarred = true ∧
        s.move mv = program.change w.before (Program.conclude c (.finish (.error .cancellation)))

/-- The call has had its one turn, or it was cancelled before. -/
def HasSkipped (s : Service) (ms : List Service.Move) (c : PromiseId) : Prop :=
  (s.moves ms).loop.outcome? c = some (.value .nothing) ∨
    (s.moves ms).loop.outcome? c = some .cancelled ∧ Barred s ms c

/-- The law for a call for a file that has no language, from its beginning on. -/
structure FileSkipped (s : Service) (ms : List Service.Move) (c : PromiseId) : Prop where
  /-- The call is on its way to its one turn, or it has returned nothing, unless it was cancelled. -/
  ends : (∀ w ∈ taken s ms, w.task ≠ c) ∧ .step c ∈ (s.moves ms).loop.agenda ∧
      (s.moves ms).loop.isPending c = true ∨ HasSkipped s ms c
  /-- In its turn it does nothing else. -/
  skips : Along (SkipsFile c) s ms

/-- A file that has no language is skipped, however the run goes on. -/
theorem fileSkipped (hd : Parsing.detect path = none) (ho : AtRest s roles)
    (hplace : s.loop.place? c = some (.start (.parseFile code path), none)) (ms : List Service.Move) :
    FileSkipped s ms c := by
  have hanswered : AnsweredAtOnce skipped (.ok .nothing) s ms c :=
    answeredAtOnce (fun s' _ => Calls.start_parseFile_of_none hd code s') ho hplace ms
  exact ⟨hanswered.ends, hanswered.alone⟩

/-- A call for a file that has no language returns nothing, or it is cancelled. -/
theorem FileSkipped.outcome {o : Settled Reply} (h : FileSkipped s ms c)
    (hout : (s.moves ms).loop.outcome? c = some o) : o = .value .nothing ∨ o = .cancelled := by
  have hanswered : AnsweredAtOnce skipped (.ok .nothing) s ms c := ⟨h.ends, h.skips⟩
  exact hanswered.outcome hout

/-! ## Runs -/

/-- The law for a call for a file, which is begun in the state, and for the moves that come after it. -/
structure ParsesFile (s : Service) (code : Code) (path : Json) (after : List Service.Move) : Prop where
  /-- A file whose path tells no language is skipped. -/
  skipped : Parsing.detect path = none →
    FileSkipped (s.move (.act (.spawn (.parseFile code path)))) after s.loop.promises.size
  /-- If the path tells a language nobody sees a difference to a parse in that language: the services are the
      same, but for what the call asks for as long as it has not begun. -/
  parsed : ∀ {language}, Parsing.detect path = some language →
    SameBut (.parseFile code path) (.parse code (.str language)) s.loop.promises.size
        ((s.move (.act (.spawn (.parseFile code path)))).moves after)
        ((s.move (.act (.spawn (.parse code (.str language))))).moves after) ∧
      ∀ p, ((s.move (.act (.spawn (.parse code (.str language))))).moves after).loop.outcome? p =
        ((s.move (.act (.spawn (.parseFile code path)))).moves after).loop.outcome? p
  /-- Nothing is returned for a file that has no language, and for no other. -/
  returned : ∀ {r}, ((s.move (.act (.spawn (.parseFile code path)))).moves after).loop.outcome?
      s.loop.promises.size = some (.value r) → (r = .nothing ↔ Parsing.detect path = none)
  /-- The language of a file is supported. -/
  supported : ∀ {f}, ((s.move (.act (.spawn (.parseFile code path)))).moves after).loop.outcome?
      s.loop.promises.size = some (.failed f) → f.kind ≠ .unsupported

/-- **Every file that has a language is parsed, however locators are set.** -/
theorem parses_files (env : Environment) {config : Config} {lines : List LogLine}
    (hconfig : Config.load env = .ok (config, lines)) (world : World) (eager : Bool) (stuck : Option Fault)
    (log : List LogLine) (before after : List Service.Move) (code : Code) (path : Json) :
    ParsesFile ((opened config world eager stuck log).moves before) code path after := by
  -- The call is begun in a service that is in order, and waits for its turn.
  obtain ⟨roles, ho, _, hinv⟩ := exists_atRest
    (I := fun s roles => Accepting s roles ∧ s.config = config)
    (fun ho _ h hst => ⟨h.1.step ho hst, (hst.engine_named ho).1.trans h.2⟩) before
    (Ordered.opened config world eager stuck log).rest ⟨.opened .., config_opened ..⟩
  generalize (opened config world eager stuck log).moves before = s at ho hinv ⊢
  obtain ⟨roles', hst⟩ := exists_step ho (.act (.spawn (.parseFile code path)))
  have hskipped := fun hd => fileSkipped hd (ho.step hst).1 (place?_spawned s (.parseFile code path)) after
  have hparsed : ∀ {language o}, Parsing.detect path = some language →
      ((s.move (.act (.spawn (.parseFile code path)))).moves after).loop.outcome?
        s.loop.promises.size = some o → FileParsed o := fun {language o} hd hout =>
    outcome_of_began (keeps_file (Config.hasLocator_of_detect hconfig hd) hd) (fun _ => .inl rfl) ho
      (along_of_forall (fun _ _ => trivial) (.act (.spawn (.parseFile code path)) :: after)) hinv
      ⟨[], after, rfl, rfl⟩ hout
  refine ⟨hskipped, fun {language} hd => ?_, fun {r} hout => ?_, fun {f} hout => ?_⟩
  · have hsame := sameBut_moves (Calls.start_parseFile hd code) (sameBut_spawned s) after
    exact ⟨hsame, hsame.outcome?_eq⟩
  · cases hd : Parsing.detect path with
    | none =>
      rcases (hskipped hd).outcome hout with h | h <;> cases h
      simp
    | some language =>
      obtain ⟨t, rfl⟩ := hparsed hd hout
      simp
  · cases hd : Parsing.detect path with
    | none => rcases (hskipped hd).outcome hout with h | h <;> cases h
    | some language => exact hparsed hd hout

/-- An environment that sets the locators of two languages, one of them to nothing, and one that no file
    has. -/
def relocating : Environment where
  entries := [("GRAMMAR_LOCATOR_PYTHON", " tree_sitter_python:language "), ("GRAMMAR_LOCATOR_JAVA", " "),
    ("GRAMMAR_LOCATOR_Ada", "tree_sitter_ada")]

/-- The configuration that the environment gives. -/
def relocated : Config := ((Config.load relocating).toOption.map Prod.fst).getD {}

/-- For a file an engine is loaded and a grammar fetched; the source is parsed and the tree copied. -/
def parsedToEnd : List Service.Move :=
  List.replicate 8 (.serve 0) ++ .act (.release 0) :: List.replicate 8 (.serve 0) ++
    .act (.release 0) :: List.replicate 8 (.serve 0) ++
    .act (.release 0) :: List.replicate 8 (.serve 0) ++
    .act (.release 0) :: List.replicate 8 (.serve 0)

/-- A file is parsed by the grammar that the environment locates, and one of another kind is skipped. -/
theorem parses_files_relocated :
    ∃ lines, Config.load relocating = .ok (relocated, lines) ∧
      relocated.locators.get? "java" = defaultLocators.get? "java" ∧
      ParsesFile (opened relocated singleLanguage false none []) (.text "x = 1") (.str "src/App.PY") parsedToEnd ∧
      ((((opened relocated singleLanguage false none []).move (.act (.spawn (.parseFile (.text "x = 1")
        (.str "src/App.PY"))))).moves parsedToEnd).loop.outcome? 0).map Settled.isTree = some true ∧
      ParsesFile (opened relocated singleLanguage false none []) (.text "x = 1") (.str "App.ada") parsedToEnd ∧
      (((opened relocated singleLanguage false none []).move (.act (.spawn (.parseFile (.text "x = 1")
        (.str "App.ada"))))).moves parsedToEnd).counts.parses.skipped = 1 := by
  have hloaded : ∃ lines, Config.load relocating = .ok (relocated, lines) := ⟨_, rfl⟩
  obtain ⟨lines, hconfig⟩ := hloaded
  have hparses := fun path => parses_files relocating hconfig singleLanguage false none [] [] parsedToEnd
    (.text "x = 1") (.str path)
  exact ⟨lines, hconfig, by decide +kernel, hparses _, by decide +kernel, hparses _, by decide +kernel⟩

end Service

end SourceTrees
