import SourceTrees.Proofs.Service.ParseCourse
import SourceTrees.Proofs.Tree.Copy

/-!
# Every parse gets its own tree

However many parses run at once, of whatever languages, however they are cancelled and in whatever order
the workers do their jobs: the tree that a parse returns is the copy of what its own job has given, which
was run on the parser of its language over its own code.  A parse whose own job fails gets its own failure.

## Protocol

* A job is the call's own if the call had it in hand at some time: no two calls ever have the same.
* The run may hold any other calls besides; its workers have not been dismissed.

## Results

* `Service.OwnTrees` — the law for a run.
* **`Service.own_trees`** — every run obeys it.
-/

set_option autoImplicit false

namespace SourceTrees.Service

open Loop

variable {s s' : Service} {roles roles' : Roles Hook Job} {mv : Service.Move} {ms : List Service.Move}
  {c : PromiseId} {call : Call} {code : Code} {language : Json}

/-- What a parse of the language's code returns whose job has given the tree: the code's own bytes under
    the language, with the nodes of that tree below the root. -/
structure CopyOf (name : String) (source : List UInt8) (root : Node) (t : Tree) : Prop where
  made : t = .ofEngine name source root
  language : t.language = name
  source : t.source = source
  below : ∀ path, path ≠ [] → t.root.descendant path = root.descendant path

/-- A parser has given no tree, or has raised an ordinary fault. -/
def FailedJob : Except Fault (Option Node) → Prop
  | .ok root => root = none
  | .error f => f.kind.isOrdinary = true

/-- The law for the state that a run comes to. -/
structure OwnTrees (s : Service) (ms : List Service.Move) : Prop where
  /-- A parse that returns has a tree of its own language and code, copied from what the parser of the
      language has given for the job of that very call. -/
  returned : ∀ {c code language v}, Began s ms (.parse code language) c →
    (s.moves ms).loop.outcome? c = some (.value v) →
    ∃ name source job parser root t, language = .str name ∧ code.toSource = .ok source ∧
      HandedIn s ms c name job ∧ (s.moves ms).parser? name = some parser ∧
      Parsed s ms job parser source (.ok (some root)) ∧ v = .tree t ∧ CopyOf name source root t
  /-- A pooled parser is bound to a grammar that was kept for its language, and is kept still unless it
      is null. -/
  bound : ∀ {name parser}, (s.moves ms).parser? name = some parser →
    WasKept s ms name ((s.moves ms).world.grammarOf parser) ∧
      ∀ n, (s.moves ms).world.grammarOf parser = some n →
        Grammars.kept? (s.moves ms) name = some (some n)
  /-- A parse whose own job gives no tree, or raises an ordinary fault, ends with the failure of the
      parser and no other unless it is cancelled; when nothing is left to serve it has done so. -/
  failed : ∀ {c code language name job parser source x}, Began s ms (.parse code language) c →
    HandedIn s ms c name job → Parsed s ms job parser source x → FailedJob x → ¬ CancelledIn s ms c →
    ∃ f, failure? name x = some f ∧ f.kind = .parse ∧ f.language = .str name ∧
      (∀ o, (s.moves ms).loop.outcome? c = some o → o = .failed f) ∧
      ((s.moves ms).loop.agenda = [] → (s.moves ms).loop.outcome? c = some (.failed f))
  /-- No two tasks have the same job. -/
  alone : ∀ {t t' l l' job}, HandedIn s ms t l job → HandedIn s ms t' l' job → t = t' ∧ l = l'
  /-- A parse has one job. -/
  single : ∀ {c code language l l' job job'}, Began s ms (.parse code language) c →
    HandedIn s ms c l job → HandedIn s ms c l' job' → job = job'
  /-- A job is done once. -/
  once : ∀ {job parser parser' source source' x x'}, Parsed s ms job parser source x →
    Parsed s ms job parser' source' x' → x = x'

theorem copyOf_ofEngine (name : String) (source : List UInt8) (root : Node) :
    CopyOf name source root (.ofEngine name source root) := by
  refine ⟨rfl, rfl, rfl, fun path hpath => ?_⟩
  show (widen source (freeze root)).descendant path = _
  rw [← (freeze_faithful root).below path hpath]
  cases path with
  | nil => exact absurd rfl hpath
  | cons position path =>
    rw [Node.descendant, Node.descendant]
    rfl

/-- A job that fails has its parse fail, as the parser of its language. -/
theorem FailedJob.failure {name : String} {x : Except Fault (Option Node)} (h : FailedJob x) :
    ∃ f, failure? name x = some f ∧ f.kind = .parse ∧ f.language = .str name := by
  cases x with
  | ok root =>
    cases h
    exact ⟨_, rfl, rfl, rfl⟩
  | error f =>
    refine ⟨.parserRaised name f, ?_, rfl, rfl⟩
    rw [failure?, if_pos (id h : f.kind.isOrdinary = true)]

/-! ## Runs -/

namespace Served

theorem opened (config : Config) (world : World) (eager : Bool) (stuck : Option Fault)
    (log : List LogLine) :
    Served (Service.opened config world eager stuck log) [] fun _ => .unused where
  config := rfl
  performed := .opened config world eager stuck log
  bound := .opened config world eager stuck log
  lending := .opened config world eager stuck log
  owned := .opened config world eager stuck log

theorem step (h : Served s ms roles) (ho : AtRest (s.moves ms) roles)
    (hst : Step (s.moves ms) roles mv (s.moves (ms ++ [mv])) roles') : Served s (ms ++ [mv]) roles' where
  config := (hst.engine_named ho).1.trans h.config
  performed := h.performed.step ho hst
  bound := h.bound.step ho hst
  lending := h.lending.step ho hst
  owned := h.owned.step ho hst (h.lending.step ho hst)

end Served

/-- A parse that has just begun is on its course. -/
theorem OnCourse.began (hs : Served s ms roles) :
    OnCourse s (ms ++ [.act (.spawn (.parse code language))]) roles' (s.moves ms).loop.promises.size
      code language := by
  have hp : (s.moves (ms ++ [.act (.spawn (.parse code language))])).loop.place?
      (s.moves ms).loop.promises.size = some (.start (.parse code language), none) := by
    rw [move_eq]
    show ((s.moves ms).loop.spawn _).2.place? _ = _
    rw [place?_spawn, if_pos rfl]
  refine .early hp (.inl rfl) (not_handedIn_snoc (fun l j hj => ?_) ?_)
  · exact Nat.lt_irrefl _ (hs.owned.known hj)
  · rw [gripAt_of_place? hp]
    exact nofun

/-- Workers that have not been dismissed have been there all the time. -/
theorem open_before {before after : List Service.Move} (ho : AtRest s roles)
    (hopen : (s.moves (before ++ after)).workers.dismissed = false) :
    (s.moves before).workers.dismissed = false := by
  rw [← Bool.not_eq_true]
  intro hdismissed
  obtain ⟨_, ho⟩ := ho.atRest_moves before
  obtain ⟨_, _, _, hend⟩ := exists_atRest (I := fun now _ => now.workers.dismissed = true)
    (fun _ _ hd hst => hst.dismissed_stays hd) after ho hdismissed
  rw [← moves_append] at hend
  exact absurd (hopen.symm.trans hend) (by decide)

theorem along_open (ho : AtRest s roles) (hopen : (s.moves ms).workers.dismissed = false) :
    Along (fun s mv => (s.move mv).workers.dismissed = false) s ms := by
  refine along_of_split fun before mv after he => ?_
  rw [← move_eq]
  rw [he, List.append_cons] at hopen
  exact open_before ho hopen

/-- As long as the workers have not been dismissed, every parse is on its course. -/
theorem exists_served (config : Config) (world : World) (eager : Bool) (stuck : Option Fault)
    (log : List LogLine) (ms : List Service.Move)
    (hopen : ((opened config world eager stuck log).moves ms).workers.dismissed = false) :
    ∃ roles, AtRest ((opened config world eager stuck log).moves ms) roles ∧
      Served (opened config world eager stuck log) ms roles ∧
      ∀ {c code language}, Began (opened config world eager stuck log) ms (.parse code language) c →
        OnCourse (opened config world eager stuck log) ms roles c code language := by
  have hstart : AtRest (opened config world eager stuck log) fun _ => .unused :=
    (Ordered.opened config world eager stuck log).rest
  refine exists_course
    (I := fun ms _ roles => Served (opened config world eager stuck log) ms roles ∧
      ∀ {c code language}, Began (opened config world eager stuck log) ms (.parse code language) c →
        OnCourse (opened config world eager stuck log) ms roles c code language)
    hstart ⟨.opened config world eager stuck log, ?_⟩ (fun ho _ hd hI hst => ?_) ms (along_open hstart hopen)
  · rintro c code language ⟨before, after, he, _⟩
    cases before <;> cases he
  · refine ⟨hI.1.step ho hst, fun {c code language} hc => ?_⟩
    rcases hc.of_snoc with hc | ⟨rfl, rfl⟩
    · rw [← move_eq] at hd
      exact (hI.2 hc).step hI.1 (hI.1.step ho hst) ho hst hd
    · exact .began hI.1

/-! ## The law -/

/-- Where nothing is left to serve, what a task rests on is open. -/
theorem Ordered.isPending_of_rests (ho : AtRest s roles)
    (hagenda : s.loop.agenda = []) {point : Stage} {q : PromiseId}
    (hp : s.loop.place? c = some (point, some q)) : s.loop.isPending q = true := by
  obtain ⟨task, hget, _, hon⟩ := place?_eq_some_iff.1 hp
  exact (ho.sound.tended.resting nofun hget hon).2.isPending hagenda

namespace OnCourse

/-- A parse returns what its own job has given. -/
theorem returned (h : OnCourse s ms roles c code language) (ho : AtRest (s.moves ms) roles) {v : Reply}
    (hout : (s.moves ms).loop.outcome? c = some (.value v)) :
    ∃ name source job parser root t, language = .str name ∧ code.toSource = .ok source ∧
      HandedIn s ms c name job ∧ (s.moves ms).parser? name = some parser ∧
      Parsed s ms job parser source (.ok (some root)) ∧ v = .tree t ∧ CopyOf name source root t := by
  have hunfinished : ∀ {point on}, (s.moves ms).loop.place? c ≠ some (point, on) := fun hp => by
    have hopen := ho.isPending_of_place? hp
    rw [isPending_of_outcome? hout] at hopen
    cases hopen
  cases h with
  | early hp => exact absurd hp hunfinished
  | running hp => exact absurd hp hunfinished
  | draining hp => exact absurd hp hunfinished
  | copying hp => exact absurd hp hunfinished
  | unowned hout' hj hv =>
    cases hout.symm.trans hout'
    exact absurd rfl (hv v)
  | @ended name source job parser o hout' hl hc hown hend =>
    cases hout.symm.trans hout'
    obtain ⟨root, hx, hv⟩ := hend.returned rfl
    exact ⟨name, source, job, parser, root, _, hl, hc, hown.handed, hown.pooled, hx, hv,
      copyOf_ofEngine name source root⟩

/-- A parse whose job has failed ends with the failure. -/
theorem failed (h : OnCourse s ms roles c code language) (hs : Served s ms roles)
    (ho : AtRest (s.moves ms) roles) {name : String} {job : PromiseId} {parser : Nat}
    {source : List UInt8} {x : Except Fault (Option Node)} {f : Fault} (hj : HandedIn s ms c name job)
    (hx : Parsed s ms job parser source x) (hf : failure? name x = some f) (hc : ¬ CancelledIn s ms c) :
    (∀ o, (s.moves ms).loop.outcome? c = some o → o = .failed f) ∧
      ((s.moves ms).loop.agenda = [] → (s.moves ms).loop.outcome? c = some (.failed f)) := by
  -- The job has come to nothing else.
  have honce : ∀ {parser' source' y}, Parsed s ms job parser' source' y → y = x := fun hy =>
    reply_engineTree_inj (hs.performed.worked.once hy.hasCome hx.hasCome)
  have hexcused : ∀ {source' parser'}, ¬ Excused s ms c name source' job parser' := by
    rintro source' parser' (hcancelled | ⟨y, hy, hnone⟩)
    · exact hc hcancelled
    · rw [honce hy, hf] at hnone
      cases hnone
  have hopen : ∀ {point on}, (s.moves ms).loop.place? c = some (point, on) →
      ∀ o, (s.moves ms).loop.outcome? c ≠ some o := fun hp o hout => by
    have hpending := ho.isPending_of_place? hp
    rw [isPending_of_outcome? hout] at hpending
    cases hpending
  cases h with
  | early _ _ hnone => exact absurd hj (hnone _ _)
  | unowned _ hnone => exact absurd hj (hnone _ _)
  | @running name' source' crew job' q parser' hp hl hcode hown hspared =>
    obtain ⟨rfl, rfl⟩ := hown.only hj
    refine ⟨fun o hout => absurd hout (hopen hp o), fun hagenda => ?_⟩
    -- The job's outcome has been taken over by the shield, which wakes the parse.
    obtain ⟨q', _, he, hq, _⟩ := (ho.placed hp).rest
    cases he
    have hsettled : ∃ o, (s.moves ms).loop.outcome? job = some o := by
      rcases hs.performed.there hx.hasCome with hm | hout
      · rw [hagenda] at hm
        cases hm
      · exact hout
    obtain ⟨o, hout⟩ := hsettled
    have hjob := (ho.sound.assigned.relayed hq (ho.isPending_of_rests hagenda hp)).isPending hagenda
    rw [isPending_of_outcome? hout] at hjob
    cases hjob
  | draining hp hl hcode hown hx' =>
    obtain ⟨rfl, rfl⟩ := hown.only hj
    exact absurd hx' hexcused
  | copying hp hl hcode hown hx' hcopy =>
    obtain ⟨rfl, rfl⟩ := hown.only hj
    rw [← honce hx'] at hf
    cases hf
  | ended hout hl hcode hown hend =>
    obtain ⟨rfl, rfl⟩ := hown.only hj
    rcases hend.failed with hx' | ⟨y, g, hy, hg, rfl⟩
    · exact absurd hx' hexcused
    · rw [honce hy, hf] at hg
      cases hg
      exact ⟨fun o hout' => Option.some.inj (hout'.symm.trans hout), fun _ => hout⟩

/-- A parse has one job. -/
theorem single (h : OnCourse s ms roles c code language) {l l' : String} {job job' : PromiseId}
    (hj : HandedIn s ms c l job) (hj' : HandedIn s ms c l' job') : job = job' := by
  cases h with
  | early _ _ hnone => exact absurd hj (hnone _ _)
  | unowned _ hnone => exact absurd hj (hnone _ _)
  | running _ _ _ hown => exact (hown.only hj).2.trans (hown.only hj').2.symm
  | draining _ _ _ hown => exact (hown.only hj).2.trans (hown.only hj').2.symm
  | copying _ _ _ hown => exact (hown.only hj).2.trans (hown.only hj').2.symm
  | ended _ _ _ hown => exact (hown.only hj).2.trans (hown.only hj').2.symm

end OnCourse

/-- **Every parse gets its own tree, or its own failure.** -/
theorem own_trees (config : Config) (world : World) (eager : Bool) (stuck : Option Fault)
    (log : List LogLine) (ms : List Service.Move)
    (hopen : ((opened config world eager stuck log).moves ms).workers.dismissed = false) :
    OwnTrees (opened config world eager stuck log) ms := by
  obtain ⟨roles, ho, hs, hcourse⟩ := exists_served config world eager stuck log ms hopen
  refine ⟨fun hc hout => (hcourse hc).returned ho hout, fun hp => ?_, fun hc hj hx hfailed hcancelled => ?_,
    hs.owned.alone, fun hc hj hj' => (hcourse hc).single hj hj', fun hx hx' => ?_⟩
  · have hkept := (hs.bound.bound hp).2.2
    exact ⟨hkept, fun n hn => hs.bound.lasting (hn ▸ hkept)⟩
  · obtain ⟨f, hf, hkind, hlanguage⟩ := hfailed.failure
    exact ⟨f, hf, hkind, hlanguage, (hcourse hc).failed hs ho hj hx hf hcancelled⟩
  · exact reply_engineTree_inj (hs.performed.worked.once hx.hasCome hx'.hasCome)

/-- A world of two languages, in which one source gives no tree. -/
def twoLanguages : World where
  modules :=
    ((Keyed.empty.put "tree_sitter"
      { members := (Keyed.empty.put makerName (.maker ⟨[]⟩ .parser)).put compilerName
          (.compiler ⟨[]⟩) }).put "tree_sitter_python"
      { members := Keyed.empty.put "language" (.pointer (.str "python")) }).put "tree_sitter_java"
      { members := Keyed.empty.put "language" (.pointer (.str "java")) }
  parses := Keyed.empty.put (Text.Utf8.encode "?") ⟨[.none]⟩

/-- Two parses wait for one boot.  The grammar of the second is fetched first, then its job is handed in
    first and done last. -/
def crossedJobs : List Service.Move :=
  [.act (.spawn (.parse (.text "x = 1") (.str "python"))),
    .act (.spawn (.parse (.text "?") (.str "java")))] ++ List.replicate 8 (.serve 0) ++
    .act (.release 0) :: List.replicate 12 (.serve 0) ++
    .act (.release 1) :: List.replicate 8 (.serve 0) ++
    .act (.release 0) :: List.replicate 8 (.serve 0) ++
    .act (.release 1) :: List.replicate 8 (.serve 0) ++
    .act (.release 0) :: List.replicate 8 (.serve 0) ++
    .act (.release 0) :: List.replicate 8 (.serve 0)

/-- One of the parses gets its tree, the other fails. -/
theorem own_trees_crossed :
    ((opened {} twoLanguages false none []).moves crossedJobs).workers.dismissed = false ∧
      OwnTrees (opened {} twoLanguages false none []) crossedJobs ∧
      (∃ t, ((opened {} twoLanguages false none []).moves crossedJobs).loop.outcome? 0 =
        some (.value (.tree t)) ∧ t.language = "python" ∧ t.source = Text.Utf8.encode "x = 1") ∧
      ∃ f, ((opened {} twoLanguages false none []).moves crossedJobs).loop.outcome? 1 =
        some (.failed f) ∧ f.kind = .parse := by
  have hopen : ((opened {} twoLanguages false none []).moves crossedJobs).workers.dismissed = false := by
    decide +kernel
  have htrees := own_trees {} twoLanguages false none [] crossedJobs hopen
  refine ⟨hopen, htrees, ?_, ?_⟩
  · have hreturns : (((opened {} twoLanguages false none []).moves crossedJobs).loop.outcome? 0).map
        (fun o => o.result.toOption.isSome) = some true := by
      decide +kernel
    obtain ⟨o, hout, ho⟩ := Option.map_eq_some_iff.1 hreturns
    cases o with
    | value v =>
      obtain ⟨_, _, _, _, _, t, hl, hc, _, _, _, rfl, hcopy⟩ :=
        htrees.returned (c := 0) ⟨[], _, rfl, by decide +kernel⟩ hout
      cases hl
      cases hc
      exact ⟨t, hout, hcopy.language, hcopy.source⟩
    | failed f => cases ho
    | cancelled => cases ho
  · have hfault : ((((opened {} twoLanguages false none []).moves crossedJobs).loop.outcome? 1).bind
        Settled.fault?).map Fault.kind = some .parse := by
      decide +kernel
    obtain ⟨f, hf, hk⟩ := Option.map_eq_some_iff.1 hfault
    obtain ⟨_, hout, ho⟩ := Option.bind_eq_some_iff.1 hf
    cases Settled.eq_failed_of_fault? ho
    exact ⟨f, hout, hk⟩

end SourceTrees.Service
