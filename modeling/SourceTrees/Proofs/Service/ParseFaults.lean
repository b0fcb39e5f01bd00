import SourceTrees.Proofs.Service.Undisturbed

/-!
# With what a parse ends

A parse ends with a tree, or with a fault of the service, or in a cancellation if it was cancelled — and
with nothing else, in every run in which engine and grammars raise ordinary faults only, but for one case:
a service that is closed while the parse is under way refuses its next job, and that fault comes out of
the parse as it is.

## Protocol

* Code is text or bytes; what is handed in as code and is not is refused by another fault.
* Nothing is assumed of what else is called, of the order in which errands are served and jobs done, nor
  of when the service is closed.

## Results

* `Service.ParseEnded` — the outcomes of a parse.
* **`Service.parse_ends`** — every parse that ends ends with one of them.
* `Service.parse_ends_refused` — a parse whose copy is refused.
-/

set_option autoImplicit false

namespace SourceTrees.Service

open Loop

variable {s s' : Service} {roles roles' : Roles Hook Job} {w : Woken} {m : Midst} {mv : Service.Move}
  {ms : List Service.Move} {c : PromiseId} {turn : Turn Stage Reply} {R : Fault → Prop} {X : Prop}
  {code : Code} {language : Json}

/-- With what a parse ends: a tree, a fault of the service, the refusal of a job by workers that have been
    dismissed, or a cancellation of which it is said that it has come. -/
inductive ParseEnded (s : Service) (X : Prop) : Settled Reply → Prop
  | parsed (t : Tree) : ParseEnded s X (.value (.tree t))
  | declared {f : Fault} (hf : f.kind.isDeclared = true) : ParseEnded s X (.failed f)
  | refused (hd : s.workers.dismissed = true) : ParseEnded s X (.failed .poolClosed)
  | cancelled (hx : X) : ParseEnded s X .cancelled

namespace ParseEnded

theorem of_told {f : Fault} (h : Told X f) : ParseEnded s X (Program.ended (.error f)) := by
  rcases h with hf | ⟨rfl, hx⟩
  · rw [Program.ended_of_isDeclared hf]
    exact .declared hf
  · exact .cancelled hx

theorem of_parseFault {f : Fault} (h : ParseFault (Told X) s f) :
    ParseEnded s X (Program.ended (.error f)) := by
  rcases h with hf | hf | ⟨rfl, hd⟩
  · exact of_told (.inl hf)
  · exact of_told hf
  · exact .refused hd

theorem mono {o : Settled Reply} (h : ParseEnded s X o)
    (hd : s.workers.dismissed = true → s'.workers.dismissed = true) : ParseEnded s' X o := by
  cases h with
  | parsed t => exact .parsed t
  | declared hf => exact .declared hf
  | refused hdismissed => exact .refused (hd hdismissed)
  | cancelled hx => exact .cancelled hx

end ParseEnded

/-! ## Turns -/

/-- A call for a parse rests here.  A cancellation that it keeps has come to it. -/
def IsParseCall (X : Prop) (code : Code) (language : Json) (stage : Stage) : Prop :=
  stage = .start (.parse code language) ∨
    ∃ point, stage = .parse .tree point ∧ ∀ f, point.cancellation? = some f → Told X f

/-- A parse whose tree is replied. -/
theorem leads_goesParse {f : Work (Turn ParseStage Tree)} (hR : ∀ f, R f → Told X f)
    (h : Leads w m (f m.service) (ParseEnds w R)) :
    Leads w m ((do
      let turn ← f
      Work.andThen (← Work.andThen turn id (Tools.finish .tree)) (.parse .tree)
        (fun r => return .finish r) : Work (Turn Stage Reply)) m.service)
      fun turn m' => Goes (IsParseCall X code language) (ParseEnded m'.service X) turn := by
  refine .bind (h.mono fun turn m₁ h₁ => .bind ?_)
  have hfinish : Leads w m₁ (Work.andThen turn id (Tools.finish .tree) m₁.service)
      (Halts (fun _ point _ => ∀ f, point.cancellation? = some f → Told X f)
        fun result m' => ParseEnded m'.service X (Program.ended result)) := by
    refine .andThen (h₁.mono hR) (fun on point hp => hp.2.2) fun result hf => ?_
    cases result with
    | ok t => exact .pure (.parsed t)
    | error f => exact .pure (.of_parseFault (hf.2 f rfl))
  refine hfinish.mono fun turn m₂ h₂ => .andThen h₂ (fun on point hp => ?_) fun result hf => .pure hf
  exact .inr ⟨point, rfl, hp⟩

namespace Watched

variable {Y : PromiseId → Prop}

/-- The outcome of a copy is a tree. -/
theorem tree_of_given (h : Watched Y s roles) (ht : HasTurn s roles w m turn)
    (hs : w.stage.rest = .copyJob) {r : Reply} (hr : w.given = .ok r) : ∃ t, r = .tree t := by
  obtain ⟨task, given, _, _, hplaced, hgives, hmet⟩ := ht.woken
  have hrest := hplaced.rest
  rw [hs] at hrest
  obtain ⟨p, language, source, root, hon, hjob⟩ := hrest
  unfold Loop.Gives at hgives
  rw [hon] at hgives
  obtain ⟨o, hout, rfl⟩ := hgives
  obtain ⟨_, hgiven⟩ := Program.met_eq_ok (hmet.symm.trans hr)
  have hwell := h.settled.settled hout
  rw [hjob] at hwell
  rcases hwell with rfl | ⟨t, rfl⟩
  · cases hgiven
  · cases hgiven
    exact ⟨t, rfl⟩

/-- A parse goes on with faults that callers are told of only. -/
theorem told_of_parseBlames (h : Watched Y s roles) (ho : AtRest s roles) (ht : HasTurn s roles w m turn)
    {point : ParseStage} (hs : w.stage = .parse .tree point)
    (hx : ∀ f, point.cancellation? = some f → Told (Y w.task) f) {f : Fault}
    (hf : w.ParseBlames point f) : Told (Y w.task) f := by
  have hcall : w.stage.role = .call := by rw [hs]; rfl
  have hne : ∀ {rest : Rest}, point.rest ≠ rest → w.stage.rest ≠ rest := by
    intro rest hne
    rw [hs]
    exact hne
  cases point with
  | booting language source =>
    exact h.told_of_blames ho ht hcall (hne (by simp [ParseStage.rest]))
      (fun _ _ => hne (by simp [ParseStage.rest])) hf
  | leasing language source crew point =>
    cases point <;> exact h.told_of_blames ho ht hcall (hne (by simp [ParseStage.rest, LeaseStage.rest]))
      (fun _ _ => hne (by simp [ParseStage.rest, LeaseStage.rest])) hf
  | running language source crew job =>
    rcases h.given ho ht hcall (hne (by simp [ParseStage.rest])) hf.1 with
      ⟨_, _, hown⟩ | ⟨hord, _⟩ | hx
    · exact .inl (Hook.isDeclared_of_declares hown)
    · rw [hf.2] at hord
      cases hord
    · exact .inr hx
  | draining language job waiter cancellation => exact hf ▸ hx _ rfl
  | copying language =>
    rcases hf with hf | ⟨r, hr, hn⟩
    · exact h.told ho ht hcall (hne (by simp [ParseStage.rest]))
        (fun _ _ => hne (by simp [ParseStage.rest])) hf
    · obtain ⟨t, rfl⟩ := h.tree_of_given ht (by rw [hs]; rfl) hr
      exact absurd rfl (hn t)

/-- A turn of a call for a parse. -/
theorem goes_parse (h : Watched Y s roles) (ho : AtRest s roles) (ht : HasTurn s roles w m turn)
    (hcode : ∀ v, code ≠ .other v) (hs : IsParseCall (Y w.task) code language w.stage) :
    Goes (IsParseCall (Y w.task) code language) (ParseEnded (m.after w.task turn) (Y w.task)) turn := by
  have hleads : Leads w ⟨w.before, roles, w.stage.grip⟩ (Calls.resume w.stage w.given w.before)
      fun turn m' => Goes (IsParseCall (Y w.task) code language) (ParseEnded m'.service (Y w.task))
        turn := by
    rcases hs with hs | ⟨point, hs, hx⟩
    · have hcall : w.stage.role = .call := by rw [hs]; rfl
      have hgate : w.stage.rest ≠ .gate := by rw [hs]; simp [Stage.rest]
      have hjob : ∀ job source, w.stage.rest ≠ .parseJob job source := by rw [hs]; simp [Stage.rest]
      cases hg : w.given with
      | error f =>
        rw [hs]
        exact .pure (.of_told (h.told ho ht hcall hgate hjob hg))
      | ok r =>
        rw [hs]
        refine .bind (.pure (leads_goesParse (fun f hf => ?_) (leads_requestParse code language rfl)))
        rcases hf with hf | hf
        · exact h.told_of_blames ho ht hcall hgate hjob hf
        · cases code with
          | text _ => cases hf
          | bytes _ => cases hf
          | other v => exact absurd rfl (hcode v)
    · have hc := ht.coherent
      rw [hs] at hc ⊢
      exact leads_goesParse (fun f hf => h.told_of_parseBlames ho ht hs hx hf)
        (leads_resumeParse hs hc rfl)
  obtain ⟨m', _, hm, hgoes⟩ := ht.of_leads hleads
  exact hgoes.mono (fun _ => id) fun o hend => hend.mono fun hd => by rwa [hm] at hd

end Watched

/-! ## Runs -/

/-- What becomes of calls for a parse. -/
theorem keeps_parse {Y : PromiseId → Prop} (hcode : ∀ v, code ≠ .other v) :
    Keeps (Spares Y) (Watched Y) c (fun _ => IsParseCall (Y c) code language)
      fun s => ParseEnded s (Y c) where
  step ho _ hmv h hst := h.step ho hst hmv
  turn ho _ h ht hc _ hs := by
    subst hc
    exact h.goes_parse ho ht hcode hs
  stay _ _ _ _ := id
  keep _ _ hst _ h := h.mono hst.dismissed_stays

/-- **A parse ends with a tree, a fault of the service, or its own cancellation**, unless a job of it is
    refused by workers that have been dismissed. -/
theorem parse_ends (config : Config) (world : World) (eager : Bool) (stuck : Option Fault)
    (log : List LogLine) (ms : List Service.Move) (hw : world.RaisesWell)
    (hsp : Along SparesOperations (opened config world eager stuck log) ms) {code : Code}
    {language : Json} {c : PromiseId} {o : Settled Reply} (hcode : ∀ v, code ≠ .other v)
    (hc : Began (opened config world eager stuck log) ms (.parse code language) c)
    (hout : ((opened config world eager stuck log).moves ms).loop.outcome? c = some o) :
    ParseEnded ((opened config world eager stuck log).moves ms)
      (CancelledIn (opened config world eager stuck log) ms c) o :=
  outcome_of_began (keeps_parse hcode) (fun _ => .inl rfl) (Ordered.opened ..).rest (along_spares hsp)
    (.opened hw ..) hc hout

/-- A world of one language, in which one source is parsed. -/
def singleLanguage : World where
  modules :=
    (Keyed.empty.put "tree_sitter"
      { members := (Keyed.empty.put makerName (.maker ⟨[]⟩ .parser)).put compilerName
          (.compiler ⟨[]⟩) }).put "tree_sitter_python"
      { members := Keyed.empty.put "language" (.pointer (.str "python")) }
  parses := Keyed.empty.put (Text.Utf8.encode "x = 1") ⟨[.tree default]⟩

/-- The engine is loaded and the grammar fetched for a parse; its parser's job is with the workers when
    the service is closed. -/
def closedInParse : List Service.Move :=
  .act (.spawn (.parse (.text "x = 1") (.str "python"))) :: List.replicate 4 (.serve 0) ++
    .act (.release 0) :: List.replicate 8 (.serve 0) ++
    .act (.release 0) :: List.replicate 8 (.serve 0) ++
    .act (.spawn .close) :: List.replicate 8 (.serve 0)

/-- The workers parse the source before they are dismissed, and refuse to copy the tree: the parse ends
    with their fault, which is none of the service. -/
theorem parse_ends_refused :
    singleLanguage.RaisesWell ∧
      Along SparesOperations (opened {} singleLanguage false none []) closedInParse ∧
      ∃ f, ((opened {} singleLanguage false none []).moves closedInParse).loop.outcome? 0 =
          some (.failed f) ∧
        f.kind.isDeclared = false ∧
        ParseEnded ((opened {} singleLanguage false none []).moves closedInParse)
          (CancelledIn (opened {} singleLanguage false none []) closedInParse 0) (.failed f) := by
  have hparses : singleLanguage.parses.entries =
      [(Text.Utf8.encode "x = 1", ⟨[.tree default]⟩)] := rfl
  have hw : singleLanguage.RaisesWell := .of_entries (by decide +kernel) (by simp [hparses])
  have hsp : Along SparesOperations (opened {} singleLanguage false none []) closedInParse := by
    decide +kernel
  have hc : Began (opened {} singleLanguage false none []) closedInParse
      (.parse (.text "x = 1") (.str "python")) 0 := ⟨[], _, rfl, by decide +kernel⟩
  have hfault : ((((opened {} singleLanguage false none []).moves closedInParse).loop.outcome? 0).bind
      Settled.fault?).map Fault.kind = some .running := by
    decide +kernel
  obtain ⟨f, hf, hk⟩ := Option.map_eq_some_iff.1 hfault
  obtain ⟨_, hout, ho⟩ := Option.bind_eq_some_iff.1 hf
  cases Settled.eq_failed_of_fault? ho
  exact ⟨hw, hsp, f, hout, by rw [hk]; rfl, parse_ends {} singleLanguage false none [] closedInParse hw hsp
    (fun _ h => by cases h) hc hout⟩

end SourceTrees.Service
