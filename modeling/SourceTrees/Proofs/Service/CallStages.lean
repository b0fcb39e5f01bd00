import SourceTrees.Proofs.Service.ParseCounts

/-!
# Where the tasks of a call rest

From its beginning to its end the task of a call rests only where such a call rests: a parse never comes to
wait as a warm-up does, and nobody but who asks for a lease comes to hold one.

## Protocol

* A turn **comes to** stages of a kind if it rests or gives way there, or finishes; work does if every turn
  does that it ends in.
* A stage **suits** a call if the task of the call may rest there.
* Calls come from outside; those for a parser may also be made by a warm-up.

## Results

* `Turn.ComesTo`, `Work.ComesTo` — the notions, and how work is put together.
* `Call.source?`, `Calls.start_parses` — what a call is to parse.
* `Stage.Suits`, `Calls.comesTo_resume` — the task of a call comes to stages that suit the call.
* `Service.CallsBegun`, `Service.CallsBegun.step` — so do all tasks of calls in the course of a run.
-/

set_option autoImplicit false

namespace SourceTrees

open Loop

variable {P Q α β : Type}

/-- The turn comes to rest, or gives way, at a stage of the kind, or it finishes. -/
def Turn.ComesTo (K : P → Prop) : Turn P α → Prop
  | rest _ point | giveWay point => K point
  | finish _ => True

/-- Turns that the work ends in come to stages of the kind. -/
def Work.ComesTo (K : P → Prop) (f : Work (Turn P α)) : Prop := ∀ s, (f s).1.ComesTo K

namespace Work.ComesTo

variable {K : P → Prop} {K' : Q → Prop}

theorem finish (r : Except Fault α) : ComesTo K (pure (.finish r)) := fun _ => trivial

theorem done (a : α) : ComesTo K (done a) := fun _ => trivial

theorem fail (f : Fault) : ComesTo K (fail f : Work (Turn P α)) := fun _ => trivial

theorem restOn (p : PromiseId) {point : P} (h : K point) : ComesTo K (restOn p point : Work (Turn P α)) :=
  fun _ => h

theorem bind {f : Work β} {g : β → Work (Turn P α)} (h : ∀ b, ComesTo K (g b)) : ComesTo K (f >>= g) :=
  fun s => h (f s).1 (f s).2

theorem ite {b : Prop} [Decidable b] {f g : Work (Turn P α)} (h : ComesTo K f) (h' : ComesTo K g) :
    ComesTo K (if b then f else g) := by
  split
  · exact h
  · exact h'

/-- A call made in turn rests where its caller lets it rest. -/
theorem andThen {turn : Turn P α} {wrap : P → Q} {next : Except Fault α → Work (Turn Q β)}
    (hw : ∀ point, K' (wrap point)) (hn : ∀ r, ComesTo K' (next r)) :
    ComesTo K' (andThen turn wrap next) := by
  cases turn with
  | rest on point | giveWay point => exact fun _ => hw point
  | finish r => exact hn r

/-- Where the caller rests may depend on where the call made in turn can rest. -/
theorem call {f : Work (Turn P α)} {wrap : P → Q} {next : Except Fault α → Work (Turn Q β)}
    (hf : ComesTo K f) (hw : ∀ point, K point → K' (wrap point)) (hn : ∀ r, ComesTo K' (next r)) :
    ComesTo K' (f >>= fun turn => Work.andThen turn wrap next) := by
  intro s
  have hturn := hf s
  show ((Work.andThen (f s).1 wrap next) (f s).2).1.ComesTo K'
  revert hturn
  generalize (f s).1 = turn
  intro hturn
  cases turn with
  | rest on point | giveWay point => exact hw point hturn
  | finish r => exact hn r _

end Work.ComesTo

/-- The call parses some code. -/
def Call.parses : Call → Bool
  | parse .. | parseFile .. | snippetTool .. | fileTool .. => true
  | _ => false

/-- The code of a file, if the file is there and not too large. -/
def Tools.codeOf? (s : Service) : Json → Option Code
  | .str name =>
    match checkPath s.world (.str name) s.config.maxFileSize with
    | .valid _ => (s.world.readFile name).toOption.map .bytes
    | .invalid _ => none
  | _ => none

/-- What the call is to parse, and as which language, if it comes to parse something. -/
def Call.source? (s : Service) : Call → Option (Code × Json)
  | parse code language | snippetTool code language _ => some (code, language)
  | parseFile code path => (Parsing.detect path).map fun language => (code, .str language)
  | fileTool path _ => (Parsing.detect path).bind fun language =>
    (Tools.codeOf? s path).map fun code => (code, .str language)
  | _ => none

/-- The task of the call may rest here.  A parse that waits its job out does so with a cancellation. -/
def Stage.Suits (call : Call) : Stage → Prop
  | start call' => call' = call
  | init => call = .init
  | grammar _ => ∃ language, call = .load language
  | parser _ => ∃ language, call = .getParser language
  | lease .. | holding .. => ∃ holder language, call = .lease holder language
  | parse _ point => call.parses = true ∧ point.IsSound
  | warm _ => ∃ languages, call = .warm languages
  | enter _ => call = .enter
  | boot _ | fetch _ => False

/-- A call that parses asks for a parse of what it is to parse, if there is something, or ends at once. -/
theorem Calls.start_parses {call : Call} (h : call.parses = true) (s : Service) :
    (∃ use code language, call.source? s = some (code, language) ∧
      start call s = Tools.parse use code language s) ∨
    call.source? s = none ∧ ∃ r skipped, start call s = (.finish r, { s with
      counts := { s.counts with parses := { s.counts.parses with skipped } } }) := by
  cases call with
  | parse code language => exact .inl ⟨_, code, language, rfl, rfl⟩
  | snippetTool code language depth => exact .inl ⟨_, code, language, rfl, rfl⟩
  | parseFile code path =>
    simp only [start, Tools.parseAs, Call.source?]
    cases Parsing.detect path with
    | some language => exact .inl ⟨_, code, .str language, rfl, rfl⟩
    | none => exact .inr ⟨rfl, _, _, rfl⟩
  | fileTool path depth =>
    simp only [start, Tools.parseFile, Tools.parseAs, Call.source?, Work.run_bind, Work.run_get]
    cases Parsing.detect path with
    | none => exact .inr ⟨rfl, _, _, rfl⟩
    | some language =>
      cases path with
      | str name =>
        dsimp only [Tools.codeOf?, Option.bind_some]
        cases Tools.checkPath s.world (.str name) s.config.maxFileSize with
        | invalid why => exact .inr ⟨rfl, _, _, rfl⟩
        | valid size =>
          dsimp only
          cases s.world.readFile name with
          | ok source => exact .inl ⟨_, .bytes source, .str language, rfl, rfl⟩
          | error f =>
            refine .inr ⟨rfl, ?_⟩
            dsimp only
            split <;> exact ⟨_, _, rfl⟩
      | _ => exact .inr ⟨rfl, _, _, rfl⟩
  | _ => cases h

/-! ## Turns -/

/-- A parse waits its job out with a cancellation only. -/
theorem Parsing.Tallies.comesTo {f : Work (Turn ParseStage Tree)} (h : Parsing.Tallies f) :
    Work.ComesTo ParseStage.IsSound f := by
  intro s
  have hturn := h s
  generalize (f s).1 = turn at hturn
  cases hturn with
  | same _ hgoes =>
    cases turn with
    | rest on point | giveWay point => exact hgoes
    | finish r => trivial
  | built | failed => trivial

namespace Calls

variable {call : Call}

theorem comesTo_finish {K : ParseStage → Prop} (use : ParseUse) (result : Except Fault Tree) :
    Work.ComesTo K (Tools.finish use result) := by
  cases use <;> cases result <;>
    first
    | exact .done _
    | exact .fail _
    | exact .ite (.bind fun _ => .done _) (.fail _)

theorem comesTo_parse (use : ParseUse) {f : Work (Turn ParseStage Tree)} (hf : Parsing.Tallies f)
    (hcall : call.parses = true) : Work.ComesTo (Stage.Suits call) (do
    let turn ← f
    Work.andThen (← Work.andThen turn id (Tools.finish use)) (.parse use) (fun r => return .finish r) :
      Work (Turn Stage Reply)) :=
  .call (K := ParseStage.IsSound) (f := f >>= fun turn => Work.andThen turn id (Tools.finish use))
    (.call hf.comesTo (fun _ => id) (comesTo_finish use)) (fun _ h => ⟨hcall, h⟩) fun r => .finish r

theorem comesTo_parseAs (use : ParseUse) (code : Code) (path : Json) (hcall : call.parses = true) :
    Work.ComesTo (Stage.Suits call) (Tools.parseAs use code path) := by
  unfold Tools.parseAs
  split
  · exact comesTo_parse use (.request code _) hcall
  · exact .bind fun _ => .done _

theorem comesTo_replying (turn : Turn P α) {wrap : P → Stage} (f : α → Reply)
    (h : ∀ point, (wrap point).Suits call) : Work.ComesTo (Stage.Suits call) (replying turn wrap f) :=
  .andThen h fun _ => .finish _

theorem comesTo_parserReply {K : Stage → Prop} (result : Except Fault String) :
    Work.ComesTo K (parserReply result) := by
  cases result with
  | error f => exact .fail f
  | ok language => exact .bind fun _ => .done _

theorem comesTo_hold (holder language : String) (result : Except Fault Nat)
    (h : ∃ holder language, call = .lease holder language) :
    Work.ComesTo (Stage.Suits call) (hold holder language result) := by
  cases result with
  | error f => exact .fail f
  | ok parser => exact .bind fun _ => .bind fun _ => .restOn _ h

theorem comesTo_entered {K : Stage → Prop} (result : Except Fault Bool) :
    Work.ComesTo K (entered result) := by
  cases result with
  | ok b => cases b <;> exact .bind fun _ => .done _
  | error f =>
    refine .ite (.bind fun _ => ?_) ?_
    all_goals
      refine .bind fun r => ?_
      cases r <;> exact .fail _

theorem comesTo_leave {K : Stage → Prop} (f : Option Fault) : Work.ComesTo K (leave f) := by
  cases f with
  | none =>
    refine .bind fun r => ?_
    cases r with
    | ok _ => exact .done _
    | error g => exact .fail g
  | some f =>
    refine .ite (.bind fun _ => ?_) ?_
    all_goals
      refine .bind fun r => ?_
      cases r with
      | ok _ => exact .done _
      | error g => exact .fail g

theorem comesTo_start (call : Call) : Work.ComesTo (Stage.Suits call) (start call) := by
  refine .bind fun s => ?_
  cases call with
  | init =>
    refine .bind fun r => ?_
    cases r with
    | some p => exact .restOn p rfl
    | none => exact .done _
  | parse code language => exact comesTo_parse .tree (.request code language) rfl
  | snippetTool code language depth =>
    exact comesTo_parse (.snippet language depth) (.request code language) rfl
  | parseFile code path => exact comesTo_parseAs .tree code path rfl
  | fileTool path depth =>
    refine .bind fun s => ?_
    split
    · split
      · exact .done _
      · split
        · exact .ite (.done _) (.fail _)
        · exact comesTo_parseAs _ _ _ rfl
    · exact .done _
  | load language => exact .bind fun _ => comesTo_replying _ _ fun _ => ⟨language, rfl⟩
  | getParser language => exact .bind fun _ => .andThen (fun _ => ⟨language, rfl⟩) comesTo_parserReply
  | lease holder language =>
    exact .bind fun _ => .andThen (fun _ => ⟨holder, language, rfl⟩) fun r =>
      comesTo_hold _ _ r ⟨holder, language, rfl⟩
  | warm languages => exact .bind fun _ => comesTo_replying _ _ fun _ => ⟨languages, rfl⟩
  | isLoaded language =>
    cases language with
    | arr | obj => exact .fail _
    | _ => exact .done _
  | close =>
    refine .bind fun r => ?_
    cases r with
    | ok _ => exact .bind fun _ => .done _
    | error f => exact .fail f
  | enter => exact .bind fun _ => .andThen (fun _ => rfl) comesTo_entered
  | leave f => exact comesTo_leave f
  | check => exact .bind fun _ => .finish _
  | _ => exact .finish _

/-- **The task of a call comes to stages that suit the call.** -/
theorem comesTo_resume {stage : Stage} (h : stage.Suits call) (given : Except Fault Reply) :
    Work.ComesTo (Stage.Suits call) (resume stage given) := by
  cases stage with
  | boot | fetch => exact h.elim
  | start call' =>
    obtain rfl : call' = call := h
    cases given with
    | ok r => exact comesTo_start call'
    | error f => exact .fail f
  | grammar | warm => exact .bind fun _ => comesTo_replying _ _ fun _ => h
  | init => exact .finish _
  | parser point => exact .bind fun _ => .andThen (fun _ => h) comesTo_parserReply
  | lease holder point => exact .bind fun _ => .andThen (fun _ => h) fun r => comesTo_hold _ _ r h
  | holding => exact .bind fun _ => .finish _
  | parse use point => exact comesTo_parse use (.resume h.2 given) h.1
  | enter => exact .bind fun _ => .andThen (fun _ => h) comesTo_entered

end Calls

/-! ## Runs -/

namespace Service

variable {s s' : Service} {roles roles' : Roles Hook Job} {w : Woken} {m m' : Midst} {mv : Service.Move}
  {ms : List Service.Move} {t : PromiseId} {point : Stage} {on : Option PromiseId}

/-- A stride starts a shared operation, or a call for a parser, or no task. -/
theorem Stride.place?_cases (hst : Stride w m m')
    (hp : m'.service.loop.place? t = some (point, on)) :
    m.service.loop.place? t = some (point, on) ∨ on = none ∧
      (point = .boot .start ∨ (∃ l, point = .fetch (.start l)) ∨ ∃ l, point = .start (.getParser l)) := by
  have hsame : m'.service.loop.tasks = m.service.loop.tasks →
      m.service.loop.place? t = some (point, on) := fun h => (place?_congr h).symm.trans hp
  have hlaunch : ∀ start : Stage, m'.service.loop.tasks =
      (m.service.loop.spawn start).2.tasks →
      m.service.loop.place? t = some (point, on) ∨ on = none ∧ point = start := by
    intro start h
    rw [place?_congr h, place?_spawn] at hp
    split at hp
    · cases hp
      exact .inr ⟨rfl, rfl⟩
    · exact .inl hp
  cases hst with
  | bootLaunched hp' hn =>
    refine (hlaunch (.boot .start) ?_).imp_right fun h => ⟨h.1, .inl h.2⟩
    simp [Flight.launch, shield]
  | loadLaunched language hp' hn =>
    refine (hlaunch (.fetch (.start language)) ?_).imp_right
      fun h => ⟨h.1, .inr (.inl ⟨_, h.2⟩)⟩
    simp [Flight.launch, shield]
  | spawned call hc =>
    obtain ⟨l, rfl⟩ := hc
    exact (hlaunch (.start (.getParser l)) rfl).imp_right fun h => ⟨h.1, .inr (.inr ⟨l, h.2⟩)⟩
  | submitted crew hc hg => exact .inl (hsame Work.tasks_handedIn)
  | dismissed => exact .inl (hsame Work.tasks_dismiss)
  | grouped hm => exact .inl (hsame tasks_group)
  | bootJoined | loadJoined | guarded => exact .inl (hsame (by simp [shield]))
  | waited => exact .inl (hsame (by simp [waiter]))
  | unsubscribed => exact .inl (hsame (by simp))
  | calledNext => exact .inl (hsame (by simp))
  | _ => exact .inl (hsame rfl)

theorem Strides.place?_cases (hst : Strides w m m')
    (hp : m'.service.loop.place? t = some (point, on)) :
    m.service.loop.place? t = some (point, on) ∨ on = none ∧
      (point = .boot .start ∨ (∃ l, point = .fetch (.start l)) ∨ ∃ l, point = .start (.getParser l)) := by
  induction hst with
  | refl => exact .inl hp
  | tail _ hstep ih =>
    rcases hstep.place?_cases hp with hp | hnew
    · exact ih hp
    · exact .inr hnew

/-- A call that rests somewhere has rested there before, or has just begun, or has come there in its
    turn. -/
theorem Step.place?_cases (ho : AtRest s roles) (hst : Step s roles mv s' roles')
    (hp : s'.loop.place? t = some (point, on)) (hr : point.role = .call) :
    s.loop.place? t = some (point, on) ∨
      (∃ call, mv = .act (.spawn call) ∧ t = s.loop.promises.size ∧ point = .start call) ∨
      (∃ l, point = .start (.getParser l)) ∨
      ∃ w m turn, HasTurn s roles w m turn ∧ w.task = t ∧ w.stage.role = .call ∧
        ((∃ on, turn = .rest on point) ∨ turn = .giveWay point) := by
  have hsame : (∀ t, s'.loop.place? t = s.loop.place? t) → s.loop.place? t = some (point, on) :=
    fun he => (he t).symm.trans hp
  cases hst with
  | idle => exact .inl hp
  | carried hi hw hk => exact .inl (hsame fun _ => place?_congr (tasks_effect _))
  | @forgotten i hook op hi => cases hook <;> exact .inl hp
  | expired | clocked => exact .inl hp
  | spawned call =>
    rw [place?_spawn] at hp
    split at hp
    · rename_i ht
      cases hp
      exact .inr (.inl ⟨call, rfl, ht, rfl⟩)
    · exact .inl hp
  | workedOff hi =>
    rw [Work.workOff_eq hi] at hp
    exact .inl hp
  | cancelled t ha => exact .inl (hsame fun _ => place?_cancelTask)
  | leaseEnded hg fault => exact .inl (hsame fun _ => place?_congr tasks_settle)
  | @turn i t' task given turn m hwakes hsts hres hend =>
    rw [place?_conclude] at hp
    split at hp
    · rename_i he
      refine .inr (.inr (.inr ⟨_, m, turn, .of_wakes ho hwakes hsts hres hend, he.symm, ?_, ?_⟩))
      · cases turn <;> cases hp <;> exact hend.2.1.symm.trans hr
      · cases turn <;> cases hp
        · exact .inl ⟨_, rfl⟩
        · exact .inr rfl
    · rcases Strides.place?_cases hsts hp with hp | ⟨_, rfl | ⟨l, rfl⟩ | hl⟩
      · exact .inl hp
      · cases hr
      · cases hr
      · exact .inr (.inr (.inl hl))

/-- The tasks of calls are those that the run has begun, and those for a parser that warm-ups have; they
    rest where such calls rest. -/
structure CallsBegun (s : Service) (ms : List Service.Move) : Prop where
  suits : ∀ {t point on}, (s.moves ms).loop.place? t = some (point, on) → point.role = .call →
    ∃ call, (Began s ms call t ∨ ∃ language, call = .getParser language) ∧ point.Suits call

namespace CallsBegun

theorem opened (config : Config) (world : World) (eager : Bool) (stuck : Option Fault)
    (log : List LogLine) : CallsBegun (Service.opened config world eager stuck log) [] :=
  ⟨fun hp => by simp [moves, Loop.place?, Keyed.get?, Keyed.empty, Keyed.lookIn] at hp⟩

theorem step (h : CallsBegun s ms) (ho : AtRest (s.moves ms) roles)
    (hst : Step (s.moves ms) roles mv (s.moves (ms ++ [mv])) roles') : CallsBegun s (ms ++ [mv]) := by
  have hstays : ∀ {t point on}, (s.moves ms).loop.place? t = some (point, on) → point.role = .call →
      ∃ call, (Began s (ms ++ [mv]) call t ∨ ∃ language, call = .getParser language) ∧
        point.Suits call := fun hp hr => by
    obtain ⟨call, hbegun, hsuits⟩ := h.suits hp hr
    exact ⟨call, hbegun.imp_left fun hb => hb.append [mv], hsuits⟩
  refine ⟨fun {t point on} hp hr => ?_⟩
  rcases hst.place?_cases ho hp hr with hp | ⟨call, rfl, rfl, rfl⟩ | ⟨l, rfl⟩ |
    ⟨w, m, turn, ht, rfl, hcall, hturn⟩
  · exact hstays hp hr
  · exact ⟨call, .inl (.now ms call), rfl⟩
  · exact ⟨_, .inr ⟨l, rfl⟩, rfl⟩
  · obtain ⟨on₀, hplace⟩ := ht.place
    obtain ⟨call, hbegun, hsuits⟩ := hstays hplace hcall
    have hcomes := Calls.comesTo_resume hsuits w.given w.before
    rw [ht.resumed] at hcomes
    rcases hturn with ⟨on', rfl⟩ | rfl
    · exact ⟨call, hbegun, hcomes⟩
    · exact ⟨call, hbegun, hcomes⟩

/-- In every run the tasks of calls rest where such calls rest. -/
theorem of_run (config : Config) (world : World) (eager : Bool) (stuck : Option Fault)
    (log : List LogLine) (ms : List Service.Move) :
    CallsBegun (Service.opened config world eager stuck log) ms := by
  obtain ⟨_, _, h⟩ := exists_course (A := fun _ _ => True)
    (I := fun ms _ _ => CallsBegun (Service.opened config world eager stuck log) ms)
    (Ordered.opened config world eager stuck log).rest (.opened ..)
    (fun ho _ _ h hst => h.step ho hst) ms (along_of_forall (fun _ _ => trivial) ms)
  exact h

end CallsBegun

end Service

end SourceTrees
