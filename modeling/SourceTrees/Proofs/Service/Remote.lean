import SourceTrees.Proofs.Service.Course

/-!
# What work leaves alone

Most of what a task does in its turn is done far from the parsers: it boots, loads, logs, counts, hands
jobs in, makes promises, and closes the service.  It leaves the pool alone, and what has been counted of
parsers and of parses.  Such work is **remote** if it leaves the staff alone as well, as all of it does that
does not close the service.

## Protocol

* The **staff** is all there is to workers but the jobs that are queued.

* Work keeps **within** a relation if it leads from every service only to services that are so related.
* If the relation is reflexive and transitive, work put together from parts keeps within it as the parts
  do.

## Results

* `Work.Within` — the notion, and how it is put together.
* `Service.Remote` — what remote work leaves alone; booting, loading and warming up are remote.
* `Service.Afar` — what is left alone by closing, too.
-/

set_option autoImplicit false

namespace SourceTrees

open Loop

variable {α β P Q : Type} {R R' : Service → Service → Prop}

namespace Work

/-- The work leads from every service only to related ones. -/
def Within (R : Service → Service → Prop) (f : Work α) : Prop := ∀ s, R s (f s).2

namespace Within

theorem mono {f : Work α} (h : Within R f) (hR : ∀ s s', R s s' → R' s s') : Within R' f :=
  fun s => hR _ _ (h s)

theorem modify {f : Service → Service} (h : ∀ s, R s (f s)) : Within R (modify f : Work Unit) := h

theorem ite {b : Prop} [Decidable b] {f g : Work α} (h : Within R f) (h' : Within R g) :
    Within R (if b then f else g) := by
  split
  · exact h
  · exact h'

section Reflexive

variable [Std.Refl R]

theorem pure (a : α) : Within R (pure a : Work α) := fun s => Std.Refl.refl s

theorem get : Within R (get : Work Service) := fun s => Std.Refl.refl s

theorem done (a : α) : Within R (done a : Work (Turn P α)) := .pure _

theorem fail (f : Fault) : Within R (fail f : Work (Turn P α)) := .pure _

theorem restOn (p : PromiseId) (point : P) : Within R (restOn p point : Work (Turn P α)) := .pure _

end Reflexive

section Preorder

variable [IsPreorder Service R]

theorem bind {f : Work α} {g : α → Work β} (h : Within R f) (h' : ∀ a, Within R (g a)) :
    Within R (f >>= g) :=
  fun s => IsTrans.trans _ _ _ (h s) (h' (f s).1 (f s).2)

omit [IsPreorder Service R] in
/-- Work that looks at the service first may use what it sees. -/
theorem look {g : Service → Work β} (h : ∀ s, R s (g s s).2) :
    Within R ((MonadState.get : Work Service) >>= g) := h

theorem mapM {f : α → Work β} (h : ∀ a, Within R (f a)) (l : List α) : Within R (l.mapM f) := by
  induction l with
  | nil => exact .pure _
  | cons a l ih =>
    rw [List.mapM_cons]
    exact .bind (h a) fun _ => .bind ih fun _ => .pure _

/-- A call made in turn, and what goes on from there. -/
theorem andThen {turn : Turn P α} {wrap : P → Q} {next : Except Fault α → Work (Turn Q β)}
    (h : ∀ r, Within R (next r)) : Within R (andThen turn wrap next) := by
  cases turn with
  | rest | giveWay => exact .pure _
  | finish r => exact h r

end Preorder

end Within

end Work

namespace Service

variable {s s' s'' : Service}

/-- What work leaves alone that is done far from the parsers. -/
structure Afar (s s' : Service) : Prop where
  config : s'.config = s.config
  pool : s'.pool = s.pool
  parsers : s'.counts.parsers = s.counts.parsers
  parses : s'.counts.parses = s.counts.parses
  later : s.loop.Later s'.loop

namespace Afar

theorem refl (s : Service) : Afar s s := ⟨rfl, rfl, rfl, rfl, .refl _⟩

theorem trans (h : Afar s s') (h' : Afar s' s'') : Afar s s'' :=
  ⟨h'.config.trans h.config, h'.pool.trans h.pool, h'.parsers.trans h.parsers,
    h'.parses.trans h.parses, h.later.trans h'.later⟩

instance : IsPreorder Service Afar where
  refl := refl
  trans _ _ _ := trans

end Afar

/-- The staff is the same: only the queue of the workers may be another one. -/
structure SameStaff (s s' : Service) : Prop where
  holds : s'.holdsWorkers = s.holdsWorkers
  staff : s'.workers = { s.workers with queue := s'.workers.queue }

namespace SameStaff

theorem refl (s : Service) : SameStaff s s := ⟨rfl, rfl⟩

theorem trans (h : SameStaff s s') (h' : SameStaff s' s'') : SameStaff s s'' :=
  ⟨h'.holds.trans h.holds, by rw [h'.staff, h.staff]⟩

instance : IsPreorder Service SameStaff where
  refl := refl
  trans _ _ _ := trans

end SameStaff

/-- What remote work leaves alone. -/
structure Remote (s s' : Service) : Prop extends Afar s s', SameStaff s s'

namespace Remote

theorem refl (s : Service) : Remote s s := ⟨.refl s, .refl s⟩

theorem trans (h : Remote s s') (h' : Remote s' s'') : Remote s s'' :=
  ⟨h.toAfar.trans h'.toAfar, h.toSameStaff.trans h'.toSameStaff⟩

instance : IsPreorder Service Remote where
  refl := refl
  trans _ _ _ := trans

end Remote

end Service

open Service Work

/-! ## The parts of turns -/

theorem Work.remote_log (line : LogLine) : Within Remote (log line) :=
  fun _ => ⟨⟨rfl, rfl, rfl, rfl, .refl _⟩, rfl, rfl⟩

theorem Work.remote_count {f : Counts → Counts} (hp : ∀ c, (f c).parsers = c.parsers)
    (hq : ∀ c, (f c).parses = c.parses) : Within Remote (count f) :=
  fun s => ⟨⟨rfl, rfl, hp s.counts, hq s.counts, .refl _⟩, rfl, rfl⟩

theorem Work.remote_attempt (a : Attempt α) : Within Remote (attempt a) :=
  fun _ => ⟨⟨rfl, rfl, rfl, rfl, .refl _⟩, rfl, rfl⟩

theorem Work.remote_onLoop {f : Loop Reply Stage Hook → α × Loop Reply Stage Hook}
    (h : ∀ l : Loop Reply Stage Hook, l.Later (f l).2) : Within Remote (onLoop f) :=
  fun s => ⟨⟨rfl, rfl, rfl, rfl, h s.loop⟩, rfl, rfl⟩

theorem Work.remote_changeLoop {f : Loop Reply Stage Hook → Loop Reply Stage Hook}
    (h : ∀ l : Loop Reply Stage Hook, l.Later (f l)) : Within Remote (changeLoop f) :=
  fun s => ⟨⟨rfl, rfl, rfl, rfl, h s.loop⟩, rfl, rfl⟩

theorem Work.remote_handedIn (s : Service) (crew : Crew) (job : Job) : Remote s (handedIn s crew job) := by
  obtain ⟨hc, -, -, -, hn⟩ := @known_handedIn s crew job
  refine ⟨⟨hc, pool_handedIn, congrArg _ hn, congrArg _ hn, later_handedIn crew job⟩, ?_⟩
  unfold handedIn
  split <;> exact ⟨rfl, rfl⟩

theorem Work.remote_submit (crew : Crew) (job : Job) : Within Remote (submit crew job) := by
  intro s
  rw [submit_eq]
  split
  · exact .refl s
  · exact remote_handedIn s crew job

theorem Work.afar_dismiss : Within Afar dismiss := by
  intro s
  obtain ⟨hc, -, -, -, hn⟩ := known_dismiss (s := s)
  exact ⟨hc, pool_dismiss, congrArg _ hn, congrArg _ hn, later_dismiss⟩

theorem Work.afar_log (line : LogLine) : Within Afar (log line) := (remote_log line).mono fun _ _ => (·.toAfar)

theorem Work.afar_close : Within Afar close := by
  unfold close
  refine .bind .get fun s => ?_
  split
  · refine .bind afar_dismiss fun r => ?_
    cases r with
    | ok _ =>
      exact .bind (.modify fun s => ⟨rfl, rfl, rfl, rfl, .refl _⟩) fun _ =>
        .bind (afar_log _) fun _ => .pure _
    | error f => exact .ite (.bind (afar_log _) fun _ => .pure _) (.pure _)
  · exact .pure _

/-! ## The boot -/

theorem Flight.later_attach {κ : Type} [DecidableEq κ] (f : Flight κ) (l : Loop Reply Stage Hook) (key : κ)
    (point : Stage) (hook : Hook) : l.Later (f.attach l key point hook).2.2 := by
  unfold Flight.attach
  split
  · exact .shield _
  · exact ((Later.spawn _).trans (.subscribe _ _)).trans (.shield _)

namespace Boot

theorem remote_attach : Within Remote attach := by
  intro s
  rw [attach_boot_eq]
  split
  · exact .refl s
  · exact ⟨⟨rfl, rfl, rfl, rfl, Flight.later_attach ..⟩, rfl, rfl⟩

theorem remote_failed (f : Fault) : Within Remote (failed f) := by
  have hcount : Within Remote
      (count fun c => { c with boot := { c.boot with failures := c.boot.failures + 1 } }) :=
    remote_count (fun _ => rfl) fun _ => rfl
  unfold failed
  refine .bind (.modify fun s => ⟨⟨rfl, rfl, rfl, rfl, .refl _⟩, rfl, rfl⟩) fun _ => .bind .get fun s => ?_
  exact .ite (.bind hcount fun _ => .fail f)
    (.ite (.bind hcount fun _ => .bind (remote_log _) fun _ => .fail _) (.fail f))

theorem remote_succeeded : Within Remote succeeded :=
  .bind .get fun _ => .bind (.modify fun _ => ⟨⟨rfl, rfl, rfl, rfl, .refl _⟩, rfl, rfl⟩) fun _ =>
    .bind .get fun _ => .bind (remote_log _) fun _ => .done _

theorem remote_attemptFailed (attempt : Nat) (f : Fault) : Within Remote (attemptFailed attempt f) := by
  refine .bind .get fun _ => .ite ?_ (remote_failed f)
  exact .ite (.bind (remote_onLoop fun l => .timer _) fun _ => .restOn _ _) (.pure _)

theorem remote_beginAttempt (attempt : Nat) : Within Remote (beginAttempt attempt) := by
  refine .bind (remote_count (fun _ => rfl) fun _ => rfl) fun _ => .bind .get fun _ =>
    .bind (remote_submit _ _) fun r => ?_
  cases r with
  | ok _ => exact .restOn _ _
  | error f => exact remote_attemptFailed attempt f

theorem remote_start : Within Remote start :=
  .bind (.modify fun _ => ⟨⟨rfl, rfl, rfl, rfl, .refl _⟩, rfl, rfl⟩) fun _ =>
    .bind (remote_count (fun _ => rfl) fun _ => rfl) fun _ => .bind .get fun _ =>
      .bind (remote_log _) fun _ => remote_beginAttempt 1

theorem remote_resume (point : BootStage) (given : Except Fault Reply) :
    Within Remote (resume point given) := by
  cases point with
  | start =>
    cases given with
    | ok r => exact remote_start
    | error f => exact .fail f
  | importing attempt =>
    cases given with
    | ok r => exact remote_succeeded
    | error f => exact remote_attemptFailed attempt f
  | pausing attempt timer =>
    cases given with
    | ok r => exact remote_beginAttempt (attempt + 1)
    | error f =>
      cases timer with
      | none => exact remote_failed f
      | some p => exact .bind (remote_changeLoop fun l => .dropTimer p) fun _ => remote_failed f

end Boot

/-! ## Grammars -/

namespace Grammars

theorem remote_fetchFailed (language locator : String) (f : Fault) :
    Within Remote (fetchFailed language locator f) :=
  .ite (.bind (remote_count (fun _ => rfl) fun _ => rfl) fun _ => .bind (remote_log _) fun _ => .fail _)
    (.fail f)

theorem remote_fetched (language : String) (g : Grammar) : Within Remote (fetched language g) :=
  .bind (.modify fun _ => ⟨⟨rfl, rfl, rfl, rfl, .refl _⟩, rfl, rfl⟩) fun _ =>
    .bind (remote_count (fun _ => rfl) fun _ => rfl) fun _ => .bind (remote_log _) fun _ => .done g

theorem remote_startFetch (language : String) : Within Remote (startFetch language) := by
  refine .bind .get fun s => ?_
  cases kept? s language with
  | some g => exact .done g
  | none =>
    dsimp only
    cases s.engine? with
    | error f => exact .fail f
    | ok engine =>
      refine .bind (remote_submit _ _) fun r => ?_
      cases r with
      | ok _ => exact .restOn _ _
      | error f => exact remote_fetchFailed language _ f

theorem remote_resumeFetch (point : FetchStage) (given : Except Fault Reply) :
    Within Remote (resumeFetch point given) := by
  cases point with
  | start language =>
    cases given with
    | ok r => exact remote_startFetch language
    | error f => exact .fail f
  | fetching language locator =>
    cases given with
    | ok r => exact remote_fetched language _
    | error f => exact remote_fetchFailed language locator f

theorem remote_attach (language : String) : Within Remote (attach language) :=
  fun _ => ⟨⟨rfl, rfl, rfl, rfl, Flight.later_attach ..⟩, rfl, rfl⟩

theorem remote_request (language : Json) : Within Remote (request language) := by
  refine .bind .get fun s => ?_
  cases s.validate language with
  | error f => exact .fail f
  | ok name =>
    dsimp only
    cases kept? s name with
    | some g => exact .bind (remote_count (fun _ => rfl) fun _ => rfl) fun _ => .done g
    | none =>
      refine .bind Boot.remote_attach fun r => ?_
      cases r with
      | some p => exact .restOn _ _
      | none => exact .bind (remote_attach name) fun p => .restOn _ _

theorem remote_resume (point : GrammarStage) (given : Except Fault Reply) :
    Within Remote (resume point given) := by
  cases given with
  | error f => cases point <;> exact .fail f
  | ok r =>
    cases point with
    | booting language => exact .bind (remote_attach language) fun p => .restOn _ _
    | loading language => exact .done _

end Grammars

/-! ## Warm-ups -/

namespace Warmup

theorem remote_gather (languages : List Json) : Within Remote (gather languages) := by
  refine .ite (.done true) (.bind (.mapM (fun l => remote_onLoop fun _ => .spawn _) languages) fun members =>
    .bind (remote_onLoop fun _ => .group members) fun g => .restOn _ _)

theorem remote_booted (languages : List Json) (result : Except Fault Unit) :
    Within Remote (booted languages result) := by
  cases result with
  | ok _ => exact remote_gather languages
  | error f => exact .ite (.bind (remote_log _) fun _ => .done false) (.fail f)

theorem remote_review : ∀ (ends : List (Json × Except Fault Unit)) (all : Bool),
    Within Remote (review ends all)
  | [], all => .done all
  | (_, .ok _) :: rest, all => .bind (remote_log _) fun _ => remote_review rest all
  | (_, .error f) :: rest, all =>
    .ite (.bind (remote_log _) fun _ => remote_review rest (all && false)) (.fail f)

theorem remote_request (languages : Option (List Json)) : Within Remote (request languages) := by
  refine .bind (remote_log _) fun _ => .bind .get fun _ => .bind (remote_attempt _) fun r => ?_
  cases r with
  | error f => exact .fail f
  | ok found =>
    refine .bind (remote_log _) fun _ => .bind Boot.remote_attach fun r => ?_
    cases r with
    | some p => exact .restOn _ _
    | none => exact remote_booted _ _

theorem remote_resume (stage : WarmStage) (given : Except Fault Reply) :
    Within Remote (resume stage given) := by
  cases stage with
  | booting languages => cases given <;> exact remote_booted languages _
  | gathering languages members =>
    cases given with
    | error f => exact .fail f
    | ok _ => exact .bind .get fun _ => remote_review _ true

end Warmup

/-! ## Tools and calls -/

theorem Tools.remote_finish (use : ParseUse) (result : Except Fault Tree) :
    Within Remote (finish use result) := by
  cases use <;> cases result <;>
    first
    | exact .done _
    | exact .fail _
    | exact .ite (.bind (remote_log _) fun _ => .done _) (.fail _)

/-- The call asks for a parser, for its own sake or to parse. -/
def Call.asksParser : Call → Bool
  | parse .. | parseFile .. | snippetTool .. | fileTool .. | getParser _ | lease .. => true
  | _ => false

/-- The task is one of a call that asks for a parser. -/
def Stage.asksParser : Stage → Bool
  | start call => call.asksParser
  | parser _ | lease .. | holding .. | parse .. => true
  | _ => false

/-- The call may close the service: it does, or it enters the service and its warm-up may fail. -/
def Call.closes : Call → Bool
  | close | leave _ | enter => true
  | _ => false

/-- The task is one of a call that may close the service. -/
def Stage.closes : Stage → Bool
  | start call => call.closes
  | enter _ => true
  | _ => false

namespace Calls

theorem within_replying [IsPreorder Service R] (turn : Turn P α) (wrap : P → Q) (f : α → Reply) :
    Within R (replying turn wrap f) :=
  .andThen fun _ => .pure _

theorem remote_parserReply (result : Except Fault String) : Within Remote (parserReply result) := by
  cases result with
  | error f => exact .fail f
  | ok language => exact .bind .get fun _ => .done _

theorem remote_hold (holder language : String) (result : Except Fault Nat) :
    Within Remote (hold holder language result) := by
  cases result with
  | error f => exact .fail f
  | ok parser =>
    exact .bind (remote_onLoop fun _ => .promise) fun _ =>
      .bind (.modify fun _ => ⟨⟨rfl, rfl, rfl, rfl, .refl _⟩, rfl, rfl⟩) fun _ => .restOn _ _

/-- If the warm-up has come to something, the service is entered without closing it. -/
theorem remote_entered (b : Bool) : Within Remote (entered (.ok b)) := by
  cases b <;> exact .bind (remote_log _) fun _ => .done _

theorem afar_entered (result : Except Fault Bool) : Within Afar (entered result) := by
  cases result with
  | ok b => exact (remote_entered b).mono fun _ _ => (·.toAfar)
  | error f =>
    refine .ite (.bind (afar_log _) fun _ => ?_) ?_
    all_goals
      refine .bind afar_close fun r => ?_
      cases r <;> exact .fail _

theorem afar_leave (f : Option Fault) : Within Afar (leave f) := by
  cases f with
  | none =>
    refine .bind afar_close fun r => ?_
    cases r with
    | ok _ => exact .done _
    | error g => exact .fail g
  | some f =>
    refine .ite (.bind (afar_log _) fun _ => ?_) ?_
    all_goals
      refine .bind afar_close fun r => ?_
      cases r with
      | ok _ => exact .done _
      | error g => exact .fail g

theorem remote_start {call : Call} (h : call.asksParser = false) (hc : call.closes = false) :
    Within Remote (start call) := by
  refine .bind .get fun s => ?_
  cases call with
  | parse | parseFile | snippetTool | fileTool | getParser | lease => cases h
  | close | leave | enter => cases hc
  | init =>
    refine .bind Boot.remote_attach fun r => ?_
    cases r with
    | some p => exact .restOn _ _
    | none => exact .done _
  | load language => exact .bind (Grammars.remote_request language) fun _ => within_replying _ _ _
  | warm languages => exact .bind (Warmup.remote_request languages) fun _ => within_replying _ _ _
  | check locators => exact .bind (remote_attempt _) fun _ => .pure _
  | isLoaded language =>
    cases language with
    | str l => exact .done _
    | arr | obj => exact .fail _
    | _ => exact .done _
  | engine | validate => exact .pure _
  | _ => exact .done _

theorem afar_start {call : Call} (h : call.asksParser = false) : Within Afar (start call) := by
  cases hc : call.closes with
  | false => exact (remote_start h hc).mono fun _ _ => (·.toAfar)
  | true =>
    refine .bind .get fun s => ?_
    cases call with
    | close =>
      refine .bind afar_close fun r => ?_
      cases r with
      | ok _ => exact .bind .get fun _ => .done _
      | error f => exact .fail f
    | leave f => exact afar_leave f
    | enter =>
      exact .bind ((Warmup.remote_request none).mono fun _ _ => (·.toAfar)) fun _ =>
        .andThen fun r => afar_entered r
    | _ => cases hc

/-- **A task that asks for no parser does remote work only, unless it closes the service.** -/
theorem remote_resume {stage : Stage} (h : stage.asksParser = false) (hc : stage.closes = false)
    (given : Except Fault Reply) : Within Remote (resume stage given) := by
  cases stage with
  | parser | lease | holding | parse => cases h
  | enter => cases hc
  | start call =>
    cases given with
    | ok _ => exact remote_start h hc
    | error f => exact .fail f
  | boot point => exact .bind (Boot.remote_resume point given) fun _ => within_replying _ _ _
  | fetch point => exact .bind (Grammars.remote_resumeFetch point given) fun _ => within_replying _ _ _
  | init => exact .pure _
  | grammar point => exact .bind (Grammars.remote_resume point given) fun _ => within_replying _ _ _
  | warm point => exact .bind (Warmup.remote_resume point given) fun _ => within_replying _ _ _

/-- Closing is done far from the parsers as well. -/
theorem afar_resume {stage : Stage} (h : stage.asksParser = false) (given : Except Fault Reply) :
    Within Afar (resume stage given) := by
  cases hc : stage.closes with
  | false => exact (remote_resume h hc given).mono fun _ _ => (·.toAfar)
  | true =>
    cases stage with
    | start call =>
      cases given with
      | ok _ => exact afar_start h
      | error f => exact .fail f
    | enter point =>
      exact .bind ((Warmup.remote_resume point given).mono fun _ _ => (·.toAfar)) fun _ =>
        .andThen fun r => afar_entered r
    | _ => cases hc

end Calls

end SourceTrees
