import SourceTrees.Proofs.Loop.Likeness
import SourceTrees.Proofs.Service.CallStages
import SourceTrees.Proofs.Service.Runs

/-!
# What calls leave to themselves

Two services may differ in one task, in the point from which it is to go on or in what it has returned, and in
what has been logged.  Nobody else can tell them apart: whatever another task does in its turn it does to both,
and so does whatever happens between turns.

## Protocol

* Services are **alike** if their loops are related by a likeness, their logs by a relation that goes on when
  the same line is written to both, and there is no other difference.
* Work is **blind** to the difference if it answers alike in alike services and leaves them alike.

## Results

* `Service.Alike`, `Work.Blind` — the notions, and how blind work is put together.
* `Calls.blind_resume` — whatever a task does in its turn is blind to the calls of others.
* `Service.Alike.move` — so is whatever happens in a run, but the turn of the one task.
-/

set_option autoImplicit false

namespace SourceTrees

open Loop

variable {α β P Q : Type} {c : PromiseId} {R : Loop Reply Stage Hook → Loop Reply Stage Hook → Prop}
  {G : List LogLine → List LogLine → Prop} {s s' : Service}

/-- The services are the same but for their loops and their logs, which are related. -/
structure Service.Alike (R : Loop Reply Stage Hook → Loop Reply Stage Hook → Prop)
    (G : List LogLine → List LogLine → Prop) (s s' : Service) : Prop where
  loop : R s.loop s'.loop
  log : G s.log s'.log
  rest : s' = { s with loop := s'.loop, log := s'.log }

/-- Loops are related by a likeness, and logs so that the same line can be written to both. -/
structure Service.Likeness (c : PromiseId) (R : Loop Reply Stage Hook → Loop Reply Stage Hook → Prop)
    (G : List LogLine → List LogLine → Prop) : Prop extends Loop.Likeness c R where
  logged : ∀ {lines lines'}, G lines lines' → ∀ line, G (lines ++ [line]) (lines' ++ [line])

namespace Work

/-- The work answers alike in alike services, and leaves them alike. -/
def Blind (R : Loop Reply Stage Hook → Loop Reply Stage Hook → Prop)
    (G : List LogLine → List LogLine → Prop) (f : Work α) : Prop :=
  ∀ ⦃s s' : Service⦄, s.Alike R G s' → (f s').1 = (f s).1 ∧ (f s).2.Alike R G (f s').2

namespace Blind

theorem pure (a : α) : Blind R G (pure a : Work α) := fun _ _ h => ⟨rfl, h⟩

theorem done (a : α) : Blind R G (done a : Work (Turn P α)) := .pure _

theorem fail (f : Fault) : Blind R G (fail f : Work (Turn P α)) := .pure _

theorem restOn (p : PromiseId) (point : P) : Blind R G (restOn p point : Work (Turn P α)) := .pure _

theorem bind {f : Work α} {g : α → Work β} (hf : Blind R G f) (hg : ∀ a, Blind R G (g a)) :
    Blind R G (f >>= g) := by
  intro s s' h
  obtain ⟨he, h'⟩ := hf h
  show (g (f s').1 (f s').2).1 = _ ∧ _
  rw [run_bind, run_bind, he]
  exact hg _ h'

/-- Work may look at what is the same in alike services. -/
theorem look {g : Service → Work β} (hsame : ∀ {s s' : Service}, s.Alike R G s' → g s' = g s)
    (hg : ∀ s, Blind R G (g s)) : Blind R G ((MonadState.get : Work Service) >>= g) := by
  intro s s' h
  show (g s' s').1 = (g s s).1 ∧ (g s s).2.Alike R G (g s' s').2
  rw [hsame h]
  exact hg s h

/-- Everything but the loop and the log is the same in alike services. -/
theorem lookAtRest {g : Service → Work β} (hsame : ∀ (s : Service) loop log, g { s with loop, log } = g s)
    (hg : ∀ s, Blind R G (g s)) : Blind R G ((MonadState.get : Work Service) >>= g) := by
  refine .look (fun {s s'} h => ?_) hg
  rw [h.rest]
  exact hsame s _ _

theorem ite {b : Prop} [Decidable b] {f g : Work α} (hf : Blind R G f) (hg : Blind R G g) :
    Blind R G (if b then f else g) := by
  split
  · exact hf
  · exact hg

/-- A call made in turn, and what goes on from there. -/
theorem andThen {turn : Turn P α} {wrap : P → Q} {next : Except Fault α → Work (Turn Q β)}
    (h : ∀ r, Blind R G (next r)) : Blind R G (andThen turn wrap next) := by
  cases turn with
  | rest | giveWay => exact .pure _
  | finish r => exact h r

theorem mapM {f : α → Work β} (h : ∀ a, Blind R G (f a)) (l : List α) : Blind R G (l.mapM f) := by
  induction l with
  | nil => exact .pure _
  | cons a l ih =>
    rw [List.mapM_cons]
    exact .bind (h a) fun _ => .bind ih fun _ => .pure _

theorem forM {f : α → Work PUnit} (h : ∀ a, Blind R G (f a)) (l : List α) : Blind R G (l.forM f) := by
  induction l with
  | nil => exact .pure _
  | cons a l ih => exact .bind (h a) fun _ => ih

/-- A change that leaves the loop and the log alone, and does not look at them. -/
theorem modify {g : Service → Service}
    (hg : ∀ (s : Service) loop log, g { s with loop, log } = { g s with loop, log }) :
    Blind R G (modify g : Work Unit) := by
  intro s s' h
  have hs : g s = { g s with loop := s.loop, log := s.log } := hg s s.loop s.log
  have hs' : g s' = { g s with loop := s'.loop, log := s'.log } := by
    conv_lhs => rw [h.rest]
    exact hg s _ _
  refine ⟨rfl, ?_, ?_, ?_⟩
  · show R (g s).loop (g s').loop
    rw [hs, hs']
    exact h.loop
  · show G (g s).log (g s').log
    rw [hs, hs']
    exact h.log
  · show g s' = { g s with loop := (g s').loop, log := (g s').log }
    rw [hs']

theorem onLoop {f : Loop Reply Stage Hook → α × Loop Reply Stage Hook}
    (hf : ∀ {l l'}, R l l' → (f l').1 = (f l).1 ∧ R (f l).2 (f l').2) : Blind R G (onLoop f) := by
  intro s s' h
  obtain ⟨he, hr⟩ := hf h.loop
  refine ⟨he, hr, h.log, ?_⟩
  show ({ s' with loop := _ } : Service) = _
  rw [h.rest]
  rfl

theorem changeLoop {f : Loop Reply Stage Hook → Loop Reply Stage Hook}
    (hf : ∀ {l l'}, R l l' → R (f l) (f l')) : Blind R G (changeLoop f) := by
  intro s s' h
  refine ⟨rfl, hf h.loop, h.log, ?_⟩
  show ({ s' with loop := _ } : Service) = _
  rw [h.rest]
  rfl

theorem attempt (a : Attempt α) : Blind R G (attempt a) := by
  intro s s' h
  have hworld : s'.world = s.world := by rw [h.rest]
  refine ⟨?_, h.loop, h.log, ?_⟩
  · show (a.run s'.world).1 = _
    rw [hworld]
    rfl
  · show ({ s' with world := (a.run s'.world).2 } : Service) = _
    rw [hworld, h.rest]
    rfl

end Blind

variable (hL : Service.Likeness c R G)

include hL

/-! ## The parts of turns -/

theorem blind_log (line : LogLine) : Blind R G (log line) := by
  intro s s' h
  refine ⟨rfl, h.loop, hL.logged h.log line, ?_⟩
  show ({ s' with log := _ } : Service) = _
  rw [h.rest]
  rfl

omit hL in
theorem blind_count (f : Counts → Counts) : Blind R G (count f) := .modify fun _ _ _ => rfl

theorem blind_promise : Blind R G (onLoop (·.promise)) := .onLoop fun h => hL.newPromise h

theorem blind_settle (p : PromiseId) (o : Settled Reply) : Blind R G (changeLoop (·.settle p o)) :=
  .changeLoop fun h => hL.settle h p o

omit hL in
theorem blind_perform (job : Job) : Blind R G (perform job) := by
  cases job with
  | boot | grammar | parse => exact .bind (.attempt _) fun _ => .pure _
  | copy => exact .pure _

theorem blind_submit (crew : Crew) (job : Job) : Blind R G (submit crew job) := by
  refine .lookAtRest (fun _ _ _ => rfl) fun s => .ite (.pure _) (.ite ?_ ?_)
  · exact .bind (blind_perform job) fun _ => .bind (blind_promise hL) fun _ =>
      .bind (.changeLoop fun h => hL.enqueueAll h _) fun _ => .pure _
  · exact .bind (blind_promise hL) fun _ => .bind (.modify fun _ _ _ => rfl) fun _ => .pure _

theorem blind_performTicket (ticket : Ticket) : Blind R G (performTicket ticket) :=
  .bind (blind_perform ticket.job) fun _ => .changeLoop fun h => hL.enqueueAll h _

/-- What is put back after it has been looked at has been changed. -/
theorem blind_workOff (i : Nat) : Blind R G (workOff i) := by
  have he : workOff i = ((MonadState.get : Work Service) >>= fun s =>
      s.workers.queue[i]?.elim (Pure.pure ()) fun t => do
        modify fun s => { s with workers := { s.workers with queue := s.workers.queue.eraseIdx i } }
        performTicket t) := by
    funext s
    unfold workOff
    rw [run_bind, run_bind]
    dsimp only [run_get]
    cases s.workers.queue[i]? <;> rfl
  rw [he]
  refine .lookAtRest (fun _ _ _ => rfl) fun s => ?_
  cases s.workers.queue[i]? with
  | none => exact .pure _
  | some ticket => exact .bind (.modify fun _ _ _ => rfl) fun _ => blind_performTicket hL ticket

theorem blind_dismiss : Blind R G dismiss := by
  have he : dismiss = (do
      modify fun s => { s with workers := { s.workers with dismissals := s.workers.dismissals + 1 } }
      let s ← get
      s.workers.stuck.elim
        (do
          modify fun s => { s with workers := { s.workers with
            queue := (s.workers.queue.partition fun t => t.crew = .own).2, dismissed := true } }
          (s.workers.queue.partition fun t => t.crew = .own).1.forM performTicket
          return .ok ())
        fun f => return .error f) := by
    funext s
    cases hs : s.workers.stuck with
    | none | some f => simp [dismiss, hs]
  rw [he]
  refine .bind (.modify fun _ _ _ => rfl) fun _ => .lookAtRest (fun _ _ _ => rfl) fun s => ?_
  cases s.workers.stuck with
  | some f => exact .pure _
  | none =>
    refine .bind (.modify fun _ _ _ => rfl) fun _ => .bind ?_ fun _ => .pure _
    exact .forM (blind_performTicket hL) _

theorem blind_close : Blind R G close := by
  unfold close
  refine .lookAtRest (fun _ _ _ => rfl) fun s => ?_
  split
  · refine .bind (blind_dismiss hL) fun r => ?_
    cases r with
    | ok _ =>
      exact .bind (.modify fun _ _ _ => rfl) fun _ => .bind (blind_log hL _) fun _ => .pure _
    | error f => exact .ite (.bind (blind_log hL _) fun _ => .pure _) (.pure _)
  · exact .pure _

end Work

open Work

variable (hL : Service.Likeness c R G)

include hL

/-! ## The boot -/

namespace Boot

theorem blind_attach : Blind R G attach := by
  refine .lookAtRest (fun _ _ _ => rfl) fun s => .ite (.pure _) ?_
  intro s s' h
  obtain ⟨loop, he, hr⟩ := hL.attach h.loop s.bootFlight () (.boot .start) .boot
  have hflight : s'.bootFlight = s.bootFlight := by rw [h.rest]
  rw [run_modifyGet, run_modifyGet, hflight]
  dsimp only
  rw [he]
  refine ⟨rfl, hr, h.log, ?_⟩
  rw [h.rest]

theorem blind_failed (f : Fault) : Blind R G (failed f) := by
  unfold failed
  refine .bind (.modify fun _ _ _ => rfl) fun _ => .lookAtRest (fun _ _ _ => rfl) fun s => ?_
  exact .ite (.bind (blind_count _) fun _ => .fail f)
    (.ite (.bind (blind_count _) fun _ => .bind (blind_log hL _) fun _ => .fail _) (.fail f))

theorem blind_succeeded : Blind R G succeeded :=
  .lookAtRest (fun _ _ _ => rfl) fun _ => .bind (.modify fun _ _ _ => rfl) fun _ =>
    .lookAtRest (fun _ _ _ => rfl) fun _ => .bind (blind_log hL _) fun _ => .done _

theorem blind_attemptFailed (attempt : Nat) (f : Fault) : Blind R G (attemptFailed attempt f) := by
  refine .lookAtRest (fun _ _ _ => rfl) fun _ => .ite ?_ (blind_failed hL f)
  exact .ite (.bind (.onLoop fun h => hL.timer h _) fun _ => .restOn _ _) (.pure _)

theorem blind_beginAttempt (attempt : Nat) : Blind R G (beginAttempt attempt) := by
  refine .bind (blind_count _) fun _ => .lookAtRest (fun _ _ _ => rfl) fun _ =>
    .bind (blind_submit hL _ _) fun r => ?_
  cases r with
  | ok _ => exact .restOn _ _
  | error f => exact blind_attemptFailed hL attempt f

theorem blind_start : Blind R G start :=
  .bind (.modify fun _ _ _ => rfl) fun _ => .bind (blind_count _) fun _ =>
    .lookAtRest (fun _ _ _ => rfl) fun _ => .bind (blind_log hL _) fun _ => blind_beginAttempt hL 1

theorem blind_resume (point : BootStage) (given : Except Fault Reply) : Blind R G (resume point given) := by
  cases point with
  | start =>
    cases given with
    | ok r => exact blind_start hL
    | error f => exact .fail f
  | importing attempt =>
    cases given with
    | ok r => exact blind_succeeded hL
    | error f => exact blind_attemptFailed hL attempt f
  | pausing attempt timer =>
    cases given with
    | ok r => exact blind_beginAttempt hL (attempt + 1)
    | error f =>
      cases timer with
      | none => exact blind_failed hL f
      | some p => exact .bind (.changeLoop fun h => hL.dropTimer h p) fun _ => blind_failed hL f

end Boot

/-! ## Grammars -/

namespace Grammars

theorem blind_fetchFailed (language locator : String) (f : Fault) :
    Blind R G (fetchFailed language locator f) :=
  .ite (.bind (blind_count _) fun _ => .bind (blind_log hL _) fun _ => .fail _) (.fail f)

theorem blind_fetched (language : String) (g : Grammar) : Blind R G (fetched language g) :=
  .bind (.modify fun _ _ _ => rfl) fun _ => .bind (blind_count _) fun _ =>
    .bind (blind_log hL _) fun _ => .done g

theorem blind_startFetch (language : String) : Blind R G (startFetch language) := by
  refine .lookAtRest (fun _ _ _ => rfl) fun s => ?_
  cases kept? s language with
  | some g => exact .done g
  | none =>
    dsimp only
    cases s.engine? with
    | error f => exact .fail f
    | ok engine =>
      refine .bind (blind_submit hL _ _) fun r => ?_
      cases r with
      | ok _ => exact .restOn _ _
      | error f => exact blind_fetchFailed hL language _ f

theorem blind_resumeFetch (point : FetchStage) (given : Except Fault Reply) :
    Blind R G (resumeFetch point given) := by
  cases point with
  | start language =>
    cases given with
    | ok r => exact blind_startFetch hL language
    | error f => exact .fail f
  | fetching language locator =>
    cases given with
    | ok r => exact blind_fetched hL language _
    | error f => exact blind_fetchFailed hL language locator f

theorem blind_attach (language : String) : Blind R G (attach language) := by
  intro s s' h
  obtain ⟨loop, he, hr⟩ := hL.attach h.loop s.grammarFlight language (.fetch (.start language))
    (.grammar language)
  have hflight : s'.grammarFlight = s.grammarFlight := by rw [h.rest]
  unfold attach
  rw [run_modifyGet, run_modifyGet, hflight]
  dsimp only
  rw [he]
  refine ⟨rfl, hr, h.log, ?_⟩
  rw [h.rest]

theorem blind_request (language : Json) : Blind R G (request language) := by
  refine .lookAtRest (fun _ _ _ => rfl) fun s => ?_
  cases s.validate language with
  | error f => exact .fail f
  | ok name =>
    dsimp only
    cases kept? s name with
    | some g => exact .bind (blind_count _) fun _ => .done g
    | none =>
      refine .bind (Boot.blind_attach hL) fun r => ?_
      cases r with
      | some p => exact .restOn _ _
      | none => exact .bind (blind_attach hL name) fun p => .restOn _ _

theorem blind_resume (point : GrammarStage) (given : Except Fault Reply) :
    Blind R G (resume point given) := by
  cases given with
  | error f => cases point <;> exact .fail f
  | ok r =>
    cases point with
    | booting language => exact .bind (blind_attach hL language) fun p => .restOn _ _
    | loading language => exact .done _

end Grammars

/-! ## The pool -/

namespace Pool

theorem blind_create (language : String) (g : Grammar) : Blind R G (create language g) := by
  refine .lookAtRest (fun _ _ _ => rfl) fun s => ?_
  cases s.engine? with
  | error f => exact .fail f
  | ok engine =>
    refine .bind (Blind.attempt _) fun r => ?_
    cases r with
    | ok parser =>
      exact .bind (.modify fun _ _ _ => rfl) fun _ => .bind (blind_count _) fun _ => .done _
    | error f =>
      exact .ite (.bind (blind_log hL _) fun _ => .lookAtRest (fun _ _ _ => rfl) fun _ => .fail _) (.fail f)

theorem blind_grammarCame (language : String) (result : Except Fault Grammar) :
    Blind R G (grammarCame language result) := by
  cases result with
  | error f => exact .fail f
  | ok g => exact .lookAtRest (fun _ _ _ => rfl) fun _ => .ite (.done _) (blind_create hL language g)

theorem blind_request (language : Json) : Blind R G (request language) := by
  refine .lookAtRest (fun _ _ _ => rfl) fun s => ?_
  cases s.validate language with
  | error f => exact .fail f
  | ok name =>
    refine .ite (.bind (blind_count _) fun _ => .done _) (.bind (blind_count _) fun _ => ?_)
    exact .bind (Grammars.blind_request hL language) fun _ => .andThen fun r => blind_grammarCame hL name r

theorem blind_resume (point : PoolStage) (given : Except Fault Reply) :
    Blind R G (resume point given) := by
  cases point with
  | grammar language point =>
    exact .bind (Grammars.blind_resume hL point given) fun _ =>
      .andThen fun r => blind_grammarCame hL language r

omit hL in
theorem blind_changeLock (language : String) (f : Lock → Lock) : Blind R G (changeLock language f) :=
  .modify fun _ _ _ => rfl

theorem blind_callNext (language : String) : Blind R G (callNext language) := by
  refine .lookAtRest (fun _ _ _ => rfl) fun s => ?_
  cases (lockOf s language).tickets with
  | nil => exact .pure _
  | cons ticket rest => exact blind_settle hL ticket _

theorem blind_release (language : String) : Blind R G (release language) :=
  .bind (blind_changeLock _ _) fun _ => blind_callNext hL language

omit hL in
theorem blind_take (language : String) : Blind R G (take language) :=
  .bind (.modify fun _ _ _ => rfl) fun _ => .lookAtRest (fun _ _ _ => rfl) fun _ => .done _

theorem blind_acquire (result : Except Fault String) : Blind R G (acquire result) := by
  cases result with
  | error f => exact .fail f
  | ok language =>
    refine .look (fun {s s'} h => ?_) fun s => .ite (blind_take language) ?_
    · have hlock := congrArg (lockOf · language) h.rest
      dsimp only at hlock ⊢
      rw [hlock, show s'.loop.isCancelled = s.loop.isCancelled from funext (hL.isCancelled h.loop)]
      rfl
    · exact .bind (blind_promise hL) fun _ => .bind (blind_changeLock _ _) fun _ => .restOn _ _

theorem blind_lease (language : Json) : Blind R G (lease language) :=
  .bind (blind_request hL language) fun _ => .andThen (blind_acquire hL)

theorem blind_resumeLease (point : LeaseStage) (given : Except Fault Reply) :
    Blind R G (resumeLease point given) := by
  cases point with
  | parser point => exact .bind (blind_resume hL point given) fun _ => .andThen (blind_acquire hL)
  | lock language ticket =>
    refine .bind (blind_changeLock _ _) fun _ => ?_
    cases given with
    | ok r => exact blind_take language
    | error f =>
      exact .lookAtRest (fun _ _ _ => rfl) fun s =>
        .ite (.fail f) (.bind (blind_callNext hL _) fun _ => .fail f)

end Pool

/-! ## Parsing -/

namespace Parsing

variable (language : String) (source : List UInt8) (crew : Crew)

theorem blind_copy (root : Node) : Blind R G (copy language source crew root) := by
  refine .bind (blind_submit hL _ _) fun r => ?_
  cases r with
  | ok p => exact .restOn _ _
  | error f => exact .fail f

theorem blind_parsed (root : Option Node) : Blind R G (parsed language source crew root) := by
  refine .bind (Pool.blind_release hL language) fun _ => ?_
  cases root with
  | some root => exact blind_copy hL language source crew root
  | none => exact .bind (blind_count _) fun _ => .fail _

theorem blind_raised (f : Fault) : Blind R G (raised language f) :=
  .bind (blind_count _) fun _ => .bind (blind_log hL _) fun _ => .bind (Pool.blind_release hL language) fun _ =>
    .fail _

theorem blind_drain (job : PromiseId) (f : Fault) : Blind R G (drain language job f) := by
  refine .look (fun h => ?_) fun s => .ite ?_ (.bind (Pool.blind_release hL language) fun _ => .fail f)
  · rw [hL.isPending h.loop]
  · exact .bind (.onLoop fun h => hL.waiter h job) fun _ => .restOn _ _

theorem blind_leased (result : Except Fault Nat) : Blind R G (leased language source crew result) := by
  cases result with
  | error f => exact .fail f
  | ok parser =>
    refine .bind (blind_submit hL _ _) fun r => ?_
    cases r with
    | error f => exact .bind (Pool.blind_release hL language) fun _ => .fail f
    | ok job => exact .bind (.onLoop fun h => hL.shield h job) fun _ => .restOn _ _

theorem blind_borrow : Blind R G (borrow language source) :=
  .lookAtRest (fun _ _ _ => rfl) fun _ => .bind (Pool.blind_lease hL _) fun _ =>
    .andThen (blind_leased hL language source _)

theorem blind_request (code : Code) (language : Json) : Blind R G (request code language) := by
  refine .lookAtRest (fun _ _ _ => rfl) fun s => ?_
  cases s.validate language with
  | error f => exact .fail f
  | ok name =>
    cases code.toSource with
    | error f => exact .fail f
    | ok source =>
      refine .bind (Boot.blind_attach hL) fun r => ?_
      cases r with
      | some p => exact .restOn _ _
      | none => exact blind_borrow hL name source

theorem blind_resume (stage : ParseStage) (given : Except Fault Reply) : Blind R G (resume stage given) := by
  cases stage with
  | booting language source =>
    cases given with
    | ok r => exact blind_borrow hL language source
    | error f => exact .fail f
  | leasing language source crew point =>
    exact .bind (Pool.blind_resumeLease hL point given) fun _ => .andThen (blind_leased hL language source crew)
  | running language source crew job =>
    cases given with
    | ok r => exact blind_parsed hL language source crew _
    | error f =>
      exact .ite (blind_drain hL language job f)
        (.ite (blind_raised hL language f) (.bind (Pool.blind_release hL language) fun _ => .fail f))
  | draining language job waiter cancellation =>
    exact .bind (.changeLoop fun h => hL.unsubscribe h job _) fun _ =>
      blind_drain hL language job cancellation
  | copying language =>
    cases given with
    | error f => exact .fail f
    | ok r =>
      cases r with
      | tree t => exact .bind (blind_count _) fun _ => .done t
      | _ => exact .fail _

end Parsing

/-! ## Warm-ups -/

namespace Warmup

theorem blind_gather (languages : List Json) : Blind R G (gather languages) := by
  refine .ite (.done true) (.bind (.mapM (fun l => ?_) languages) fun members => ?_)
  · exact .onLoop fun h => hL.spawn h _
  · exact .bind (.onLoop fun h => hL.group h members) fun _ => .restOn _ _

theorem blind_booted (languages : List Json) (result : Except Fault Unit) :
    Blind R G (booted languages result) := by
  cases result with
  | ok _ => exact blind_gather hL languages
  | error f => exact .ite (.bind (blind_log hL _) fun _ => .done false) (.fail f)

theorem blind_review (ends : List (Json × Except Fault Unit)) (all : Bool) :
    Blind R G (review ends all) := by
  induction ends generalizing all with
  | nil => exact .done all
  | cons e rest ih =>
    obtain ⟨language, _ | f⟩ := e
    · exact .ite (.bind (blind_log hL _) fun _ => ih _) (.fail _)
    · exact .bind (blind_log hL _) fun _ => ih all

theorem blind_request (languages : Option (List Json)) : Blind R G (request languages) := by
  refine .bind (blind_log hL _) fun _ => .lookAtRest (fun _ _ _ => rfl) fun _ =>
    .bind (Blind.attempt _) fun r => ?_
  cases r with
  | error f => exact .fail f
  | ok found =>
    refine .bind (blind_log hL _) fun _ => .bind (Boot.blind_attach hL) fun r => ?_
    cases r with
    | some p => exact .restOn _ _
    | none => exact blind_booted hL _ _

/-- How a task has ended is looked at, but not what it has returned. -/
theorem endOf_alike {s s' : Service} (h : s.Alike R G s') : endOf s' = endOf s := by
  funext t
  have hm := hL.manner h.loop t
  unfold endOf
  rcases ho : s.loop.outcome? t with _ | (v | f | _) <;>
    rcases ho' : s'.loop.outcome? t with _ | (v' | f' | _) <;>
    rw [ho, ho'] at hm <;> first | rfl | cases hm
  rfl

theorem blind_resume (stage : WarmStage) (given : Except Fault Reply) : Blind R G (resume stage given) := by
  cases stage with
  | booting languages => cases given <;> exact blind_booted hL languages _
  | gathering languages members =>
    cases given with
    | error f => exact .fail f
    | ok _ =>
      refine .look (fun h => ?_) fun _ => blind_review hL _ true
      rw [endOf_alike hL h]

end Warmup

/-! ## Tools and calls -/

namespace Tools

theorem blind_finish (use : ParseUse) (result : Except Fault Tree) : Blind R G (finish use result) := by
  cases use <;> cases result <;>
    first
    | exact .done _
    | exact .fail _
    | exact .ite (.bind (blind_log hL _) fun _ => .done _) (.fail _)

/-- A parse for some use, from how it is asked for or goes on. -/
theorem blind_used (use : ParseUse) {f : Work (Turn ParseStage Tree)} (hf : Blind R G f) :
    Blind R G (do
      let turn ← f
      Work.andThen (← Work.andThen turn id (finish use)) (.parse use) (fun r => return .finish r) :
        Work (Turn Stage Reply)) :=
  .bind hf fun _ => .bind (.andThen (blind_finish hL use)) fun _ => .andThen fun _ => .pure _

theorem blind_parseAs (use : ParseUse) (code : Code) (path : Json) : Blind R G (parseAs use code path) := by
  unfold parseAs
  split
  · exact blind_used hL use (Parsing.blind_request hL code _)
  · exact .bind (blind_count _) fun _ => .done _

theorem blind_parseFile (path : Json) (depth : Option Int) : Blind R G (parseFile path depth) := by
  refine .lookAtRest (fun _ _ _ => rfl) fun s => ?_
  split
  · split
    · exact .done _
    · split
      · exact .ite (.done _) (.fail _)
      · exact blind_parseAs hL _ _ _
  · exact .done _

end Tools

namespace Calls

omit hL in
theorem blind_replying (turn : Turn P α) (wrap : P → Q) (f : α → Reply) :
    Blind R G (replying turn wrap f) :=
  .andThen fun _ => .pure _

omit hL in
theorem blind_parserReply (result : Except Fault String) : Blind R G (parserReply result) := by
  cases result with
  | error f => exact .fail f
  | ok language => exact .lookAtRest (fun _ _ _ => rfl) fun _ => .done _

theorem blind_hold (holder language : String) (result : Except Fault Nat) :
    Blind R G (hold holder language result) := by
  cases result with
  | error f => exact .fail f
  | ok parser =>
    exact .bind (blind_promise hL) fun _ => .bind (.modify fun _ _ _ => rfl) fun _ => .restOn _ _

theorem blind_entered (result : Except Fault Bool) : Blind R G (entered result) := by
  cases result with
  | ok b => cases b <;> exact .bind (blind_log hL _) fun _ => .done _
  | error f =>
    refine .ite (.bind (blind_log hL _) fun _ => ?_) ?_
    all_goals
      refine .bind (blind_close hL) fun r => ?_
      cases r <;> exact .fail _

theorem blind_leave (f : Option Fault) : Blind R G (leave f) := by
  cases f with
  | none =>
    refine .bind (blind_close hL) fun r => ?_
    cases r with
    | ok _ => exact .done _
    | error g => exact .fail g
  | some f =>
    refine .ite (.bind (blind_log hL _) fun _ => ?_) ?_
    all_goals
      refine .bind (blind_close hL) fun r => ?_
      cases r with
      | ok _ => exact .done _
      | error g => exact .fail g

theorem blind_start (call' : Call) : Blind R G (start call') := by
  cases call' with
  | init =>
    refine .lookAtRest (fun _ _ _ => rfl) fun s => .bind (Boot.blind_attach hL) fun r => ?_
    cases r with
    | some p => exact .restOn _ _
    | none => exact .done _
  | parse code language =>
    exact .lookAtRest (fun _ _ _ => rfl) fun _ =>
      Tools.blind_used hL .tree (Parsing.blind_request hL code language)
  | snippetTool code language depth =>
    exact .lookAtRest (fun _ _ _ => rfl) fun _ =>
      Tools.blind_used hL (.snippet language depth) (Parsing.blind_request hL code language)
  | parseFile code path => exact .lookAtRest (fun _ _ _ => rfl) fun _ => Tools.blind_parseAs hL .tree code path
  | fileTool path depth => exact .lookAtRest (fun _ _ _ => rfl) fun _ => Tools.blind_parseFile hL path depth
  | load language =>
    exact .lookAtRest (fun _ _ _ => rfl) fun _ =>
      .bind (Grammars.blind_request hL language) fun _ => blind_replying _ _ _
  | getParser language =>
    exact .lookAtRest (fun _ _ _ => rfl) fun _ => .bind (Pool.blind_request hL language) fun _ =>
      .andThen blind_parserReply
  | lease holder language =>
    exact .lookAtRest (fun _ _ _ => rfl) fun _ => .bind (Pool.blind_lease hL language) fun _ =>
      .andThen (blind_hold hL holder _)
  | warm languages =>
    exact .lookAtRest (fun _ _ _ => rfl) fun _ =>
      .bind (Warmup.blind_request hL languages) fun _ => blind_replying _ _ _
  | check locators => exact .lookAtRest (fun _ _ _ => rfl) fun _ => .bind (Blind.attempt _) fun _ => .pure _
  | isLoaded language =>
    cases language with
    | str l => exact .lookAtRest (fun _ _ _ => rfl) fun _ => .done _
    | arr | obj => exact .lookAtRest (fun _ _ _ => rfl) fun _ => .fail _
    | _ => exact .lookAtRest (fun _ _ _ => rfl) fun _ => .done _
  | close =>
    refine .lookAtRest (fun _ _ _ => rfl) fun _ => .bind (blind_close hL) fun r => ?_
    cases r with
    | ok _ => exact .lookAtRest (fun _ _ _ => rfl) fun _ => .done _
    | error f => exact .fail f
  | enter =>
    exact .lookAtRest (fun _ _ _ => rfl) fun _ =>
      .bind (Warmup.blind_request hL none) fun _ => .andThen (blind_entered hL)
  | leave f => exact .lookAtRest (fun _ _ _ => rfl) fun _ => blind_leave hL f
  | engine | validate => exact .lookAtRest (fun _ _ _ => rfl) fun _ => .pure _
  | _ => exact .lookAtRest (fun _ _ _ => rfl) fun _ => .done _

/-- **Whatever a task does in its turn is blind to the calls of others.** -/
theorem blind_resume (stage : Stage) (given : Except Fault Reply) : Blind R G (resume stage given) := by
  cases stage with
  | start call' =>
    cases given with
    | ok _ => exact blind_start hL call'
    | error f => exact .fail f
  | boot point => exact .bind (Boot.blind_resume hL point given) fun _ => blind_replying _ _ _
  | fetch point => exact .bind (Grammars.blind_resumeFetch hL point given) fun _ => blind_replying _ _ _
  | init => exact .pure _
  | grammar point => exact .bind (Grammars.blind_resume hL point given) fun _ => blind_replying _ _ _
  | parser point => exact .bind (Pool.blind_resume hL point given) fun _ => .andThen blind_parserReply
  | lease holder point =>
    exact .bind (Pool.blind_resumeLease hL point given) fun _ => .andThen (blind_hold hL holder _)
  | holding language parser => exact .bind (Pool.blind_release hL language) fun _ => .pure _
  | parse use point => exact Tools.blind_used hL use (Parsing.blind_resume hL point given)
  | warm point => exact .bind (Warmup.blind_resume hL point given) fun _ => blind_replying _ _ _
  | enter point => exact .bind (Warmup.blind_resume hL point given) fun _ => .andThen (blind_entered hL)

end Calls

/-! ## Moves -/

namespace Service

variable {t : PromiseId}

omit hL in
theorem stepTask_of_none (h : s.loop.tasks.get? t = none) (given : Except Fault Reply) :
    program.stepTask t given s = s := by
  unfold Program.stepTask
  rw [show (program.loop s).tasks.get? t = none from h]

omit hL in
theorem stepTask_of_some {task : Task Stage} (h : s.loop.tasks.get? t = some task)
    (given : Except Fault Reply) : program.stepTask t given s =
      program.change (Calls.resume task.point (Program.met task given) s).2
        (Program.conclude t (Calls.resume task.point (Program.met task given) s).1) := by
  unfold Program.stepTask
  rw [show (program.loop s).tasks.get? t = some task from h]
  rfl

namespace Alike

omit hL in
/-- The loops are changed alike. -/
theorem withLoop (h : s.Alike R G s') {l l' : Loop Reply Stage Hook} (hr : R l l') :
    Alike R G { s with loop := l } { s' with loop := l' } := by
  refine ⟨hr, h.log, ?_⟩
  rw [h.rest]

/-- The turn of another task. -/
theorem stepTask (h : s.Alike R G s') (hne : t ≠ c) (given : Except Fault Reply) :
    (program.stepTask t given s).Alike R G (program.stepTask t given s') := by
  have hget := hL.task h.loop hne
  cases htask : s.loop.tasks.get? t with
  | none =>
    rw [stepTask_of_none htask, stepTask_of_none (hget.trans htask)]
    exact h
  | some task =>
    obtain ⟨he, h'⟩ := Calls.blind_resume hL task.point (Program.met task given) h
    rw [stepTask_of_some htask, stepTask_of_some (hget.trans htask), he]
    exact h'.withLoop (hL.conclude h'.loop hne _)

/-- Errands that give the task no turn.  If an errand looks at how a promise was settled, there must be no
    difference. -/
theorem serve (h : s.Alike R G s') {e : Errand Reply Hook} (hturn : e.woken? ≠ some c)
    (hsee : ∀ {p}, e.LooksAt p → s'.loop.outcome? p = s.loop.outcome? p) :
    (program.serve e s).Alike R G (program.serve e s') := by
  rcases e with t | ⟨r, p⟩ | ⟨p, x⟩ | p
  · exact h.stepTask hL (fun he => hturn (by rw [he]; rfl)) _
  · cases r with
    | wake t =>
      have hsame : (program.loop s').outcome? p = (program.loop s).outcome? p := hsee (.wake t p)
      simp only [Program.serve, Program.reactTo, hsame]
      cases (program.loop s).outcome? p with
      | some o => exact h.stepTask hL (fun he => hturn (by rw [he]; rfl)) _
      | none => exact h
    | relay q =>
      have hsame : (program.loop s').outcome? p = (program.loop s).outcome? p := hsee (.relay q p)
      simp only [Program.serve, Program.reactTo, hsame]
      cases (program.loop s).outcome? p with
      | some o => exact h.withLoop (hL.settle h.loop q o)
      | none => exact h
    | signal q => exact h.withLoop (hL.settle h.loop q _)
    | tally g => exact h.withLoop (hL.tally h.loop g)
    | hook hook =>
      refine (Blind.modify (g := Calls.react hook p) (fun _ _ _ => ?_) h).2
      cases hook <;> rfl
  · exact h.withLoop (hL.settle h.loop p _)
  · exact h.withLoop (hL.settle h.loop p _)

omit hL in
/-- A lease is ended, if the task holds one. -/
theorem exists_endLease (task : PromiseId) (fault : Option Fault) : ∃ o : Settled Reply, ∀ s : Service,
    s.move (.act (.endLease task fault)) =
      ((s.gate? task).map fun gate => { s with loop := s.loop.settle gate o }).getD s := by
  refine ⟨(fault.map .failed).getD (.value .nothing), fun s => ?_⟩
  cases hg : s.gate? task <;> cases fault <;> simp [Service.move, Service.act, hg] <;> rfl

/-- What is done from outside.  Both must see the same leases. -/
theorem act (h : s.Alike R G s') (hgate : ∀ t, s'.gate? t = s.gate? t) (a : Action) :
    (s.move (.act a)).Alike R G (s'.move (.act a)) := by
  cases a with
  | spawn other => exact h.withLoop (hL.spawn h.loop _).2
  | release position =>
    have hf : Blind R G (Service.act (.release position)) := .lookAtRest (fun _ _ _ => rfl) fun _ =>
      .ite (.bind (blind_workOff hL _) fun _ => .pure _) (.pure _)
    exact (hf h).2
  | cancel task => exact h.withLoop (hL.cancelTask h.loop task)
  | endLease task fault =>
    obtain ⟨o, ho⟩ := exists_endLease task fault
    rw [ho, ho, hgate]
    cases s.gate? task with
    | none => exact h
    | some gate => exact h.withLoop (hL.settle h.loop gate o)
  | cancelBoot =>
    have hf : Blind R G (Service.act .cancelBoot) := .lookAtRest (fun _ _ _ => rfl) fun s => by
      cases s.bootFlight.entries.get? () with
      | none => exact .pure _
      | some operation => exact .bind (.changeLoop fun h => hL.cancelTask h operation) fun _ => .pure _
    exact (hf h).2
  | cancelGrammar language =>
    have hf : Blind R G (Service.act (.cancelGrammar language)) := .lookAtRest (fun _ _ _ => rfl) fun s => by
      cases s.grammarFlight.entries.get? language with
      | none => exact .pure _
      | some operation => exact .bind (.changeLoop fun h => hL.cancelTask h operation) fun _ => .pure _
    exact (hf h).2

/-- One move that does not give the task its turn. -/
theorem move (h : s.Alike R G s') (hgate : ∀ t, s'.gate? t = s.gate? t) {mv : Service.Move}
    (hturn : ∀ {i e}, mv = .serve i → s.loop.agenda[i]? = some e → e.woken? ≠ some c ∧
      ∀ p, e.LooksAt p → s'.loop.outcome? p = s.loop.outcome? p) :
    (s.move mv).Alike R G (s'.move mv) := by
  cases mv with
  | serve i =>
    have hagenda : (program.loop s').agenda[i]? = (program.loop s).agenda[i]? := by
      rw [show (program.loop s').agenda = (program.loop s).agenda from hL.agenda_eq h.loop]
    simp only [Service.move, Program.serveAt, hagenda]
    cases hi : (program.loop s).agenda[i]? with
    | none => exact h
    | some e =>
      obtain ⟨hc, hsee⟩ := hturn rfl hi
      exact serve hL (h.withLoop (hL.pick h.loop i)) hc fun hp => hsee _ hp
  | expire => exact h.withLoop (hL.expireDue h.loop)
  | act a => exact h.act hL hgate a
  | clock time =>
    have hnow : s'.loop.now = s.loop.now := by
      obtain ⟨_, _, he⟩ := hL.rest h.loop
      rw [he]
    show (s.setClock time).Alike R G (s'.setClock time)
    unfold setClock
    rw [hnow]
    split
    · exact h.withLoop (hL.withNow h.loop time)
    · exact h

end Alike

end Service

end SourceTrees
