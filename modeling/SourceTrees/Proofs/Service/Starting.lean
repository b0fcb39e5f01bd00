import SourceTrees.Proofs.Service.Asking
import SourceTrees.Proofs.Service.HandingOver

/-!
# What a turn starts

Tasks are started by those who ask for a shared operation that is not at work.  A call that asks for a
language starts the boot or the load of that language and nothing else; the operations start nothing.

## Results

* `Service.Starts` — the tasks that have been started come to begin at stages of a kind.
* `Boot.starts_resume`, `Grammars.starts_resumeFetch` — the turns of operations.
* `Calls.starts_resume` — the turns of a call that asks for a language.
-/

set_option autoImplicit false

namespace SourceTrees

open Loop Service Work

variable {α : Type} {X : Stage → Prop} {s s' : Service}

namespace Service

/-- Whoever is there and has not been there before is to begin at a stage of the kind. -/
def Starts (X : Stage → Prop) (s s' : Service) : Prop :=
  ∀ t point on, s'.loop.place? t = some (point, on) →
    s.loop.place? t = some (point, on) ∨ on = none ∧ X point

namespace Starts

theorem of_tasks (h : s'.loop.tasks = s.loop.tasks) : Starts X s s' := fun t _ _ hp =>
  .inl ((place?_congr (t := t) h).symm.trans hp)

instance : IsPreorder Service (Starts X) where
  refl _ := of_tasks rfl
  trans _ _ _ h h' t point on hp := (h' t point on hp).elim (h t point on) .inr

end Starts

/-- The call asks for nothing but the language. -/
def Opens (name : String) (point : Stage) : Prop := point = .boot .start ∨ point = .fetch (.start name)

end Service

/-! ## Parts of turns -/

namespace Work

theorem starts_of_tasks {f : Work α} (h : ∀ s, (f s).2.loop.tasks = s.loop.tasks) : Within (Starts X) f :=
  fun s => .of_tasks (h s)

theorem starts_count (f : Counts → Counts) : Within (Starts X) (count f) := starts_of_tasks fun _ => rfl

theorem starts_log (line : LogLine) : Within (Starts X) (log line) := starts_of_tasks fun _ => rfl

theorem starts_modify {f : Service → Service} (h : ∀ s, (f s).loop = s.loop) :
    Within (Starts X) (modify f : Work Unit) := starts_of_tasks fun s => congrArg _ (h s)

theorem starts_attempt (a : Attempt α) : Within (Starts X) (attempt a) := starts_of_tasks fun _ => rfl

theorem starts_onLoop {f : Loop Reply Stage Hook → α × Loop Reply Stage Hook}
    (h : ∀ l : Loop Reply Stage Hook, (f l).2.tasks = l.tasks) : Within (Starts X) (onLoop f) :=
  starts_of_tasks fun s => h s.loop

theorem starts_changeLoop {f : Loop Reply Stage Hook → Loop Reply Stage Hook}
    (h : ∀ l : Loop Reply Stage Hook, (f l).tasks = l.tasks) : Within (Starts X) (changeLoop f) :=
  starts_of_tasks fun s => h s.loop

theorem starts_submit (crew : Crew) (job : Job) : Within (Starts X) (submit crew job) := by
  refine starts_of_tasks fun s => ?_
  rw [submit_eq]
  split
  · rfl
  · exact tasks_handedIn

end Work

/-- Who asks for an operation starts it at most. -/
theorem Flight.starts_attach {κ : Type} [DecidableEq κ] (f : Flight κ) (l : Loop Reply Stage Hook) (key : κ)
    (hook : Hook) {point : Stage} (h : X point) (t : PromiseId) (stage : Stage) (on : Option PromiseId)
    (hp : (f.attach l key point hook).2.2.place? t = some (stage, on)) :
    l.place? t = some (stage, on) ∨ on = none ∧ X stage := by
  cases hr : f.running? l key with
  | some op =>
    rw [attach_running hr, place?_shield] at hp
    exact .inl hp
  | none =>
    rw [attach_idle hr, place?_shield, place?_launch] at hp
    split at hp
    · cases hp
      exact .inr ⟨rfl, h⟩
    · exact .inl hp

/-! ## The operations -/

namespace Boot

theorem starts_attach (h : X (.boot .start)) : Within (Starts X) attach := by
  intro s
  rw [attach_boot_eq]
  split
  · exact Std.Refl.refl s
  · exact Flight.starts_attach _ _ _ _ h

theorem starts_failed (f : Fault) : Within (Starts X) (failed f) := by
  refine starts_of_tasks fun s => ?_
  rw [failed_eq]

theorem starts_attemptFailed (attempt : Nat) (f : Fault) : Within (Starts X) (attemptFailed attempt f) := by
  refine .bind .get fun _ => .ite ?_ (starts_failed f)
  exact .ite (.bind (starts_onLoop fun _ => rfl) fun _ => .restOn _ _) (.pure _)

theorem starts_beginAttempt (attempt : Nat) : Within (Starts X) (beginAttempt attempt) := by
  refine .bind (starts_count _) fun _ => .bind .get fun _ => .bind (starts_submit _ _) fun r => ?_
  cases r with
  | ok _ => exact .restOn _ _
  | error f => exact starts_attemptFailed attempt f

theorem starts_resume (point : BootStage) (given : Except Fault Reply) :
    Within (Starts X) (resume point given) := by
  cases point with
  | start =>
    cases given with
    | ok r =>
      exact .bind (starts_modify fun _ => rfl) fun _ => .bind (starts_count _) fun _ =>
        .bind .get fun _ => .bind (starts_log _) fun _ => starts_beginAttempt 1
    | error f => exact .fail f
  | importing attempt =>
    cases given with
    | ok r =>
      exact .bind .get fun _ => .bind (starts_modify fun _ => rfl) fun _ => .bind .get fun _ =>
        .bind (starts_log _) fun _ => .done _
    | error f => exact starts_attemptFailed attempt f
  | pausing attempt timer =>
    cases given with
    | ok r => exact starts_beginAttempt (attempt + 1)
    | error f =>
      cases timer with
      | none => exact starts_failed f
      | some p => exact .bind (starts_changeLoop fun _ => rfl) fun _ => starts_failed f

end Boot

namespace Grammars

theorem starts_fetchFailed (language locator : String) (f : Fault) :
    Within (Starts X) (fetchFailed language locator f) :=
  .ite (.bind (starts_count _) fun _ => .bind (starts_log _) fun _ => .fail _) (.fail f)

theorem starts_resumeFetch (point : FetchStage) (given : Except Fault Reply) :
    Within (Starts X) (resumeFetch point given) := by
  cases point with
  | start language =>
    cases given with
    | error f => exact .fail f
    | ok r =>
      refine .bind .get fun s => ?_
      cases kept? s language with
      | some g => exact .done g
      | none =>
        dsimp only
        cases s.engine? with
        | error f => exact .fail f
        | ok engine =>
          refine .bind (starts_submit _ _) fun r => ?_
          cases r with
          | ok _ => exact .restOn _ _
          | error f => exact starts_fetchFailed language _ f
  | fetching language locator =>
    cases given with
    | ok r =>
      exact .bind (starts_modify fun _ => rfl) fun _ => .bind (starts_count _) fun _ =>
        .bind (starts_log _) fun _ => .done _
    | error f => exact starts_fetchFailed language locator f

/-! ## Requests -/

variable {name : String}

theorem starts_attach (name : String) : Within (Starts (Opens name)) (attach name) := by
  intro s
  rw [attach_grammar_eq]
  exact Flight.starts_attach _ _ _ _ (.inr rfl)

theorem starts_request (name : String) : Within (Starts (Opens name)) (request (.str name)) := by
  refine .look fun s => ?_
  cases hv : s.validate (.str name) with
  | error f => exact Within.fail f s
  | ok language =>
    cases validate_eq_ok hv
    refine (?_ : Within (Starts (Opens name)) _) s
    dsimp only
    cases kept? s name with
    | some g => exact .bind (starts_count _) fun _ => .done g
    | none =>
      refine .bind (Boot.starts_attach (.inl rfl)) fun r => ?_
      cases r with
      | some p => exact .restOn _ _
      | none => exact .bind (starts_attach name) fun p => .restOn _ _

theorem starts_resume {point : GrammarStage} (hl : point.language = name) (given : Except Fault Reply) :
    Within (Starts (Opens name)) (resume point given) := by
  subst hl
  cases given with
  | error f => cases point <;> exact .fail f
  | ok r =>
    cases point with
    | booting language => exact .bind (starts_attach language) fun p => .restOn _ _
    | loading language => exact .done _

/-- Who has waited for the load starts nothing more. -/
theorem starts_loaded (language : String) (given : Except Fault Reply) :
    Within (Starts X) (resume (.loading language) given) := by
  cases given with
  | error f => exact .fail f
  | ok r => exact .done _

end Grammars

namespace Pool

variable {name : String}

theorem starts_grammarCame (language : String) (result : Except Fault Grammar) :
    Within (Starts X) (grammarCame language result) := by
  refine within_grammarCame (fun language g => ?_) language result
  refine .bind .get fun s => ?_
  cases s.engine? with
  | error f => exact .fail f
  | ok engine =>
    refine .bind (starts_attempt _) fun r => ?_
    cases r with
    | ok parser =>
      exact .bind (starts_modify fun _ => rfl) fun _ => .bind (starts_count _) fun _ => .done _
    | error f => exact .ite (.bind (starts_log _) fun _ => .bind .get fun _ => .fail _) (.fail f)

theorem starts_request (name : String) : Within (Starts (Opens name)) (request (.str name)) := by
  refine .look fun s => ?_
  cases hv : s.validate (.str name) with
  | error f => exact Within.fail f s
  | ok language =>
    cases validate_eq_ok hv
    refine (?_ : Within (Starts (Opens name)) _) s
    exact .ite (.bind (starts_count _) fun _ => .done _) (.bind (starts_count _) fun _ =>
      .bind (Grammars.starts_request name) fun _ => .andThen (starts_grammarCame name))

theorem starts_resume {point : GrammarStage} (hl : point.language = name) (given : Except Fault Reply) :
    Within (Starts (Opens name)) (resume (.grammar name point) given) :=
  .bind (Grammars.starts_resume hl given) fun _ => .andThen (starts_grammarCame name)

theorem starts_loaded (name language : String) (given : Except Fault Reply) :
    Within (Starts X) (resume (.grammar name (.loading language)) given) :=
  .bind (Grammars.starts_loaded language given) fun _ => .andThen (starts_grammarCame name)

theorem starts_take (language : String) : Within (Starts X) (take language) :=
  .bind (starts_modify fun _ => rfl) fun _ => .bind .get fun _ => .done _

theorem starts_acquire (result : Except Fault String) : Within (Starts X) (acquire result) := by
  cases result with
  | error f => exact .fail f
  | ok language =>
    exact .bind .get fun s => .ite (starts_take language) (.bind (starts_onLoop fun _ => rfl) fun _ =>
      .bind (starts_modify fun _ => rfl) fun _ => .restOn _ _)

theorem starts_callNext (language : String) : Within (Starts X) (callNext language) := by
  refine .bind .get fun s => ?_
  split
  · exact .pure _
  · exact starts_changeLoop fun _ => tasks_settle

theorem starts_release (language : String) : Within (Starts X) (release language) :=
  .bind (starts_modify fun _ => rfl) fun _ => starts_callNext language

theorem starts_withdraw (language : String) (ticket : PromiseId) (given : Except Fault Reply) :
    Within (Starts X) (resumeLease (.lock language ticket) given) := by
  refine .bind (starts_modify fun _ => rfl) fun _ => ?_
  cases given with
  | ok r => exact starts_take language
  | error f =>
    refine .bind .get fun s => ?_
    dsimp only
    split
    · exact .fail f
    · exact .bind (starts_callNext language) fun _ => .fail f

end Pool

namespace Parsing

variable {name : String}

theorem starts_leased (language : String) (source : List UInt8) (crew : Crew) (result : Except Fault Nat) :
    Within (Starts X) (leased language source crew result) := by
  cases result with
  | error f => exact .fail f
  | ok parser =>
    refine .bind (starts_submit _ _) fun r => ?_
    cases r with
    | error f => exact .bind (Pool.starts_release language) fun _ => .fail f
    | ok job => exact .bind (starts_onLoop fun _ => tasks_subscribe) fun _ => .restOn _ _

theorem starts_borrow (name : String) (source : List UInt8) :
    Within (Starts (Opens name)) (borrow name source) :=
  .bind .get fun _ => .bind (.bind (Pool.starts_request name) fun _ => .andThen Pool.starts_acquire)
    fun _ => .andThen (starts_leased name source _)

theorem starts_request (code : Code) (name : String) :
    Within (Starts (Opens name)) (request code (.str name)) := by
  refine .look fun s => ?_
  cases hv : s.validate (.str name) with
  | error f => exact Within.fail f s
  | ok language =>
    cases validate_eq_ok hv
    refine (?_ : Within (Starts (Opens name)) _) s
    cases code.toSource with
    | error f => exact .fail f
    | ok source =>
      refine .bind (Boot.starts_attach (.inl rfl)) fun r => ?_
      cases r with
      | some p => exact .restOn _ _
      | none => exact starts_borrow name source

theorem starts_drain (language : String) (job : PromiseId) (cancellation : Fault) :
    Within (Starts X) (drain language job cancellation) :=
  .bind .get fun _ => .ite (.bind (starts_onLoop fun _ => tasks_subscribe) fun _ => .restOn _ _)
    (.bind (Pool.starts_release language) fun _ => .fail _)

/-- A parse starts nothing once its job has been handed in. -/
theorem starts_running (language : String) (source : List UInt8) (crew : Crew) (job : PromiseId)
    (given : Except Fault Reply) : Within (Starts X) (resume (.running language source crew job) given) := by
  cases given with
  | ok r =>
    refine .bind (Pool.starts_release language) fun _ => ?_
    cases r.toEngineTree with
    | none => exact .bind (starts_count _) fun _ => .fail _
    | some root =>
      refine .bind (starts_submit _ _) fun r => ?_
      cases r with
      | ok p => exact .restOn _ _
      | error f => exact .fail f
  | error f =>
    refine .ite (starts_drain language job f) (.ite ?_ ?_)
    · exact .bind (starts_count _) fun _ => .bind (starts_log _) fun _ =>
        .bind (Pool.starts_release language) fun _ => .fail _
    · exact .bind (Pool.starts_release language) fun _ => .fail f

theorem starts_copying (language : String) (given : Except Fault Reply) :
    Within (Starts X) (resume (.copying language) given) := by
  cases given with
  | error f => exact .fail f
  | ok r =>
    cases r with
    | tree t => exact .bind (starts_count _) fun _ => .done t
    | _ => exact .fail _

end Parsing

/-! ## Calls -/

namespace Calls

variable {name : String} {call : Call} {hook : Hook} {stage : Stage}

theorem starts_replyTree {f : Work (Turn ParseStage Tree)} (h : Within (Starts X) f) :
    Within (Starts X) (do
      let turn ← f
      andThen (← andThen turn id (Tools.finish .tree)) (.parse .tree) (fun r => return .finish r) :
        Work (Turn Stage Reply)) := by
  intro s
  rw [replyTree_eq]
  exact h s

theorem starts_parserReply (result : Except Fault String) : Within (Starts X) (parserReply result) := by
  cases result with
  | error f => exact .fail f
  | ok language => exact .bind .get fun _ => .done _

/-- A call that asks for a language starts the boot or the load of the language at most. -/
theorem starts_start (h : Asks s name call) : Within (Starts (Opens name)) (start call) := by
  refine .bind .get fun s' => ?_
  cases h with
  | load hv => exact .bind (Grammars.starts_request name) fun _ => within_replying _ _ _
  | getParser hv => exact .bind (Pool.starts_request name) fun _ => .andThen starts_parserReply
  | parse hv hc => exact starts_replyTree (Parsing.starts_request _ name)

theorem starts_asking (h : Asking name call hook stage) (given : Except Fault Reply) :
    Within (Starts (Opens name)) (resume stage given) := by
  cases h with
  | load point hl => exact .bind (Grammars.starts_resume hl given) fun _ => within_replying _ _ _
  | getParser point hl => exact .bind (Pool.starts_resume hl given) fun _ => .andThen starts_parserReply
  | parse hc =>
    refine starts_replyTree ?_
    cases given with
    | error f => exact .fail f
    | ok r => exact Parsing.starts_borrow name _
  | lease hc crew point hl =>
    exact starts_replyTree (.bind (.bind (Pool.starts_resume hl given) fun _ => .andThen Pool.starts_acquire)
      fun _ => .andThen (Parsing.starts_leased name _ _))

/-- A call that has waited for the load starts nothing more. -/
theorem starts_loaded {language : String} (h : Asking name call (.grammar language) stage)
    (given : Except Fault Reply) : Within (Starts X) (resume stage given) := by
  generalize hk : Hook.grammar language = hook at h
  cases h with
  | load point hl =>
    cases point with
    | booting _ => cases hk
    | loading l => exact .bind (Grammars.starts_loaded l given) fun _ => within_replying _ _ _
  | getParser point hl =>
    cases point with
    | booting _ => cases hk
    | loading l => exact .bind (Pool.starts_loaded name l given) fun _ => .andThen starts_parserReply
  | parse hc => cases hk
  | lease hc crew point hl =>
    cases point with
    | booting _ => cases hk
    | loading l =>
      exact starts_replyTree (.bind (.bind (Pool.starts_loaded name l given) fun _ => .andThen
        Pool.starts_acquire) fun _ => .andThen (Parsing.starts_leased name _ _))

/-- A parse that has its parser starts nothing more. -/
theorem starts_runs (h : Running name call stage) (given : Except Fault Reply) :
    Within (Starts X) (resume stage given) := by
  cases h with
  | @queued code source hc crew k =>
    exact starts_replyTree (.bind (Pool.starts_withdraw name k given) fun _ =>
      .andThen (Parsing.starts_leased name source crew))
  | running hc crew job => exact starts_replyTree (Parsing.starts_running name _ crew job given)
  | copying hc => exact starts_replyTree (Parsing.starts_copying name given)

/-- An operation starts nothing. -/
theorem starts_operation {k : Hook} (h : stage.role = .operation k) (given : Except Fault Reply) :
    Within (Starts X) (resume stage given) := by
  cases stage with
  | boot point => exact .bind (Boot.starts_resume point given) fun _ => within_replying _ _ _
  | fetch point => exact .bind (Grammars.starts_resumeFetch point given) fun _ => within_replying _ _ _
  | _ => cases h

end Calls

end SourceTrees
