import SourceTrees.Proofs.Service.ParseCounts
import SourceTrees.Proofs.Service.Outcomes

/-!
# Languages that are accepted

A parse checks its language when it begins, and asks for the parser and the grammar of the language later,
where the language is checked again.  If there is a locator for it, no check refuses it, and nobody else says
of a language that it is not supported: what engines and grammars raise comes to the parse as a fault of
booting, loading or parsing, or not at all.

## Protocol

* A result is **accepting** if it is not the fault that a language is not supported.
* Nothing is assumed of the world: engine and grammars may raise any fault, and shared operations may be
  cancelled.

## Results

* `Work.Accepts` — the results of the turn are accepting, where the configuration is the given one; how such
  turns are put together.
* `Parsing.accepts_request`, `Parsing.accepts_resume` — the turns of a parse.
* `Service.Accepting.step` — what shared operations and copies come to.
-/

set_option autoImplicit false

namespace SourceTrees

open Work

variable {α β P Q : Type} {config : Config} {name : String} {given : Except Fault Reply}

/-- The result is not the fault that a language is not supported. -/
def Accepted (result : Except Fault α) : Prop := ∀ f, result = .error f → f.kind ≠ .unsupported

theorem Accepted.ok (a : α) : Accepted (.ok a : Except Fault α) := fun _ h => by cases h

theorem Accepted.error {f : Fault} (h : f.kind ≠ .unsupported) : Accepted (.error f : Except Fault α) := by
  rintro _ ⟨⟩
  exact h

theorem Accepted.reply {result : Except Fault α} (h : Accepted result) (f : α → Reply) :
    Accepted (Work.reply f result) := by
  cases result with
  | ok a => exact .ok _
  | error g => exact .error (h g rfl)

/-- The turn comes to a point of the kind, or to an accepting result. -/
def Turn.Accepts (K : P → Prop) : Turn P α → Prop
  | .rest _ point | .giveWay point => K point
  | .finish result => Accepted result

namespace Work

variable {K : P → Prop} {K' : Q → Prop}

/-- The turn does so in every service with the configuration. -/
def Accepts (config : Config) (K : P → Prop) (f : Work (Turn P α)) : Prop :=
  ∀ s : Service, s.config = config → (f s).1.Accepts K

/-- The configuration stays. -/
def SameConfig (s s' : Service) : Prop := s'.config = s.config

instance : IsPreorder Service SameConfig where
  refl _ := rfl
  trans _ _ _ h h' := h'.trans h

theorem sameConfig_of_remote {f : Work α} (h : Within Service.Remote f) : Within SameConfig f :=
  h.mono fun _ _ => (·.config)

namespace Accepts

theorem done (a : α) : Accepts config K (done a : Work (Turn P α)) := fun _ _ => .ok a

theorem fail {f : Fault} (h : f.kind ≠ .unsupported) : Accepts config K (fail f : Work (Turn P α)) :=
  fun _ _ => .error h

theorem restOn (p : PromiseId) {point : P} (h : K point) :
    Accepts config K (restOn p point : Work (Turn P α)) :=
  fun _ _ => h

theorem ite {b : Prop} [Decidable b] {f g : Work (Turn P α)} (hf : Accepts config K f)
    (hg : Accepts config K g) : Accepts config K (if b then f else g) := by
  split
  · exact hf
  · exact hg

theorem look {g : Service → Work (Turn P α)} (h : ∀ s, s.config = config → Accepts config K (g s)) :
    Accepts config K ((MonadState.get : Work Service) >>= g) :=
  fun s hs => h s hs s hs

theorem bind {f : Work β} {g : β → Work (Turn P α)} (hf : Within SameConfig f)
    (hg : ∀ b, Accepts config K (g b)) : Accepts config K (f >>= g) :=
  fun s hs => hg (f s).1 (f s).2 ((hf s).trans hs)

/-- A job is handed in, or there are no workers to do it. -/
theorem submit {crew : Crew} {job : Job} {g : Except Fault PromiseId → Work (Turn P α)}
    (h : ∀ p, Accepts config K (g (.ok p))) (hclosed : Accepts config K (g (.error .poolClosed))) :
    Accepts config K (submit crew job >>= g) := by
  intro s hs
  have hsame : (Work.submit crew job s).2.config = config :=
    (sameConfig_of_remote (remote_submit crew job) s).trans hs
  rw [run_bind]
  generalize hx : Work.submit crew job s = x at hsame
  rw [submit_eq] at hx
  split at hx <;> subst hx
  · exact hclosed _ hsame
  · exact h _ _ hsame

/-- A call made in turn, and what goes on from there. -/
theorem andThen {turn : Turn P α} {wrap : P → Q} {next : Except Fault α → Work (Turn Q β)}
    (h : turn.Accepts K) (hwrap : ∀ point, K point → K' (wrap point))
    (hnext : ∀ r, Accepted r → Accepts config K' (next r)) :
    Accepts config K' (andThen turn wrap next) := by
  cases turn with
  | rest p point | giveWay point => exact fun _ _ => hwrap point h
  | finish r => exact hnext r h

theorem call {f : Work (Turn P α)} {wrap : P → Q} {next : Except Fault α → Work (Turn Q β)}
    (hf : Within SameConfig f) (h : Accepts config K f) (hwrap : ∀ point, K point → K' (wrap point))
    (hnext : ∀ r, Accepted r → Accepts config K' (next r)) :
    Accepts config K' (f >>= fun turn => Work.andThen turn wrap next) :=
  fun s hs => andThen (h s hs) hwrap hnext (f s).2 ((hf s).trans hs)

end Accepts

end Work

/-- A language that has a locator is valid. -/
theorem Service.validate_of_hasLocator {s : Service} (hs : s.config = config)
    (h : config.hasLocator name = true) : s.validate (.str name) = .ok name := by
  subst hs
  exact if_pos h

theorem Service.accepted_engine? (s : Service) : Accepted s.engine? := fun f hf => by
  rw [engine?_eq_error hf]
  exact nofun

theorem Pool.keptWithin_sameConfig : KeptWithin SameConfig :=
  keptWithin_of_touched (fun h => h.config) fun h => h.config

/-! ## Shared operations -/

/-- What may not be caught does not say so. -/
theorem Fault.ne_unsupported_of_not_isOrdinary {f : Fault} (h : ¬ f.kind.isOrdinary = true) :
    f.kind ≠ .unsupported := fun hk => h (by rw [hk]; rfl)

namespace Boot

variable {K : BootStage → Prop}

theorem accepts_failed (f : Fault) : Accepts config K (failed f) := by
  refine .bind (fun _ => rfl) fun _ => .look fun s _ => ?_
  dsimp only
  split
  · rename_i hb
    exact .bind (fun _ => rfl) fun _ => .fail (by rw [hb]; exact nofun)
  · split
    · exact .bind (fun _ => rfl) fun _ => .bind (fun _ => rfl) fun _ => .fail nofun
    · rename_i ho
      exact .fail (Fault.ne_unsupported_of_not_isOrdinary ho)

theorem accepts_attemptFailed (attempt : Nat) (f : Fault) :
    Accepts config (fun _ => True) (attemptFailed attempt f) :=
  .look fun _ _ => .ite (.ite (.bind (fun _ => rfl) fun _ => .restOn _ trivial) fun _ _ => trivial)
    (accepts_failed f)

theorem accepts_beginAttempt (attempt : Nat) : Accepts config (fun _ => True) (beginAttempt attempt) :=
  .bind (fun _ => rfl) fun _ => .look fun _ _ =>
    .submit (fun _ => .restOn _ trivial) (accepts_attemptFailed attempt _)

/-- The turn of a boot that is not cancelled before it begins. -/
theorem accepts_resume (point : BootStage) (hg : point = .start → Accepted given) :
    Accepts config (fun _ => True) (resume point given) := by
  cases point with
  | start =>
    cases given with
    | ok r =>
      exact .bind (fun _ => rfl) fun _ => .bind (fun _ => rfl) fun _ => .look fun _ _ =>
        .bind (fun _ => rfl) fun _ => accepts_beginAttempt 1
    | error f => exact .fail (hg rfl f rfl)
  | importing attempt =>
    cases given with
    | ok r =>
      exact .look fun _ _ => .bind (fun _ => rfl) fun _ => .look fun _ _ => .bind (fun _ => rfl) fun _ =>
        .done _
    | error f => exact accepts_attemptFailed attempt f
  | pausing attempt timer =>
    cases given with
    | ok r => exact accepts_beginAttempt (attempt + 1)
    | error f =>
      cases timer with
      | none => exact accepts_failed f
      | some p => exact .bind (fun _ => rfl) fun _ => accepts_failed f

end Boot

namespace Grammars

theorem accepts_fetchFailed {K : FetchStage → Prop} (language locator : String) (f : Fault) :
    Accepts config K (fetchFailed language locator f) := by
  unfold fetchFailed
  split
  · exact .bind (fun _ => rfl) fun _ => .bind (fun _ => rfl) fun _ => .fail nofun
  · rename_i ho
    exact .fail (Fault.ne_unsupported_of_not_isOrdinary ho)

/-- The turn of a load that is not cancelled before it begins. -/
theorem accepts_resumeFetch (point : FetchStage) (hg : (∃ language, point = .start language) → Accepted given) :
    Accepts config (fun _ => True) (resumeFetch point given) := by
  cases point with
  | start language =>
    cases given with
    | error f => exact .fail (hg ⟨_, rfl⟩ f rfl)
    | ok r =>
      refine .look fun s _ => ?_
      cases kept? s language with
      | some g => exact .done g
      | none =>
        have hengine := s.accepted_engine?
        dsimp only
        generalize s.engine? = x at hengine
        cases x with
        | error f => exact .fail (hengine f rfl)
        | ok engine => exact .submit (fun _ => .restOn _ trivial) (accepts_fetchFailed language _ _)
  | fetching language locator =>
    cases given with
    | ok r =>
      exact .bind (fun _ => rfl) fun _ => .bind (fun _ => rfl) fun _ => .bind (fun _ => rfl) fun _ => .done _
    | error f => exact accepts_fetchFailed language locator f

/-! ## Requests -/

variable (hl : config.hasLocator name = true)

include hl in
theorem accepts_request : Accepts config (fun _ => True) (request (.str name)) := by
  refine .look fun s hs => ?_
  rw [Service.validate_of_hasLocator hs hl]
  dsimp only
  cases kept? s name with
  | some g => exact .bind (fun _ => rfl) fun _ => .done g
  | none =>
    refine .bind (sameConfig_of_remote Boot.remote_attach) fun r => ?_
    cases r with
    | some p => exact .restOn _ trivial
    | none => exact .bind (sameConfig_of_remote (remote_attach name)) fun _ => .restOn _ trivial

theorem accepts_resume (point : GrammarStage) (hg : Accepted given) :
    Accepts config (fun _ => True) (resume point given) := by
  cases given with
  | error f => cases point <;> exact .fail (hg f rfl)
  | ok r =>
    cases point with
    | booting language => exact .bind (sameConfig_of_remote (remote_attach language)) fun _ => .restOn _ trivial
    | loading language => exact .done _

end Grammars

namespace Pool

theorem accepts_create (g : Grammar) : Accepts config (fun _ => True) (create name g) := by
  refine .look fun s _ => ?_
  have hengine := s.accepted_engine?
  cases hs : s.engine? with
  | error f => exact .fail (hengine f hs)
  | ok engine =>
    refine .bind (fun _ => rfl) fun r => ?_
    cases r with
    | ok parser => exact .bind (fun _ => rfl) fun _ => .bind (fun _ => rfl) fun _ => .done _
    | error f =>
      dsimp only
      split
      · have hne : Fault.Kind.grammar ≠ .unsupported := by decide
        exact .bind (fun _ => rfl) fun _ => .look fun _ _ => .fail hne
      · rename_i ho
        exact .fail (Fault.ne_unsupported_of_not_isOrdinary ho)

theorem accepts_grammarCame {result : Except Fault Grammar} (hr : Accepted result) :
    Accepts config (fun _ => True) (grammarCame name result) := by
  cases result with
  | error f => exact .fail (hr f rfl)
  | ok g => exact .look fun _ _ => .ite (.done _) (accepts_create g)

theorem accepts_request (hl : config.hasLocator name = true) :
    Accepts config (fun _ => True) (request (.str name)) := by
  refine .look fun s hs => ?_
  rw [Service.validate_of_hasLocator hs hl]
  refine .ite (.bind (fun _ => rfl) fun _ => .done _) (.bind (fun _ => rfl) fun _ => ?_)
  exact .call (sameConfig_of_remote (Grammars.remote_request _)) (Grammars.accepts_request hl)
    (fun _ _ => trivial) fun _ => accepts_grammarCame

theorem accepts_resume (point : PoolStage) (hg : Accepted given) :
    Accepts config (fun _ => True) (resume point given) := by
  cases point with
  | grammar language point =>
    exact .call (sameConfig_of_remote (Grammars.remote_resume point given))
      (Grammars.accepts_resume point hg) (fun _ _ => trivial) fun _ => accepts_grammarCame

theorem accepts_acquire {result : Except Fault String} (hr : Accepted result) :
    Accepts config (fun _ => True) (acquire result) := by
  cases result with
  | error f => exact .fail (hr f rfl)
  | ok language =>
    refine .look fun s _ => .ite ?_ ?_
    · exact .bind (fun _ => rfl) fun _ => .look fun _ _ => .done _
    · exact .bind (fun _ => rfl) fun _ => .bind (fun _ => rfl) fun _ => .restOn _ trivial

theorem accepts_lease (hl : config.hasLocator name = true) :
    Accepts config (fun _ => True) (lease (.str name)) :=
  .call (keptWithin_sameConfig.request (fun _ _ => rfl) _) (accepts_request hl) (fun _ _ => trivial)
    fun _ => accepts_acquire

theorem accepts_resumeLease (point : LeaseStage) (hg : Accepted given) :
    Accepts config (fun _ => True) (resumeLease point given) := by
  cases point with
  | parser point =>
    exact .call (keptWithin_sameConfig.resume point given) (accepts_resume point hg) (fun _ _ => trivial)
      fun _ => accepts_acquire
  | lock language ticket =>
    refine .bind (fun _ => rfl) fun _ => ?_
    cases given with
    | ok r => exact .bind (fun _ => rfl) fun _ => .look fun _ _ => .done _
    | error f =>
      exact .look fun s _ => .ite (.fail (hg f rfl))
        (.bind (touched_callNext language |>.mono fun _ _ => (·.config)) fun _ => .fail (hg f rfl))

end Pool

/-! ## Parses -/

/-- A parse that has yet to ask for its parser is one of a language that has a locator. -/
def ParseStage.IsAccepted (config : Config) : ParseStage → Prop
  | .booting language _ => config.hasLocator language = true
  | point => point.IsSound

namespace Parsing

variable {source : List UInt8} {crew : Crew}

theorem accepts_drain (language : String) (job : PromiseId) {f : Fault} (hf : f.kind = .cancelled) :
    Accepts config (ParseStage.IsAccepted config) (drain language job f) := by
  refine .look fun s _ => .ite (.bind (fun _ => rfl) fun _ => .restOn _ hf) ?_
  exact .bind (Pool.keptWithin_sameConfig.release language) fun _ => .fail (by rw [hf]; exact nofun)

theorem accepts_leased {result : Except Fault Nat} (hr : Accepted result) :
    Accepts config (ParseStage.IsAccepted config) (leased name source crew result) := by
  cases result with
  | error f => exact .fail (hr f rfl)
  | ok parser =>
    refine .submit (fun job => ?_) (.bind (Pool.keptWithin_sameConfig.release name) fun _ => .fail nofun)
    exact .bind (fun _ => rfl) fun _ => .restOn _ trivial

theorem accepts_borrow (hl : config.hasLocator name = true) :
    Accepts config (ParseStage.IsAccepted config) (borrow name source) :=
  .look fun _ _ => .call (Pool.keptWithin_sameConfig.lease (fun _ _ => rfl) _) (Pool.accepts_lease hl)
    (fun _ _ => trivial) fun _ => accepts_leased

/-- The first turn of a parse. -/
theorem accepts_request (hl : config.hasLocator name = true) (code : Code) :
    Accepts config (ParseStage.IsAccepted config) (request code (.str name)) := by
  refine .look fun s hs => ?_
  rw [Service.validate_of_hasLocator hs hl]
  cases code with
  | other v => exact .fail nofun
  | text _ | bytes _ =>
    refine .bind (sameConfig_of_remote Boot.remote_attach) fun r => ?_
    cases r with
    | some p => exact .restOn _ hl
    | none => exact accepts_borrow hl

/-- A further turn.  What the parser raises comes out as a fault of parsing. -/
theorem accepts_resume {stage : ParseStage} (h : stage.IsAccepted config)
    (hg : (∀ language source crew job, stage ≠ .running language source crew job) → Accepted given) :
    Accepts config (ParseStage.IsAccepted config) (resume stage given) := by
  cases stage with
  | booting language source =>
    cases given with
    | ok r => exact accepts_borrow h
    | error f => exact .fail (hg nofun f rfl)
  | leasing language source crew point =>
    exact .call (Pool.keptWithin_sameConfig.resumeLease point given) (Pool.accepts_resumeLease point (hg nofun))
      (fun _ _ => trivial) fun _ => accepts_leased
  | running language source crew job =>
    cases given with
    | ok r =>
      refine .bind (Pool.keptWithin_sameConfig.release language) fun _ => ?_
      cases r.toEngineTree with
      | some root => exact .submit (fun _ => .restOn _ trivial) (.fail nofun)
      | none => exact .bind (fun _ => rfl) fun _ => .fail nofun
    | error f =>
      dsimp only [resume]
      split
      · rename_i hf
        exact accepts_drain language job hf
      · split
        · exact .bind (fun _ => rfl) fun _ => .bind (fun _ => rfl) fun _ =>
            .bind (Pool.keptWithin_sameConfig.release language) fun _ => .fail nofun
        · rename_i ho
          exact .bind (Pool.keptWithin_sameConfig.release language) fun _ =>
            .fail (Fault.ne_unsupported_of_not_isOrdinary ho)
  | draining language job waiter cancellation =>
    exact .bind (fun _ => rfl) fun _ => accepts_drain language job h
  | copying language =>
    cases given with
    | error f => exact .fail (hg nofun f rfl)
    | ok r =>
      cases r with
      | tree t => exact .bind (fun _ => rfl) fun _ => .done t
      | _ => exact .fail nofun

end Parsing

namespace Calls

/-- The turn of a shared operation. -/
theorem accepts_operation {stage : Stage} (hr : stage.role ≠ .call)
    (hg : stage.rest = .nothing → Accepted given) : Accepts config (fun _ => True) (resume stage given) := by
  have hreply : ∀ {γ : Type} {f : γ → Reply} (r : Except Fault γ), Accepted r →
      Accepts config (fun _ : Stage => True) (conclude (reply f r)) := fun r h _ _ => h.reply _
  cases stage with
  | boot point =>
    refine .call (sameConfig_of_remote (Boot.remote_resume point given)) (Boot.accepts_resume point ?_)
      (fun _ _ => trivial) hreply
    rintro rfl
    exact hg rfl
  | fetch point =>
    refine .call (sameConfig_of_remote (Grammars.remote_resumeFetch point given))
      (Grammars.accepts_resumeFetch point ?_) (fun _ _ => trivial) hreply
    rintro ⟨language, rfl⟩
    exact hg rfl
  | _ => exact absurd rfl hr

end Calls

/-! ## What is waited for -/

/-- What is waited for is up to the service: it is no engine's job, and nothing that is settled from
    outside. -/
def Rest.isInner : Rest → Bool
  | nothing | shield _ | ticket .. | drained .. | copyJob => true
  | _ => false

theorem ParseStage.isInner_rest {point : ParseStage}
    (h : ∀ language source crew job, point ≠ .running language source crew job) :
    point.rest.isInner = true := by
  cases point with
  | leasing language source crew point => cases point <;> rfl
  | running language source crew job => exact absurd rfl (h language source crew job)
  | _ => rfl

/-- What a promise of the role is settled with.  Copies are trees. -/
def Role.Accepts : Role Hook Job → Settled Reply → Prop
  | .operation _, o | .ticket _, o | .waiter _, o => Accepted o.result
  | .job (.copy ..), o => o = .cancelled ∨ ∃ t, o = .value (.tree t)
  | _, _ => True

/-- A copy is a tree. -/
def Job.Copies : Job → Except Fault Reply → Prop
  | .copy .., x => ∃ t, x = .ok (.tree t)
  | _, _ => True

theorem accepted_cancellation : Accepted (.error .cancellation : Except Fault α) := .error nofun

theorem accepted_ended {result : Except Fault Reply} (h : Accepted result) :
    Accepted (Program.ended result).result := by
  cases result with
  | ok v => exact .ok v
  | error f =>
    unfold Program.ended
    dsimp only
    split
    · exact accepted_cancellation
    · exact h

namespace Service

open Loop

variable {s s' : Service} {roles roles' : Roles Hook Job} {w : Woken} {m : Midst} {mv : Service.Move}
  {turn : Turn Stage Reply}

theorem sure_copies : Sure (fun w : World => [] <+: w.pointers) fun _ => Job.Copies where
  kept := ⟨_, _, Attempt.keptByWork_pointers []⟩
  lasting _ := id
  run job w _ := by
    cases job with
    | copy language source root => exact ⟨_, rfl⟩
    | _ => trivial

/-- Promises are settled accordingly. -/
structure Accepting (s : Service) (roles : Roles Hook Job) : Prop where
  delivers : Delivers (fun _ => Job.Copies) s roles
  settled : ∀ {p o}, s.loop.outcome? p = some o → (roles p).Accepts o

namespace Accepting

theorem opened (config : Config) (world : World) (eager : Bool) (stuck : Option Fault)
    (log : List LogLine) : Accepting (Service.opened config world eager stuck log) fun _ => .unused :=
  ⟨.opened .., fun _ => trivial⟩

/-- What a step settles that is no task. -/
theorem settles (h : Accepting s roles) (ho : AtRest s roles) (hst : Step s roles mv s' roles')
    {p : PromiseId} {o : Settled Reply} (hs : s.Settles roles' mv p o) : (roles' p).Accepts o := by
  obtain ⟨_, hext⟩ := ho.step hst
  rcases hs with (⟨hr, _⟩ | ⟨hr, rfl⟩ | ⟨hr, _, _⟩ | ⟨hr, _⟩ | ⟨hm, rfl⟩) | ⟨hr, rfl⟩ | ⟨hr, _⟩ |
    ⟨hplace, _, rfl⟩
  case errand.signalled | called =>
    rw [hr]
    exact .ok _
  case errand.delivered =>
    obtain ⟨job, hj⟩ := ho.sound.assigned.delivered hm
    rw [hext.eq hj (by simp)]
    cases job with
    | copy language source root =>
      obtain ⟨t, rfl⟩ := h.delivers.delivered hm hj
      exact .inr ⟨t, rfl⟩
    | _ => trivial
  case cancelled =>
    unfold Role.Accepts
    split
    · exact accepted_cancellation
    · exact accepted_cancellation
    · exact accepted_cancellation
    · exact .inl rfl
    · trivial
  all_goals
    rw [hr]
    trivial

/-- **Every step keeps it.** -/
theorem step (h : Accepting s roles) (ho : AtRest s roles) (hst : Step s roles mv s' roles') :
    Accepting s' roles' := by
  obtain ⟨_, hext⟩ := ho.step hst
  refine ⟨h.delivers.step sure_copies ho hst List.nil_prefix, fun {p o} hout => ?_⟩
  have hkept : ∀ {now : Roles Hook Job}, Extends roles now → s.loop.outcome? p = some o →
      (now p).Accepts o := by
    intro now hext hout
    have hold := h.settled hout
    rwa [← hext p (ho.sound.assigned.role_ne_unused (outcome?_lt hout))] at hold
  cases htask : (roles' p).isTask with
  | false =>
    rcases hst.outcome?_cases ho htask hout with hout | hs
    · exact hkept hext hout
    · exact h.settles ho hst hs
  | true =>
    cases hr : roles' p with
    | operation k =>
      rw [← hr]
      rcases hst.aside_or_turn ho with ha | ⟨w, m, turn, ht, rfl, rfl⟩
      · obtain ⟨_, _, he⟩ := ha.outcome?_operation ho hst hr
        exact hkept hext (he.symm.trans hout)
      · rcases ht.outcome?_operation hr hout with hout | ⟨rfl, result, rfl, rfl, _⟩
        · rw [Strides.outcome?_eq ht.started ht.strides (by simp [hr])] at hout
          obtain ⟨i, hb⟩ := ht.before
          have hout' : w.before.loop.outcome? p = some o := hout
          rw [hb] at hout'
          exact hkept ht.extends hout'
        · have hrole : w.stage.role = .operation k := by rw [← ht.inTurn.unfinished.1, hr]
          have hturn : (Calls.resume w.stage w.given w.before).1.Accepts fun _ => True :=
            Calls.accepts_operation (by rw [hrole]; exact nofun) (fun hrest => ?_) w.before rfl
          · rw [ht.resumed] at hturn
            rw [hr]
            exact accepted_ended hturn
          · rcases ht.given_of_nothing hrest with hg | hg <;> rw [hg]
            · exact .ok _
            · exact accepted_cancellation
    | call => trivial
    | _ =>
      rw [hr] at htask
      cases htask

/-- What a task meets that waits for something that is up to the service. -/
theorem accepted_given (h : Accepting s roles) (ho : AtRest s roles) (ht : HasTurn s roles w m turn)
    (hrest : w.stage.rest.isInner = true) : Accepted w.given := by
  obtain ⟨task, given, _, _, hplaced, hgives, hmet⟩ := ht.woken
  have hfits := hplaced.rest
  suffices hgiven : Accepted given by
    intro f hf
    rcases Program.met_eq_error (hmet.symm.trans hf) with ⟨rfl, _⟩ | rfl
    · exact nofun
    · exact hgiven f rfl
  unfold Loop.Gives at hgives
  generalize w.stage.rest = rest at hrest hfits
  cases rest with
  | nothing =>
    rw [show task.restsOn = none from hfits] at hgives
    rw [hgives]
    exact .ok _
  | shield hook =>
    obtain ⟨p, op, hon, hshield, hop⟩ := hfits
    rw [hon] at hgives
    obtain ⟨o, hout, rfl⟩ := hgives
    rcases ho.sound.assigned.taken hshield hout with rfl | hend
    · exact accepted_cancellation
    · have hwell := h.settled hend
      rwa [hop] at hwell
  | ticket language k =>
    obtain ⟨hon, hticket⟩ := hfits
    rw [hon] at hgives
    obtain ⟨o, hout, rfl⟩ := hgives
    have hwell := h.settled hout
    rwa [hticket] at hwell
  | drained job waiter =>
    obtain ⟨hon, hwaiter, _⟩ := hfits
    rw [hon] at hgives
    obtain ⟨o, hout, rfl⟩ := hgives
    have hwell := h.settled hout
    rwa [hwaiter] at hwell
  | copyJob =>
    obtain ⟨p, language, source, root, hon, hjob⟩ := hfits
    rw [hon] at hgives
    obtain ⟨o, hout, rfl⟩ := hgives
    have hwell := h.settled hout
    rw [hjob] at hwell
    rcases hwell with rfl | ⟨t, rfl⟩
    · exact accepted_cancellation
    · exact .ok _
  | _ => cases hrest

end Accepting

end Service

end SourceTrees
