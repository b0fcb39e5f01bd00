import SourceTrees.Proofs.Service.Foretold
import SourceTrees.Proofs.Service.HandingOver

/-!
# Calls that ask for a language

A call for the grammar, for the parser or for a parse in a language waits for the boot, if the engine is not
ready, then for the load, if no grammar is kept, and then does without waiting what is left to do, up to the
parser's job if it is a parse.

## Protocol

* The language has a locator, and code that is to be parsed is text or bytes.
* While a call waits for a shared operation it has changed nothing that the service has come to know.

## Results

* `Service.Asking` — where such a call rests that waits for a shared operation; `Service.Running` — where a
  parse rests from there on.
* `Service.Gets` — what the turn of such a call comes to.
* `Service.gets_start`, `Service.gets_resume` — its turns, as long as it meets no fault.
* `Service.resume_asking_error` — a fault of the operation is the fault of the call.
-/

set_option autoImplicit false

namespace SourceTrees.Service

open Loop

variable {s s' : Service} {roles : Roles Hook Job} {call : Call} {name : String} {came : Prop}
  {hook : Hook} {stage : Stage} {source : List UInt8} {crew : Crew}

/-- The call asks for the language, and is not refused. -/
inductive Asks (s : Service) (name : String) : Call → Prop
  | load (hv : s.validate (.str name) = .ok name) : Asks s name (.load (.str name))
  | getParser (hv : s.validate (.str name) = .ok name) : Asks s name (.getParser (.str name))
  | parse {code : Code} {source : List UInt8} (hv : s.validate (.str name) = .ok name)
      (hc : code.toSource = .ok source) : Asks s name (.parse code (.str name))

/-- Whether a language has a locator is a matter of the configuration. -/
theorem Asks.congr (h : Asks s name call) (hc : s'.config = s.config) : Asks s' name call := by
  have hv : ∀ {language x}, s.validate language = x → s'.validate language = x := fun h =>
    (Foreknown.validate_congr hc _).trans h
  cases h with
  | load h => exact .load (hv h)
  | getParser h => exact .getParser (hv h)
  | parse h hcode => exact .parse (hv h) hcode

/-- Where a call that asks for the language rests as long as it waits for a shared operation. -/
inductive Asking (name : String) : Call → Hook → Stage → Prop
  | load (point : GrammarStage) (hl : point.language = name) :
      Asking name (.load (.str name)) point.hook (.grammar point)
  | getParser (point : GrammarStage) (hl : point.language = name) :
      Asking name (.getParser (.str name)) point.hook (.parser (.grammar name point))
  | parse {code : Code} {source : List UInt8} (hc : code.toSource = .ok source) :
      Asking name (.parse code (.str name)) .boot (.parse .tree (.booting name source))
  | lease {code : Code} {source : List UInt8} (hc : code.toSource = .ok source) (crew : Crew)
      (point : GrammarStage) (hl : point.language = name) :
      Asking name (.parse code (.str name)) point.hook
        (.parse .tree (.leasing name source crew (.parser (.grammar name point))))

namespace Asking

theorem rest (h : Asking name call hook stage) : stage.rest = .shield hook := by cases h <;> rfl

theorem role (h : Asking name call hook stage) : stage.role = .call := by cases h <;> rfl

end Asking

/-- Where a parse rests that has the parser in the pool: it waits for the lock, for the parser's job, or for
    the copy of the tree. -/
inductive Running (name : String) : Call → Stage → Prop
  | queued {code : Code} {source : List UInt8} (hc : code.toSource = .ok source) (crew : Crew)
      (k : PromiseId) :
      Running name (.parse code (.str name)) (.parse .tree (.leasing name source crew (.lock name k)))
  | running {code : Code} {source : List UInt8} (hc : code.toSource = .ok source) (crew : Crew)
      (job : PromiseId) :
      Running name (.parse code (.str name)) (.parse .tree (.running name source crew job))
  | copying {code : Code} {source : List UInt8} (hc : code.toSource = .ok source) :
      Running name (.parse code (.str name)) (.parse .tree (.copying name))

/-- What the turn of a call comes to that asks for the language.  A parser is made only from a grammar that
    is kept, or that has just come. -/
inductive Gets (s : Service) (call : Call) (name : String) (came : Prop) :
    Turn Stage Reply → Service → Prop
  | boots {p : PromiseId} {point : Stage} {s' : Service} (h : Asking name call .boot point)
      (hp : s.phase ≠ .ready) (hs : Knows s s') (hpool : s'.pool = s.pool) :
      Gets s call name came (.rest p point) s'
  | loads {p : PromiseId} {point : Stage} {s' : Service} (h : Asking name call (.grammar name) point)
      (hs : Knows s s') (hpool : s'.pool = s.pool) : Gets s call name came (.rest p point) s'
  | engineless {f : Fault} {s' : Service} (he : s.engine? = .error f) (hs : Knows s s')
      (hpool : s'.pool = s.pool) (hg : (∃ g, Grammars.kept? s name = some g) ∨ came) :
      Gets s call name came (.finish (.error f)) s'
  | unbound {engine : String} {g : Grammar} {f : Fault} {s' : Service} (he : s.engine? = .ok engine)
      (hn : s.pool.contains name = false) (hg : Grammars.kept? s name = some g ∨ came)
      (hb : (Attempt.bindParser engine g).run s.world = (.error f, s'.world)) (hs : Knows s s')
      (hpool : s'.pool = s.pool) (hl : s'.loop = s.loop) :
      Gets s call name came (.finish (.error (Pool.raised name (s.config.locators.get? name) f))) s'
  | runs {p : PromiseId} {point : Stage} {s' : Service} (h : Running name call point)
      (ht : s'.loop.tasks = s.loop.tasks) (hc : s'.pool.contains name = true)
      (hj : ∀ j, point.grip = .job name j → s.loop.promises.size ≤ j) :
      Gets s call name came (.rest p point) s'
  | unmanned {s' : Service} (hd : s.workers.dismissed = true) :
      Gets s call name came (.finish (.error .poolClosed)) s'
  | done {r : Reply} {s' : Service} : Gets s call name came (.finish (.ok r)) s'

theorem Gets.mono {came' : Prop} {turn : Turn Stage Reply} (h : Gets s call name came turn s')
    (hc : came → came') : Gets s call name came' turn s' := by
  cases h with
  | boots h hp hs hpool => exact .boots h hp hs hpool
  | loads h hs hpool => exact .loads h hs hpool
  | engineless he hs hpool hg => exact .engineless he hs hpool (hg.imp_right hc)
  | unbound he hn hg hb hs hpool hl => exact .unbound he hn (hg.imp_right hc) hb hs hpool hl
  | runs h ht hc hj => exact .runs h ht hc hj
  | unmanned hd => exact .unmanned hd
  | done => exact .done

/-! ## Grammars -/

/-- What a request for a grammar comes to. -/
inductive Obtains (s : Service) (name : String) (came : Prop) : Turn GrammarStage Grammar → Service → Prop
  | boots {p : PromiseId} {s' : Service} (hp : s.phase ≠ .ready) (hs : Knows s s')
      (hpool : s'.pool = s.pool) : Obtains s name came (.rest p (.booting name)) s'
  | loads {p : PromiseId} {s' : Service} (hs : Knows s s') (hpool : s'.pool = s.pool) :
      Obtains s name came (.rest p (.loading name)) s'
  | here {g : Grammar} {s' : Service} (hg : Grammars.kept? s name = some g ∨ came) (hs : Knows s s')
      (hpool : s'.pool = s.pool) (hworld : s'.world = s.world) (hl : s'.loop = s.loop) :
      Obtains s name came (.finish (.ok g)) s'

/-- Joining a load, or starting one. -/
theorem obtains_attach : Obtains s name came
    (.rest (Grammars.attach name s).1 (.loading name)) (Grammars.attach name s).2 :=
  .loads ⟨rfl, rfl, rfl, rfl, rfl⟩ rfl

theorem obtains_request (hv : s.validate (.str name) = .ok name) :
    Obtains s name came (Grammars.request (.str name) s).1 (Grammars.request (.str name) s).2 := by
  cases hk : Grammars.kept? s name with
  | some g =>
    simp only [Grammars.request, Work.run_bind, Work.run_get, hv, hk]
    exact .here (.inl hk) (.counted s _) rfl rfl rfl
  | none =>
    obtain ⟨r, s₁, hb⟩ : ∃ r s₁, Boot.attach s = (r, s₁) := ⟨_, _, rfl⟩
    simp only [Grammars.request, Work.run_bind, Work.run_get, hv, hk, hb]
    cases r with
    | some p =>
      obtain ⟨hp, hs, hpool, -⟩ := knows_attachBoot hb
      exact .boots hp hs hpool
    | none =>
      have hs₁ : s₁ = s := by
        rw [attach_boot_eq] at hb
        split at hb <;> cases hb
        rfl
      subst hs₁
      exact obtains_attach

theorem obtains_resume {point : GrammarStage} (r : Reply) (hl : point.language = name)
    (hcame : point.hook = .grammar name → came) :
    Obtains s name came (Grammars.resume point (.ok r) s).1 (Grammars.resume point (.ok r) s).2 := by
  subst hl
  cases point with
  | booting language => exact obtains_attach
  | loading language => exact .here (.inr (hcame rfl)) (.refl s) rfl rfl rfl

/-! ## The parts of the calls -/

/-- A call for a grammar ends when the grammar has come. -/
theorem gets_load {f : Work (Turn GrammarStage Grammar)} (h : Obtains s name came (f s).1 (f s).2) :
    Gets s (.load (.str name)) name came
      ((do Calls.replying (← f) .grammar .grammar : Work (Turn Stage Reply)) s).1
      ((do Calls.replying (← f) .grammar .grammar : Work (Turn Stage Reply)) s).2 := by
  rw [Work.run_bind]
  generalize (f s).1 = turn, (f s).2 = s' at h
  cases h with
  | boots hp hs hpool => exact .boots (.load (.booting name) rfl) hp hs hpool
  | loads hs hpool => exact .loads (.load (.loading name) rfl) hs hpool
  | here hg hs hpool hworld hl => exact .done

/-- A parser that is in the pool is given out. -/
theorem gets_pooled : Gets s call name came
    (Calls.parserReply (.ok name) s').1 (Calls.parserReply (.ok name) s').2 := .done

/-- A call for a parser makes the parser when the grammar has come. -/
theorem gets_getParser {f : Work (Turn GrammarStage Grammar)} {s₁ : Service}
    (h : Obtains s₁ name came (f s₁).1 (f s₁).2) (hs₁ : Knows s s₁) (hpool₁ : s₁.pool = s.pool)
    (hworld₁ : s₁.world = s.world) (hl₁ : s₁.loop = s.loop) :
    Gets s (.getParser (.str name)) name came
      ((do
        Work.andThen (← Work.andThen (← f) (.grammar name) (Pool.grammarCame name)) .parser
          Calls.parserReply : Work (Turn Stage Reply)) s₁).1
      ((do
        Work.andThen (← Work.andThen (← f) (.grammar name) (Pool.grammarCame name)) .parser
          Calls.parserReply : Work (Turn Stage Reply)) s₁).2 := by
  simp only [Work.run_bind]
  generalize (f s₁).1 = turn, (f s₁).2 = s₂ at h
  cases h with
  | boots hp hs hpool =>
    exact .boots (.getParser (.booting name) rfl) (hs₁.phase ▸ hp) (hs₁.trans hs)
      (hpool.trans hpool₁)
  | loads hs hpool =>
    exact .loads (.getParser (.loading name) rfl) (hs₁.trans hs) (hpool.trans hpool₁)
  | @here g s₂ hg hs hpool hworld hl =>
    replace hs := hs₁.trans hs
    replace hpool := hpool.trans hpool₁
    replace hworld := hworld.trans hworld₁
    replace hl := hl.trans hl₁
    rw [hs₁.kept?] at hg
    simp only [Work.andThen]
    cases hc : s₂.pool.contains name with
    | true =>
      rw [grammarCame_pooled hc]
      exact gets_pooled
    | false =>
      rw [grammarCame_new hc]
      cases he : s₂.engine? with
      | error f =>
        rw [create_engineless he]
        exact .engineless (hs.engine? ▸ he) hs hpool (hg.imp_left fun hg => ⟨g, hg⟩)
      | ok engine =>
        obtain ⟨r, world, hb⟩ : ∃ r world, (Attempt.bindParser engine g).run s₂.world = (r, world) :=
          ⟨_, _, rfl⟩
        cases r with
        | ok parser =>
          rw [create_made he hb]
          exact gets_pooled
        | error f =>
          obtain ⟨log, h⟩ : ∃ log, Pool.create name g s₂ = (.finish (.error (Pool.raised name
              (s₂.config.locators.get? name) f)), { s₂ with world, log }) := create_unbound he hb
          have hlocator : s₂.config.locators.get? name = s.config.locators.get? name := by rw [hs.config]
          rw [h, hlocator]
          have hs' : Knows s { s₂ with world, log } := hs.trans ⟨rfl, rfl, rfl, rfl, rfl⟩
          have hgets : Gets s (.getParser (.str name)) name came _ { s₂ with world, log } :=
            .unbound (hs.engine? ▸ he) (hpool ▸ hc) hg (hworld ▸ hb) hs' hpool hl
          exact hgets

/-- A parse has its job run when the parser has come. -/
theorem gets_parse {code : Code} (hc : code.toSource = .ok source) {turn : Turn ParseStage Tree}
    (h : Borrows s name source came turn s') :
    Gets s (.parse code (.str name)) name came (replyTree turn) s' := by
  cases h with
  | leasing h =>
    cases h with
    | booting hn hk hp hs hpool hworld =>
      exact .boots (.lease hc _ (.booting name) rfl) hp hs hpool
    | loading hs hpool hworld => exact .loads (.lease hc _ (.loading name) rfl) hs hpool
    | queued hs hw ht hpooled hlent => exact .runs (.queued hc _ _) ht hpooled (by rintro j ⟨⟩)
  | denied h =>
    cases h with
    | engineless he hs hpool hg => exact .engineless he hs hpool hg
    | unbound he hn hg hb hs hpool hl => exact .unbound he hn hg hb hs hpool hl
  | refused hd => exact .unmanned hd
  | @running crew pooled s₁ h hp =>
    refine .runs (.running hc _ _) ?_ (contains_of_get? (Work.pool_handedIn ▸ hp)) (by rintro j ⟨⟩; rfl)
    show ((Work.handedIn s₁ crew (.parse pooled.parser source)).loop.shield s.loop.promises.size).2.tasks = _
    exact tasks_subscribe.trans (Work.tasks_handedIn.trans (congrArg Loop.tasks h.of_ok.2.2))

/-! ## The turns of the calls -/

/-- The call begins. -/
theorem gets_start (h : Asks s name call) (r : Reply) :
    Gets s call name came (Calls.resume (.start call) (.ok r) s).1
      (Calls.resume (.start call) (.ok r) s).2 := by
  cases h with
  | load hv => exact gets_load (obtains_request hv)
  | getParser hv =>
    have hstart : Calls.resume (.start (.getParser (.str name))) (.ok r) s =
        (do Work.andThen (← Pool.request (.str name)) .parser Calls.parserReply :
          Work (Turn Stage Reply)) s := rfl
    rw [hstart]
    cases hc : s.pool.contains name with
    | true =>
      have hr : Pool.request (.str name) s =
          (.finish (.ok name), { s with counts := s.counts.note .poolHit }) := by
        simp only [Pool.request, Work.run_bind, Work.run_get, hv, hc]
        rfl
      rw [Work.run_bind, hr]
      exact gets_pooled
    | false =>
      have hr : Pool.request (.str name) s =
          askGrammar name { s with counts := s.counts.note .poolMiss } := by
        simp only [Pool.request, Work.run_bind, Work.run_get, hv, hc]
        rfl
      have hv' : Service.validate { s with counts := s.counts.note .poolMiss } (.str name) = .ok name := hv
      rw [Work.run_bind, hr]
      exact gets_getParser (obtains_request hv') (.counted s _) rfl rfl rfl
  | parse hv hc =>
    rw [startParse_eq]
    rcases request_accepted hv hc with ⟨p, s', hr, hp, hs, hpool, -⟩ | ⟨-, hr⟩
    · rw [hr]
      exact .boots (.parse hc) hp hs hpool
    · rw [hr]
      exact gets_parse hc (borrows_borrow hv)

/-- The call goes on when the operation has ended well. -/
theorem gets_resume (h : Asking name call hook stage) (hv : s.validate (.str name) = .ok name) (r : Reply)
    (hcame : hook = .grammar name → came) (hgrip : stage.grip.Fits roles s.pool) :
    Gets s call name came (Calls.resume stage (.ok r) s).1 (Calls.resume stage (.ok r) s).2 := by
  cases h with
  | load point hl => exact gets_load (obtains_resume r hl hcame)
  | getParser point hl => exact gets_getParser (obtains_resume r hl hcame) (.refl s) rfl rfl rfl
  | parse hc =>
    rw [resumeParse_eq]
    exact gets_parse hc (borrows_borrow hv)
  | @lease code source hc crew point hl =>
    rw [resumeParse_eq]
    have hcoherent : (ParseStage.leasing name source crew (.parser (.grammar name point))).Coherent := ⟨hl, rfl⟩
    refine (gets_parse hc (borrows_resume r hcoherent hgrip)).mono ?_
    rintro ⟨_, _, he⟩
    cases he
    cases hl
    exact hcame rfl

/-- A parse whose ticket has been called has its job run. -/
theorem resume_queued {k : PromiseId} (r : Reply) (hc : s.pool.contains name = true)
    (hd : s.workers.dismissed = false) :
    ∃ p, (Parsing.resume (.leasing name source crew (.lock name k)) (.ok r) s).1 =
      .rest p (.running name source crew s.loop.promises.size) := by
  obtain ⟨pooled, hp⟩ := exists_pooled hc
  have htake : ∃ parser s₁, Pool.resumeLease (.lock name k) (.ok r) s = (.finish (.ok parser), s₁) ∧
      s₁.loop = s.loop ∧ s₁.workers = s.workers := by
    have hput : (s.pool.put name (Pool.withoutTicket pooled k)).get? name =
        some (Pool.withoutTicket pooled k) := (Keyed.get?_put ..).trans (if_pos rfl)
    rw [Pool.withdraw_ok hp, take_eq hput]
    exact ⟨_, _, rfl, rfl, rfl⟩
  obtain ⟨parser, s₁, htake, hl, hw⟩ := htake
  have hopen : ¬ (crew = .own ∧ s₁.workers.dismissed = true) := by
    rw [hw, hd]
    simp
  simp only [Parsing.resume, Work.run_bind, htake, Work.andThen, Parsing.leased, Work.submit_eq, if_neg hopen]
  rw [hl]
  exact ⟨_, rfl⟩

/-- The call ends with the fault of the operation. -/
theorem resume_asking_error (h : Asking name call hook stage) (f : Fault) :
    Calls.resume stage (.error f) s = (.finish (.error f), s) := by
  cases h with
  | load point hl => cases point <;> rfl
  | getParser point hl => cases point <;> rfl
  | parse hc => rfl
  | lease hc crew point hl => cases point <;> rfl

end SourceTrees.Service
