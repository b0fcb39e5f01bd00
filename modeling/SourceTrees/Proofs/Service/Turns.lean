import SourceTrees.Proofs.Service.Leads

/-!
# The turns of shared operations and of requests

What every part of a turn does, as strides: the boot, the load of a grammar, and the requests for
grammars, parsers and leases.

## Results

* `Service.leads_attachBoot`, `Service.leads_attachLoad`, `Service.leads_submit` — joining or starting a
  shared operation, and handing in a job.
* `Service.leads_boot`, `Service.leads_fetch` — the shared operations.
* `Service.leads_request`, `Service.leads_resume`, `Service.leads_lease`, … — the requests.
-/

set_option autoImplicit false

namespace SourceTrees.Service

open Loop

variable {w : Woken} {m m' : Midst}

/-! ## Jobs and shared operations -/

/-- A job is handed in, or there are no workers to do it. -/
theorem leads_submit (crew : Crew) {job : Job} {grip grip' : Grip} (hg : m.grip = grip)
    (hs : Submits w m.service grip job grip') :
    Leads w m (Work.submit crew job m.service) fun r m' =>
      match r with
      | .ok p => p = m.service.loop.promises.size ∧ m'.grip = grip' ∧ m'.roles p = .job job ∧
          w.before.loop.promises.size ≤ p ∧ p < m'.service.loop.promises.size
      | .error f => f = .poolClosed ∧ m' = m ∧ m.service.workers.dismissed = true := by
  rw [Work.submit_eq]
  split
  · rename_i hc
    exact .pure ⟨rfl, rfl, hc.2⟩
  · rename_i hc
    subst hg
    refine .of_inTurn fun ht => .stride (.submitted crew hc hs) (.pure ?_)
    refine ⟨rfl, rfl, Function.update_self .., ht.base_le, ?_⟩
    show m.service.loop.promises.size < (Work.handedIn m.service crew job).loop.promises.size
    rw [Work.size_handedIn]
    exact Nat.lt_succ_self _

theorem attach_boot_eq (s : Service) : Boot.attach s =
    if s.phase = .ready then (none, s)
    else
      let (p, bootFlight, loop) := s.bootFlight.attach s.loop () (.boot .start) .boot
      (some p, { s with bootFlight, loop }) := by
  unfold Boot.attach
  by_cases hp : s.phase = .ready <;>
    simp [hp]

/-- The task can rest on a new shield of an operation. -/
theorem rested_shield (ht : InTurn w m) {hook : Hook} {op : PromiseId}
    (hop : m.roles op = .operation hook) (hg : m'.grip = m.grip)
    (hr : m'.roles = Function.update m.roles m.service.loop.promises.size (.shield op))
    (hl : m'.service.loop = (m.service.loop.shield op).2) :
    Rested w m' m.service.loop.promises.size (.shield hook) m.grip := by
  refine ⟨⟨_, op, rfl, ?_, ?_⟩, hg, ht.base_le, ?_⟩
  · rw [hr]
    exact Function.update_self ..
  · rw [hr]
    exact ht.ordered.sound.assigned.update_eq hop (by simp)
  · rw [hl, Loop.shield, size_subscribe, size_promise]
    exact Nat.lt_succ_self _

/-- The task can rest on the first shield of a new operation. -/
theorem rested_launch (ht : InTurn w m) {hook : Hook} {κ : Type} [DecidableEq κ] {f : Flight κ}
    {key : κ} {point : Stage} (hg : m'.grip = m.grip)
    (hr : m'.roles = Function.update
      (Function.update m.roles m.service.loop.promises.size (.operation hook))
      (m.service.loop.promises.size + 1) (.shield m.service.loop.promises.size))
    (hl : m'.service.loop = ((f.launch m.service.loop key point hook).2.2.shield
      m.service.loop.promises.size).2) :
    Rested w m' (m.service.loop.promises.size + 1) (.shield hook) m.grip := by
  refine ⟨⟨_, m.service.loop.promises.size, rfl, ?_, ?_⟩, hg, Nat.le_succ_of_le ht.base_le, ?_⟩
  · rw [hr]
    exact Function.update_self ..
  · rw [hr, Function.update_of_ne (Nat.ne_of_lt (Nat.lt_succ_self m.service.loop.promises.size)),
      Function.update_self]
  · rw [hl, Loop.shield, size_subscribe, size_promise, Flight.size_launch]
    exact Nat.lt_succ_self _

theorem leads_attachBoot :
    Leads w m (Boot.attach m.service) fun r m' =>
      match r with
      | none => m' = m ∧ m.service.phase = .ready
      | some p => Rested w m' p (.shield .boot) m.grip := by
  rw [attach_boot_eq]
  split
  · rename_i hp
    exact .pure ⟨rfl, hp⟩
  · rename_i hp
    refine .of_inTurn fun ht => ?_
    cases hr : m.service.bootFlight.running? m.service.loop () with
    | some op =>
      rw [Flight.attach_running hr]
      refine .stride (.bootJoined hp hr) (.pure ?_)
      exact rested_shield ht (ht.ordered.boot.running?_iff.1 hr).1 rfl rfl rfl
    | none =>
      rw [Flight.attach_idle hr]
      exact .stride (.bootLaunched hp hr) (.pure (rested_launch ht rfl rfl rfl))

theorem attach_grammar_eq (language : String) (s : Service) : Grammars.attach language s =
    ((s.grammarFlight.attach s.loop language (.fetch (.start language)) (.grammar language)).1,
      { s with
        grammarFlight :=
          (s.grammarFlight.attach s.loop language (.fetch (.start language)) (.grammar language)).2.1
        loop :=
          (s.grammarFlight.attach s.loop language (.fetch (.start language)) (.grammar language)).2.2 }) :=
  rfl

theorem leads_attachLoad (language : String) (hs : w.SeesReady m.service) :
    Leads w m (Grammars.attach language m.service) fun p m' =>
      Rested w m' p (.shield (.grammar language)) m.grip := by
  refine .of_inTurn fun ht => ?_
  rw [attach_grammar_eq]
  cases hr : m.service.grammarFlight.running? m.service.loop language with
  | some op =>
    rw [Flight.attach_running hr]
    refine .stride (.loadJoined language hs hr) (.pure ?_)
    exact rested_shield ht (ht.ordered.load.running?_iff.1 hr).1 rfl rfl rfl
  | none =>
    rw [Flight.attach_idle hr]
    exact .stride (.loadLaunched language hs hr) (.pure (rested_launch ht rfl rfl rfl))

/-! ## The boot -/

/-- The turn of a boot ends. -/
def BootEnds (w : Woken) : Turn BootStage Unit → Midst → Prop
  | .rest on point, m => Rested w m on (Stage.boot point).rest (Stage.boot point).grip
  | .giveWay point, m => m.grip = (Stage.boot point).grip ∧ (Stage.boot point).rest = .nothing
  | .finish result, m => m.grip = .ended (Work.reply (fun _ => .nothing) result) ∧
      ∀ f, result = .error f → f.kind = .boot ∨ w.Fails f

theorem failed_eq (f : Fault) (s : Service) : Boot.failed f s =
    (.finish (.error (Boot.raised s.config.engineModule f)),
      { s with
        phase := .uninitialized
        counts := s.counts.bootFailed f
        log := if f.kind ≠ .boot ∧ f.kind.isOrdinary = true then s.log ++ [.error
          ("Failed to boot parsing engine '" ++ s.config.engineModule ++ "': " ++ f.message)]
          else s.log }) := by
  unfold Boot.failed Boot.raised Counts.bootFailed
  by_cases hb : f.kind = .boot
  · have ho : f.kind.isOrdinary = true := by rw [hb]; rfl
    rw [if_pos ho]
    simp [hb, Work.count, Work.fail]
    rfl
  · cases f.kind.isOrdinary <;>
      simp [hb, Work.count, Work.log, Work.fail]

theorem leads_failed {f : Fault} (hf : w.given = .error f ∨ f = .poolClosed) (hg : m.grip = .boot) :
    Leads w m (Boot.failed f m.service) (BootEnds w) := by
  have hfault : (Boot.raised m.service.config.engineModule f).kind = .boot ∨
      w.Fails (Boot.raised m.service.config.engineModule f) := by
    cases ho : f.kind.isOrdinary with
    | true => exact .inl (Boot.kind_raised ho)
    | false =>
      rw [Boot.raised_of_extraordinary ho]
      refine .inr ⟨hf.resolve_right ?_, .inl ho⟩
      rintro rfl
      cases ho
  rw [failed_eq]
  refine .stride (.bootFailed hf hg) ?_
  split
  · exact .stride (.logged _) (.pure ⟨rfl, fun g hg' => by cases hg'; exact hfault⟩)
  · exact .pure ⟨rfl, fun g hg' => by cases hg'; exact hfault⟩

theorem leads_attemptFailed (attempt : Nat) {f : Fault}
    (hf : w.given = .error f ∨ f = .poolClosed) (hg : m.grip = .boot) :
    Leads w m (Boot.attemptFailed attempt f m.service) (BootEnds w) := by
  unfold Boot.attemptFailed
  refine .bind (.pure ?_)
  dsimp only
  split
  · split
    · refine .bind (.of_inTurn fun ht => .stride (.bootTimed _ hg) (.pure (.pure ?_)))
      refine ⟨⟨rfl, Function.update_self ..⟩, hg, ht.base_le, ?_⟩
      show _ < (m.service.loop.timer _).2.promises.size
      exact Nat.lt_of_lt_of_eq (Nat.lt_succ_self _) size_promise.symm
    · exact .pure ⟨hg, rfl⟩
  · exact leads_failed hf hg

theorem leads_beginAttempt (attempt : Nat) (hg : m.grip = .boot) :
    Leads w m (Boot.beginAttempt attempt m.service) (BootEnds w) := by
  unfold Boot.beginAttempt
  refine .bind (.stride (.bootTried hg) (.pure (.bind (.pure (.bind ?_)))))
  refine .mono (leads_submit _ (by exact hg) .boot) fun r m' hr => ?_
  cases r with
  | ok p =>
    obtain ⟨_, hg', hrole, hle, hlt⟩ := hr
    exact .pure ⟨⟨p, _, rfl, hrole⟩, hg', hle, hlt⟩
  | error f =>
    obtain ⟨rfl, rfl, _⟩ := hr
    exact leads_attemptFailed attempt (.inr rfl) hg

theorem leads_startBoot (hs : w.stage = .boot .start) (hg : m.grip = .free) :
    Leads w m (Boot.start m.service) (BootEnds w) := by
  unfold Boot.start
  refine .stride (.bootBegun hs hg) ?_
  refine .stride (.logged (.info ("Booting parsing engine '" ++ m.service.config.engineModule ++
    "'..."))) ?_
  exact leads_beginAttempt 1 rfl

theorem leads_succeeded {attempt : Nat} {r : Reply} (hs : w.stage = .boot (.importing attempt))
    (hr : w.given = .ok r) (hg : m.grip = .boot) :
    Leads w m (Boot.succeeded m.service) (BootEnds w) := by
  unfold Boot.succeeded
  refine .stride (.bootReady hs hr hg) ?_
  refine .stride (.logged (.info ("Parsing engine '" ++ m.service.config.engineModule ++
    "' ready (language ABI " ++ m.service.world.versionText m.service.config.engineModule ++ ")"))) ?_
  exact .pure ⟨rfl, fun _ h => by cases h⟩

/-- A turn of the boot. -/
theorem leads_boot {point : BootStage} (hs : w.stage = .boot point)
    (hg : m.grip = (Stage.boot point).grip) :
    Leads w m (Boot.resume point w.given m.service) (BootEnds w) := by
  cases point with
  | start =>
    cases hr : w.given with
    | ok r => exact leads_startBoot hs hg
    | error f =>
      refine .stride (.bootAbandoned hs hr hg) (.pure ⟨rfl, fun g hg' => ?_⟩)
      cases hg'
      exact .inr ⟨hr, .inr (by rw [hs]; rfl)⟩
  | importing attempt =>
    cases hr : w.given with
    | ok r => exact leads_succeeded hs hr hg
    | error f => exact leads_attemptFailed attempt (.inl hr) hg
  | pausing attempt timer =>
    cases hr : w.given with
    | ok r => exact leads_beginAttempt (attempt + 1) hg
    | error f =>
      cases timer with
      | some p => exact .stride (.timerDropped p hs) (leads_failed (.inl hr) hg)
      | none => exact leads_failed (.inl hr) hg

/-! ## Loads -/

/-- The turn of a load ends. -/
def FetchEnds (w : Woken) : Turn FetchStage Grammar → Midst → Prop :=
  Halts
    (fun on point m => Rested w m on (Stage.fetch point).rest (Stage.fetch point).grip ∧
      (Stage.fetch point).role = w.stage.role)
    fun result m => m.grip = .ended (Work.reply .grammar result) ∧
      ∀ f, result = .error f → f.kind.isDeclared = true ∨ w.Fails f

theorem leads_fetchFailed {language locator : String} {f : Fault}
    (hs : w.stage = .fetch (.fetching language locator) ∧ w.given = .error f ∧
        m.grip = .fetch language ∨
      w.stage = .fetch (.start language) ∧ f = .poolClosed ∧ m.grip = .free) :
    Leads w m (Grammars.fetchFailed language locator f m.service) (FetchEnds w) := by
  unfold Grammars.fetchFailed
  have hst := Stride.fetchFailed hs
  unfold Counts.loadFailed Grammars.raised at hst
  cases ho : f.kind.isOrdinary with
  | true =>
    rw [ho] at hst
    refine .stride hst (.stride (.logged (.error ("Failed to load grammar for " ++ language ++
      " from " ++ locator ++ ": " ++ f.message))) (.pure ⟨rfl, fun g hg => ?_⟩))
    cases hg
    exact .inl rfl
  | false =>
    rw [ho] at hst
    refine .stride hst (.pure ⟨rfl, fun g hg => ?_⟩)
    cases hg
    rcases hs with ⟨_, hr, _⟩ | ⟨_, rfl, _⟩
    · exact .inr ⟨hr, .inl ho⟩
    · cases ho

/-- Without an engine there is a fault of booting. -/
theorem engine?_eq_error {s : Service} {f : Fault} (h : s.engine? = .error f) : f.kind = .boot := by
  unfold engine? at h
  split at h
  · cases h
  · cases h
    rfl

theorem leads_startFetch {language : String} (hs : w.stage = .fetch (.start language))
    (hg : m.grip = .free) : Leads w m (Grammars.startFetch language m.service) (FetchEnds w) := by
  unfold Grammars.startFetch
  refine .bind (.pure ?_)
  cases hk : Grammars.kept? m.service language with
  | some g => exact .stride (.fetchKept hs hk hg) (.pure ⟨rfl, fun _ h => by cases h⟩)
  | none =>
    dsimp only
    cases he : m.service.engine? with
    | error f =>
      refine .stride (.fetchRefused hs he hg) (.pure ⟨rfl, fun g hg' => ?_⟩)
      cases hg'
      rw [engine?_eq_error he]
      exact .inl rfl
    | ok engine =>
      refine .bind (.mono (leads_submit _ hg (.fetch hs hk he)) fun r m' hr => ?_)
      cases r with
      | ok p =>
        obtain ⟨_, hg', hrole, hle, hlt⟩ := hr
        exact .pure ⟨⟨⟨p, _, rfl, hrole⟩, hg', hle, hlt⟩, by rw [hs]; rfl⟩
      | error f =>
        obtain ⟨rfl, rfl, _⟩ := hr
        exact leads_fetchFailed (.inr ⟨hs, rfl, hg⟩)

/-- A turn of a load. -/
theorem leads_fetch {point : FetchStage} (hs : w.stage = .fetch point)
    (hg : m.grip = (Stage.fetch point).grip) :
    Leads w m (Grammars.resumeFetch point w.given m.service) (FetchEnds w) := by
  cases point with
  | start language =>
    cases hr : w.given with
    | ok r => exact leads_startFetch hs hg
    | error f =>
      refine .stride (.fetchAbandoned hs hr hg) (.pure ⟨rfl, fun g hg' => ?_⟩)
      cases hg'
      exact .inr ⟨hr, .inr (by rw [hs]; rfl)⟩
  | fetching language locator =>
    cases hr : w.given with
    | ok r =>
      refine .stride (.fetched hs hr hg) (.stride (.logged (.info
        ("Grammar loaded for language: " ++ language))) (.pure ⟨rfl, fun _ h => by cases h⟩))
    | error f => exact leads_fetchFailed (.inl ⟨hs, hr, hg⟩)

/-! ## Requests for grammars -/

theorem validate_eq_ok {s : Service} {language : Json} {name : String}
    (h : s.validate language = .ok name) : language = .str name := by
  unfold validate at h
  split at h
  · split at h
    · cases h
      rfl
    · cases h
  · cases h

theorem validate_eq_error {s : Service} {language : Json} {f : Fault}
    (h : s.validate language = .error f) : f.kind = .unsupported := by
  unfold validate at h
  split at h
  · split at h
    · cases h
    · cases h
      rfl
  · cases h
    rfl

/-- A request for the grammar of a language has come to rest, or finished. -/
def GrammarEnds (w : Woken) (language : Json) : Turn GrammarStage Grammar → Midst → Prop :=
  Halts
    (fun on point m => Rested w m on (.shield point.hook) .free ∧ language = .str point.language)
    fun result m => m.grip = .free ∧
      (∀ g, result = .ok g → ∃ name, language = .str name ∧ w.SeesGrammar m.service name g) ∧
      ∀ f, result = .error f → w.Blames f

theorem leads_request (language : Json) (hg : m.grip = .free) :
    Leads w m (Grammars.request language m.service) (GrammarEnds w language) := by
  unfold Grammars.request
  refine .bind (.pure ?_)
  dsimp only
  cases hv : m.service.validate language with
  | error f =>
    refine .pure ⟨hg, (fun _ h => by cases h), fun g hg' => ?_⟩
    cases hg'
    exact .own (by rw [validate_eq_error hv]; rfl)
  | ok name =>
    have hname := validate_eq_ok hv
    dsimp only
    cases hk : Grammars.kept? m.service name with
    | some g =>
      refine .bind (.count .grammarHit (fun _ => rfl) (.pure ⟨hg, fun g' hg' => ?_, fun _ h => by cases h⟩))
      cases hg'
      exact ⟨name, hname, .inl hk⟩
    | none =>
      refine .bind (leads_attachBoot.mono fun r m' hr => ?_)
      cases r with
      | some p => exact .pure ⟨hg ▸ hr, hname⟩
      | none =>
        obtain ⟨rfl, hp⟩ := hr
        exact .bind ((leads_attachLoad name (.inl hp)).mono fun p m' hr => .pure ⟨hg ▸ hr, hname⟩)

theorem leads_resume {point : GrammarStage} (hs : w.stage.rest = .shield point.hook)
    (hg : m.grip = .free) :
    Leads w m (Grammars.resume point w.given m.service) (GrammarEnds w (.str point.language)) := by
  cases hr : w.given with
  | error f => cases point <;> exact .pure ⟨hg, (fun _ h => by cases h), fun g hg' => by cases hg'; exact .met hr⟩
  | ok r =>
    cases point with
    | booting language =>
      exact .bind ((leads_attachLoad language (.inr ⟨hs, r, hr⟩)).mono fun p m' hr =>
        .pure ⟨hg ▸ hr, rfl⟩)
    | loading language =>
      refine .pure ⟨hg, fun g hg' => ⟨language, rfl, .inr ⟨hs, r, hr, ?_⟩⟩, fun _ h => by cases h⟩
      cases hg'
      rfl

/-! ## Requests for parsers -/

/-- A request for the parser of a language has come to rest, or finished. -/
def PoolEnds (w : Woken) (language : Json) : Turn PoolStage String → Midst → Prop :=
  Halts
    (fun on point m => Rested w m on (.shield point.hook) .free ∧ point.Coherent ∧
      language = .str point.language)
    fun result m => m.grip = .free ∧
      (∀ name, result = .ok name → language = .str name ∧ m.service.pool.contains name = true) ∧
      ∀ f, result = .error f → w.Blames f

theorem attempt_eq {α : Type} {a : Attempt α} {s : Service} {r : Except Fault α} {world : World}
    (h : a.run s.world = (r, world)) : Work.attempt a s = (r, { s with world }) := by
  show ((a.run s.world).1, ({ s with world := (a.run s.world).2 } : Service)) = _
  rw [h]

theorem leads_create {language : String} {g : Grammar} (hk : w.SeesGrammar m.service language g)
    (hn : m.service.pool.contains language = false) (hg : m.grip = .free) :
    Leads w m (Pool.create language g m.service) (PoolEnds w (.str language)) := by
  unfold Pool.create
  refine .bind (.pure ?_)
  dsimp only
  cases he : m.service.engine? with
  | error f =>
    refine .pure ⟨hg, by simp, fun g hg' => ?_⟩
    cases hg'
    exact .own (by rw [engine?_eq_error he]; rfl)
  | ok engine =>
    dsimp only
    obtain ⟨r, world, hb⟩ : ∃ r world,
        (Attempt.bindParser engine g).run m.service.world = (r, world) := ⟨_, _, rfl⟩
    cases r with
    | ok parser =>
      refine .after (attempt_eq hb) (.stride (.parserMade hn he hb hk) (.pure ⟨hg, fun name hname => ?_,
        by simp⟩))
      cases hname
      exact ⟨rfl, by simp⟩
    | error f =>
      refine .of_reached fun hr => .after (attempt_eq hb) (.stride (.parserFailed hb) ?_)
      dsimp only
      split
      · refine .stride (.logged (.error ("Failed to create parser for language " ++ language ++ ": " ++
          f.message))) (.pure ⟨hg, by simp, fun g hg' => ?_⟩)
        cases hg'
        exact .own rfl
      · rename_i ho
        refine .pure ⟨hg, by simp, fun g hg' => ?_⟩
        cases hg'
        exact .making hr (by rw [hb]) (by simpa using ho)

/-- What a request for a language has seen is the grammar of that language. -/
theorem sees_str {name : String} {result : Except Fault Grammar}
    (h : ∀ g, result = .ok g → ∃ name', Json.str name = .str name' ∧ w.SeesGrammar m.service name' g)
    (g : Grammar) (hg : result = .ok g) : w.SeesGrammar m.service name g := by
  obtain ⟨name', hn, hs⟩ := h g hg
  cases hn
  exact hs

theorem leads_grammarCame {language : String} {result : Except Fault Grammar} (hg : m.grip = .free)
    (hk : ∀ g, result = .ok g → w.SeesGrammar m.service language g)
    (hf : ∀ f, result = .error f → w.Blames f) :
    Leads w m (Pool.grammarCame language result m.service) (PoolEnds w (.str language)) := by
  unfold Pool.grammarCame
  cases result with
  | error f => exact .pure ⟨hg, (fun _ h => by cases h), fun g hg' => by cases hg'; exact hf f rfl⟩
  | ok g =>
    refine .bind (.pure ?_)
    cases hc : m.service.pool.contains language with
    | true =>
      refine .pure ⟨hg, fun name hn => ?_, fun _ h => by cases h⟩
      cases hn
      exact ⟨rfl, hc⟩
    | false => exact leads_create (hk g rfl) hc hg

theorem leads_requestParser (language : Json) (hg : m.grip = .free) :
    Leads w m (Pool.request language m.service) (PoolEnds w language) := by
  unfold Pool.request
  refine .bind (.pure ?_)
  dsimp only
  cases hv : m.service.validate language with
  | error f =>
    refine .pure ⟨hg, (fun _ h => by cases h), fun g hg' => ?_⟩
    cases hg'
    exact .own (by rw [validate_eq_error hv]; rfl)
  | ok name =>
    have hname := validate_eq_ok hv
    dsimp only
    cases hc : m.service.pool.contains name with
    | true =>
      refine .bind (.count .poolHit (fun _ => rfl) (.pure ⟨hg, fun l hl => ?_, fun _ h => by cases h⟩))
      cases hl
      exact ⟨hname, hc⟩
    | false =>
      refine .bind (.count .poolMiss (fun _ => rfl) (.call (leads_request language hg)
        (fun on point m' hr => ⟨hr.1, ?_, hname⟩) fun result m' hg' => ?_))
      · exact Json.str.inj (hr.2.symm.trans hname)
      · rw [hname] at hg' ⊢
        exact leads_grammarCame hg'.1 (sees_str hg'.2.1) hg'.2.2

theorem leads_resumeParser {point : PoolStage} (hs : w.stage.rest = .shield point.hook)
    (hc : point.Coherent) (hg : m.grip = .free) :
    Leads w m (Pool.resume point w.given m.service) (PoolEnds w (.str point.language)) := by
  cases point with
  | grammar language point =>
    refine .call (leads_resume hs hg) (fun on point' m' hr => ⟨hr.1, ?_, rfl⟩)
      fun result m' hg' => leads_grammarCame hg'.1 ?_ hg'.2.2
    · exact (Json.str.inj hr.2).symm.trans hc
    · rw [show point.language = language from hc] at hg'
      exact sees_str hg'.2.1

end SourceTrees.Service
