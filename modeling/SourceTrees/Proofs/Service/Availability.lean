import SourceTrees.Proofs.Engine.Probing
import SourceTrees.Proofs.Service.Transparent

/-!
# What is reported unavailable cannot be loaded

Before anything is loaded a service can look which grammars are there.  Where imports are fixed it is right:
a language that it reports unavailable has no grammar at any time, and every request for one that is made
while the engine is ready ends with a fault of loading.

## Protocol

* Every module goes on importing as it does; nothing else is assumed of the world.  Any fault may come of
  imports, pointers and compilers, interrupts included.
* The probe may be made at any time, in any world with the same imports.
* Anything is called and cancelled in the run, provided that nobody but callers is, and the service may be
  closed.

## Results

* `Service.Readied` — in any world at all the engine is ready once and for all.
* `Service.Barren` — in a run nothing comes of the loads of a language that cannot be fetched.
* `Service.ProbeAgrees` — the law of a probe and of a run.
* **`Service.probe_agrees`** — it holds where imports are fixed.
-/

set_option autoImplicit false

namespace SourceTrees

open Loop

/-- Fetching from the locator fails, with a fault that may be caught. -/
def Job.Refuses (locator : String) : Job → Except Fault Reply → Prop
  | grammar _ from_, x => from_ = locator → ∃ f, x = .error f ∧ f.kind.isOrdinary = true
  | _, _ => True

/-- A fault that may be caught is reported as the cause why the grammar could not be loaded. -/
theorem Grammars.raised_of_isOrdinary {f : Fault} (h : f.kind.isOrdinary = true)
    (language locator : String) : raised language locator f = .unloadable language locator f := if_pos h

/-- A task that has a boot in its hands is the boot. -/
theorem Stage.role_of_boot {stage : Stage} (h : stage.grip = .boot) : stage.role = .operation .boot := by
  rcases stage with _ | _ | ⟨_ | _⟩ | _ | _ | _ | ⟨_, _ | _⟩ | _ |
    ⟨_, _ | ⟨_, _, _, _ | _⟩ | _ | _ | _⟩ | _ | _
  case boot => rfl
  all_goals simp [grip, LeaseStage.grip, ParseStage.grip] at h

namespace Service

variable {s s' : Service} {roles roles' : Roles Hook Job} {w : Woken} {m m' : Midst} {mv : Service.Move}
  {ms : List Service.Move} {t c : PromiseId} {turn : Turn Stage Reply} {language locator : String}
  {hook : Hook}

/-! ## Once ready, always ready -/

/-- The engine is ready and stays so to the end of the turn: the task has no boot in its hands, and is not
    about to begin one. -/
structure ReadyInTurn (w : Woken) (m : Midst) : Prop where
  phase : m.service.phase = .ready
  engine : m.service.engine.isSome = true
  grip : m.grip ≠ .boot
  stage : w.stage ≠ .boot .start

namespace ReadyInTurn

theorem stride (h : ReadyInTurn w m) (hst : Stride w m m') : ReadyInTurn w m' := by
  have hgrip := h.grip
  cases hst with
  | @submitted crew job grip hc hg =>
    obtain ⟨_, hp, he, _, _⟩ := @Work.known_handedIn m.service crew job
    refine ⟨hp.trans h.phase, (congrArg Option.isSome he).trans h.engine, ?_, h.stage⟩
    generalize m.grip = before at hg hgrip
    cases hg with
    | boot => exact absurd rfl hgrip
    | copy language source root => exact hgrip
    | _ => exact nofun
  | dismissed =>
    obtain ⟨_, hp, he, _, _⟩ := Work.known_dismiss (s := m.service)
    exact ⟨hp.trans h.phase, (congrArg Option.isSome he).trans h.engine, hgrip, h.stage⟩
  | bootBegun hs hg => exact absurd hs h.stage
  | bootFailed hf hg => exact absurd hg hgrip
  | bootReady hs hr hg => exact absurd hg hgrip
  | withdrawn hs hg hp =>
    refine ⟨h.phase, h.engine, ?_, h.stage⟩
    cases w.given <;> exact nofun
  | bootAbandoned | fetchKept | fetchRefused | fetchAbandoned | fetched | fetchFailed | taken | admitted
  | drawn | released => exact ⟨h.phase, h.engine, nofun, h.stage⟩
  | _ => exact ⟨h.phase, h.engine, hgrip, h.stage⟩

theorem strides (h : ReadyInTurn w m) (hst : Strides w m m') : ReadyInTurn w m' := by
  induction hst with
  | refl => exact h
  | tail _ hstep ih => exact ih.stride hstep

/-- The engine has been ready from the beginning of the turn, or it comes to be ready when its import has
    succeeded. -/
theorem of_strides (h : m.service.phase = .ready → ReadyInTurn w m) (hst : Strides w m m')
    (hr : m'.service.phase = .ready) : ReadyInTurn w m' := by
  induction hst with
  | refl => exact h hr
  | @tail m₁ m₂ _ hstep ih =>
    by_cases hp : m₁.service.phase = .ready
    · exact (ih hp).stride hstep
    · cases hstep with
      | bootReady hs hgiven hg =>
        refine ⟨rfl, rfl, nofun, fun he => ?_⟩
        rw [hs] at he
        cases he
      | submitted crew hc hg => exact absurd (Work.known_handedIn.2.1.symm.trans hr) hp
      | dismissed => exact absurd (Work.known_dismiss.2.1.symm.trans hr) hp
      | bootBegun hs hg => cases hr
      | bootFailed hf hg => cases hr
      | _ => exact absurd hr hp

/-- Where the engine is ready no boot is started. -/
theorem role_boot (h : ReadyInTurn w m) (ht : InTurn w m) (hst : Strides w m m')
    (hr : m'.roles t = .operation .boot) : m.roles t = .operation .boot := by
  induction hst with
  | refl => exact hr
  | tail hst hstep ih =>
    rcases hstep.boot_cases (ht.strides hst) with ⟨_, _, hne, _⟩ | hsame
    · exact absurd (h.strides hst).phase hne
    · exact ih ((hsame t).1 hr)

end ReadyInTurn

/-- A load is started in the course of a turn only where the task has seen that the engine is ready. -/
theorem Strides.seesReady (ht : InTurn w m) (hst : Strides w m m')
    (hr : m'.roles t = .operation (.grammar language)) :
    m.roles t = .operation (.grammar language) ∨
      ∃ m₁, Strides w m m₁ ∧ Strides w m₁ m' ∧ w.SeesReady m₁.service := by
  induction hst with
  | refl => exact .inl hr
  | @tail m₁ m₂ hst hstep ih =>
    rcases hstep.operation_cases (ht.strides hst) with
      ⟨hook, _, _, hall, _, _, _, _, _, hsees⟩ | hold
    · rcases hall t _ hr with ⟨rfl, rfl⟩ | hr
      · exact .inr ⟨m₁, hst, .single hstep, hsees⟩
      · exact (ih hr).imp_right fun ⟨m₀, hst₀, hst₁, h⟩ => ⟨m₀, hst₀, hst₁.tail hstep, h⟩
    · exact (ih (hold t _ hr)).imp_right fun ⟨m₀, hst₀, hst₁, h⟩ => ⟨m₀, hst₀, hst₁.tail hstep, h⟩

/-- A boot that ends well leaves the engine ready. -/
theorem phase_resumeBoot {point : BootStage} {given : Except Fault Reply} {u : Unit}
    (h : (Boot.resume point given s).1 = .finish (.ok u)) :
    (Boot.resume point given s).2.phase = .ready := by
  have hfailed : ∀ (attempt : Nat) (f : Fault) (s : Service),
      (Boot.attemptFailed attempt f s).1 ≠ .finish (.ok u) := by
    intro attempt f s he
    rw [attemptFailed_eq, failed_eq] at he
    split at he
    · split at he <;> cases he
    · cases he
  have hbegin : ∀ (attempt : Nat) (s : Service), (Boot.beginAttempt attempt s).1 ≠ .finish (.ok u) := by
    intro attempt s he
    simp only [Boot.beginAttempt, Work.count, Work.run_bind, Work.run_modify, Work.run_get] at he
    generalize Work.submit _ _ _ = x at he
    obtain ⟨f | p, s'⟩ := x
    · exact hfailed attempt f s' he
    · cases he
  cases point with
  | start =>
    cases given with
    | ok r => exact absurd h (hbegin _ _)
    | error f => cases h
  | importing attempt =>
    cases given with
    | ok r => rfl
    | error f => exact absurd h (hfailed _ _ _)
  | pausing attempt timer =>
    cases given with
    | ok r => exact absurd h (hbegin _ _)
    | error f =>
      exfalso
      cases timer with
      | none =>
        change (Boot.failed f s).1 = _ at h
        rw [failed_eq] at h
        cases h
      | some p =>
        change (Boot.failed f { s with loop := s.loop.dropTimer p }).1 = _ at h
        rw [failed_eq] at h
        cases h

/-- Once the engine is ready it stays so: no boot is unfinished.  A boot that has ended well has left it
    ready, and loads are begun only then. -/
structure Readied (s : Service) (roles : Roles Hook Job) : Prop where
  engine : s.phase = .ready → s.engine.isSome = true
  idle : s.phase = .ready → ∀ {t}, roles t = .operation .boot → s.loop.isPending t = false
  booted : ∀ {t v}, roles t = .operation .boot → s.loop.outcome? t = some (.value v) → s.phase = .ready
  begun : ∀ {t language}, roles t = .operation (.grammar language) → s.phase = .ready

namespace Readied

theorem opened (config : Config) (world : World) (eager : Bool) (stuck : Option Fault)
    (log : List LogLine) : Readied (Service.opened config world eager stuck log) fun _ => .unused := by
  refine ⟨fun h => ?_, fun h => ?_, fun h => ?_, fun h => ?_⟩
  · simp at h
  · simp at h
  · cases h
  · cases h

/-- A ready engine is there. -/
theorem exists_engine? (h : Readied s roles) (hr : s.phase = .ready) : ∃ engine, s.engine? = .ok engine := by
  obtain ⟨engine, he⟩ := Option.isSome_iff_exists.1 (h.engine hr)
  exact ⟨engine, by rw [engine?, hr, he]⟩

/-- Where the engine is ready no boot has its turn. -/
theorem inTurn (h : Readied s roles) (ht : HasTurn s roles w m turn) (hr : s.phase = .ready) :
    ReadyInTurn w ⟨w.before, roles, w.stage.grip⟩ := by
  obtain ⟨i, hb⟩ := ht.before
  obtain ⟨hrole, hpend⟩ := ht.started.unfinished
  have hnot : w.stage.role ≠ .operation .boot := by
    intro he
    have hpend' : w.before.loop.isPending w.task = true := hpend
    rw [hb] at hpend'
    exact absurd ((h.idle hr (hrole.trans he)).symm.trans hpend') (by decide)
  refine ⟨?_, ?_, fun he => hnot (Stage.role_of_boot he), fun he => hnot (by rw [he]; rfl)⟩
  · rw [hb]
    exact hr
  · rw [hb]
    exact h.engine hr

/-- What is pending after the turn, a boot, has been so before, the engine not being ready. -/
theorem idle_turn (h : Readied s roles) (ho : AtRest s roles) (ht : HasTurn s roles w m turn)
    (hready : m.service.phase = .ready) (hr : m.roles t = .operation .boot) :
    (Program.conclude w.task turn m.service.loop).isPending t = false := by
  rw [Bool.eq_false_iff]
  intro hp
  have hpend : m.service.loop.isPending t = true := by
    by_contra hne
    rw [(Later.conclude w.task turn).isPending_eq_false
      (ht.inTurn.ordered.sound.assigned.lt_size (by simp [hr])) (by simpa using hne)] at hp
    cases hp
  by_cases hbefore : s.phase = .ready
  · -- It was a boot before the turn, and those had ended.
    have hr' : roles t = .operation .boot := (h.inTurn ht hbefore).role_boot ht.started ht.strides hr
    rcases isPending_or_settled (ho.sound.assigned.lt_size (p := t) (by simp [hr'])) with hp' | ⟨o, hout⟩
    · exact absurd ((h.idle hbefore hr').symm.trans hp') (by decide)
    · rw [isPending_of_outcome? (ht.outcome?_of_some hout)] at hp
      cases hp
  · -- The boot that has its turn is the only one, and ends.
    obtain ⟨i, hb⟩ := ht.before
    rcases Strides.ready_cases ht.strides hready with hnow | ⟨attempt, r, hs, hgiven⟩
    · rw [hb] at hnow
      exact absurd hnow hbefore
    obtain ⟨hrole, hopen⟩ := ht.inTurn.unfinished
    rw [hs] at hrole
    obtain rfl := ht.inTurn.ordered.boot_unique hr hpend hrole hopen
    have hturn := congrArg Prod.fst ht.resumed
    rw [hs, hgiven] at hturn
    obtain rfl : Turn.finish (.ok .nothing) = turn := hturn
    rw [isPending_of_outcome? (outcome?_finish hopen _)] at hp
    cases hp

theorem of_turn (h : Readied s roles) (ho : AtRest s roles) (ht : HasTurn s roles w m turn) :
    Readied (m.after w.task turn) m.roles := by
  obtain ⟨i, hb⟩ := ht.before
  have hbefore : w.before.phase = s.phase := by rw [hb]
  have hstay : s.phase = .ready → ReadyInTurn w m := fun hr => (h.inTurn ht hr).strides ht.strides
  have hstart : w.before.phase = .ready → ReadyInTurn w ⟨w.before, roles, w.stage.grip⟩ := fun hr =>
    h.inTurn ht (hbefore.symm.trans hr)
  refine ⟨fun hr => (ReadyInTurn.of_strides hstart ht.strides hr).engine,
    fun hready _ hr => h.idle_turn ho ht hready hr, fun {t v} hr hout => ?_, fun {t language} hr => ?_⟩
  · obtain ⟨hr', hold | ⟨rfl, result, rfl, he⟩⟩ := ht.ended_cases ho hr hout
    · exact (hstay (h.booted hr' hold)).phase
    · cases Program.ended_eq_value.1 he.symm
      obtain ⟨point, hs⟩ := Stage.exists_of_role_boot (ht.started.unfinished.1.symm.trans hr')
      have hres := ht.resumed
      rw [hs] at hres
      change Calls.replying (Boot.resume point w.given w.before).1 Stage.boot (fun _ => Reply.nothing)
        (Boot.resume point w.given w.before).2 = _ at hres
      have hready := @phase_resumeBoot w.before point w.given
      generalize Boot.resume point w.given w.before = x at hres hready
      obtain ⟨turn', s'⟩ := x
      cases turn' with
      | rest on point => cases hres
      | giveWay point => cases hres
      | finish result =>
        cases result with
        | error f => cases hres
        | ok u =>
          obtain ⟨_, rfl⟩ := Prod.mk.inj hres
          exact hready rfl
  · rcases Strides.seesReady ht.started ht.strides hr with hr' | ⟨m₁, hst₀, hst₁, hp | ⟨hs, r, hgiven⟩⟩
    · exact (hstay (h.begun hr')).phase
    · exact ((ReadyInTurn.of_strides hstart hst₀ hp).strides hst₁).phase
    · obtain ⟨op, hop, hout⟩ := ht.started.shielded hs hgiven
      have hout' : w.before.loop.outcome? op = some (.value r) := hout
      rw [hb] at hout'
      exact (hstay (h.booted hop hout')).phase

/-- Every step keeps it, whatever the world is like. -/
theorem step (h : Readied s roles) (ho : AtRest s roles) (hst : Step s roles mv s' roles') :
    Readied s' roles' := by
  rcases hst.aside_or_turn ho with ha | ⟨w, m, turn, ht, rfl, rfl⟩
  · have hsame : ∀ {t k}, roles' t = .operation k → roles t = .operation k ∧
        s'.loop.isPending t = s.loop.isPending t ∧ s'.loop.outcome? t = s.loop.outcome? t :=
      fun hr => ha.outcome?_operation ho hst hr
    refine ⟨fun hp => ?_, fun hp _ hr => ?_, fun hr hout => ?_, fun hr => ?_⟩
    · rw [ha.engine]
      exact h.engine (ha.phase.symm.trans hp)
    · obtain ⟨hr', hpend, _⟩ := hsame hr
      exact hpend.trans (h.idle (ha.phase.symm.trans hp) hr')
    · obtain ⟨hr', _, he⟩ := hsame hr
      exact ha.phase.trans (h.booted hr' (he.symm.trans hout))
    · exact ha.phase.trans (h.begun (hsame hr).1)
  · exact h.of_turn ho ht

/-- A ready engine is ready after every step. -/
theorem phase_step (h : Readied s roles) (ho : AtRest s roles) (hst : Step s roles mv s' roles')
    (hr : s.phase = .ready) : s'.phase = .ready := by
  rcases hst.aside_or_turn ho with ha | ⟨w, m, turn, ht, rfl, rfl⟩
  · exact ha.phase.trans hr
  · exact ((h.inTurn ht hr).strides ht.strides).phase

end Readied

/-! ## Loads of which nothing comes -/

variable {w₀ : World}

theorem sure_refuses (h : w₀.Unfetchable locator) :
    Sure w₀.SameImports fun _ => Job.Refuses locator where
  kept := ⟨_, _, World.SameImports.kept⟩
  lasting _ := id
  run job world hw := by
    cases job with
    | grammar engine from_ =>
      rintro rfl
      have hmeets := h engine world hw
      show ∃ f, Work.reply .grammar ((Attempt.fetchGrammar engine from_).run world).1 = .error f ∧ _
      generalize (Attempt.fetchGrammar engine from_).run world = x at hmeets
      obtain ⟨_ | _, _⟩ := x
      · exact ⟨_, rfl, hmeets⟩
      · exact hmeets.elim
    | _ => trivial

/-- The language has a locator from which nothing can be fetched, and nothing has come of its loads but
    faults of loading. -/
structure Barren (w₀ : World) (language locator : String) (s : Service) (roles : Roles Hook Job) :
    Prop where
  known : s.config.locators.get? language = some locator
  world : w₀.SameImports s.world
  refused : Answered (fun _ => Job.Refuses locator) s roles
  locates : Answered (fun _ => Job.LocatesWell) s roles
  located : Located s
  readied : Readied s roles
  vacant : s.grammars.get? language = none
  failed : ∀ {t o}, roles t = .operation (.grammar language) → s.loop.outcome? t = some o →
    ∃ f, o = .failed (.unloadable language locator f)

namespace Barren

theorem opened {config : Config} {world : World} (hk : config.locators.get? language = some locator)
    (hw : w₀.SameImports world) (eager : Bool) (stuck : Option Fault) (log : List LogLine) :
    Barren w₀ language locator (Service.opened config world eager stuck log) fun _ => .unused where
  known := by rwa [config_opened]
  world := by rwa [world_opened]
  refused := .opened ..
  locates := .opened ..
  located := .opened ..
  readied := .opened ..
  vacant := by simp
  failed hr := by cases hr

/-- A fetch of the language is refused. -/
theorem given (h : Barren w₀ language locator s roles) (ht : HasTurn s roles w m turn) {from_ : String}
    (hs : w.stage = .fetch (.fetching language from_)) :
    from_ = locator ∧ ∃ f, w.given = .error f ∧ f.kind.isOrdinary = true := by
  obtain ⟨on, hplace⟩ := ht.place
  rw [hs] at hplace
  have hfrom : from_ = locator := by
    rw [h.located.fetching hplace, h.known]
    rfl
  have hgiven := h.refused.given ht (by rw [hs]; simp [Stage.role])
  rw [hs] at hgiven
  obtain ⟨_, engine, _, hgiven⟩ := hgiven
  exact ⟨hfrom, hgiven hfrom⟩

/-- Nothing is kept for the language after the turn. -/
theorem vacant_turn (h : Barren w₀ language locator s roles) (ht : HasTurn s roles w m turn) :
    m.service.grammars.get? language = none := by
  obtain ⟨i, hb⟩ := ht.before
  cases hx : m.service.grammars.get? language with
  | none => rfl
  | some x =>
    exfalso
    rcases Strides.get?_grammars ht.strides hx with hx | ⟨from_, r, hs, hr, _⟩
    · have hx' : w.before.grammars.get? language = some x := hx
      rw [hb] at hx'
      exact absurd (h.vacant.symm.trans hx') nofun
    · obtain ⟨_, f, hf, _⟩ := h.given ht hs
      exact absurd (hr.symm.trans hf) nofun

/-- A load of the language that ends has failed. -/
theorem load_fails (h : Barren w₀ language locator s roles) (ht : HasTurn s roles w m turn)
    (hr : w.stage.role = .operation (.grammar language)) (hready : s.phase = .ready)
    {result : Except Fault Reply} (hturn : turn = .finish result) :
    ∃ f, result = .error (.unloadable language locator f) := by
  obtain ⟨i, hb⟩ := ht.before
  obtain ⟨point, hs⟩ := Stage.exists_of_role_grammar hr
  have hres := congrArg Prod.fst ht.resumed
  rw [hs, hturn] at hres
  change (Calls.replying (Grammars.resumeFetch point w.given w.before).1 Stage.fetch Reply.grammar
    (Grammars.resumeFetch point w.given w.before).2).1 = _ at hres
  cases point with
  | start l =>
    rw [hs] at hr
    obtain rfl : l = language := by
      cases hr
      rfl
    have hgiven := h.refused.given ht (by rw [hs]; simp [Stage.role])
    rw [hs] at hgiven
    rw [hgiven] at hres
    change (Calls.replying (Grammars.startFetch l w.before).1 Stage.fetch Reply.grammar
      (Grammars.startFetch l w.before).2).1 = _ at hres
    obtain ⟨turn', s₁, hstart⟩ : ∃ turn' s₁, Grammars.startFetch l w.before = (turn', s₁) := ⟨_, _, rfl⟩
    rw [hstart] at hres
    cases fetchBegins hstart with
    | kept hk =>
      have hx := get?_of_kept? hk
      rw [hb] at hx
      cases h.vacant.symm.trans hx
    | engineless hk hf =>
      obtain ⟨engine, he⟩ := h.readied.exists_engine? hready
      rw [hb] at hf
      cases he.symm.trans hf
    | refused hk hd =>
      cases hres
      refine ⟨.poolClosed, ?_⟩
      rw [hb, Grammars.raised_of_isOrdinary rfl, h.known]
      rfl
    | fetching hk he => cases hres
  | fetching l from_ =>
    rw [hs] at hr
    obtain rfl : l = language := by
      cases hr
      rfl
    obtain ⟨rfl, f, hf, hord⟩ := h.given ht hs
    obtain ⟨counts, log, he⟩ := resumeFetching_error l from_ f w.before
    rw [hf, he] at hres
    cases hres
    refine ⟨f, ?_⟩
    rw [Grammars.raised_of_isOrdinary hord]
    rfl

/-- Every step keeps it that spares the operations. -/
theorem step (hu : w₀.Unfetchable locator) (h : Barren w₀ language locator s roles) (ho : AtRest s roles)
    (hst : Step s roles mv s' roles') (hsp : SparesOperations s mv) :
    Barren w₀ language locator s' roles' where
  known := by
    rw [(hst.engine_named ho).1]
    exact h.known
  world := hst.keeps World.SameImports.kept h.world
  refused := h.refused.step (sure_refuses hu) ho hst hsp h.world
  locates := h.locates.step (sure_locatesWell ⟨_, _, World.SameImports.kept⟩) ho hst hsp h.world
  located := h.located.step h.locates ho hst
  readied := h.readied.step ho hst
  vacant := by
    rcases hst.aside_or_turn ho with ha | ⟨w, m, turn, ht, rfl, rfl⟩
    · rw [ha.grammars]
      exact h.vacant
    · exact h.vacant_turn ht
  failed {t o} hr hout := by
    rcases hst.aside_or_turn ho with ha | ⟨w, m, turn, ht, rfl, rfl⟩
    · obtain ⟨hr', _, he⟩ := ha.outcome?_operation ho hst hr
      exact h.failed hr' (he.symm.trans hout)
    · obtain ⟨hr', hold | ⟨rfl, result, hturn, rfl⟩⟩ := ht.ended_cases ho hr hout
      · exact h.failed hr' hold
      · obtain ⟨f, rfl⟩ := h.load_fails ht (ht.started.unfinished.1.symm.trans hr') (h.readied.begun hr')
          hturn
        exact ⟨f, rfl⟩

end Barren

/-! ## Requests for the language -/

/-- A task that rests on a shield is given what the operation has ended with, or a cancellation. -/
theorem HasTurn.given_of_shield (ht : HasTurn s roles w m turn) (ho : AtRest s roles)
    (hs : w.stage.rest = .shield hook) :
    w.given = .error .cancellation ∨ ∃ op o, roles op = .operation hook ∧
      s.loop.outcome? op = some o ∧ w.given = o.result := by
  obtain ⟨task, given, _, _, hplaced, hgives, hmet⟩ := ht.woken
  have hrest := hplaced.rest
  rw [hs] at hrest
  obtain ⟨p, op, hon, hshield, hop⟩ := hrest
  unfold Loop.Gives at hgives
  rw [hon] at hgives
  obtain ⟨o, hout, rfl⟩ := hgives
  have hmet' : w.given = .error .cancellation ∨ w.given = o.result := by
    cases hg : w.given with
    | ok r => exact .inr (Program.met_eq_ok (hmet.symm.trans hg)).2.symm
    | error f =>
      rcases Program.met_eq_error (hmet.symm.trans hg) with ⟨rfl, _⟩ | he
      · exact .inl rfl
      · exact .inr he.symm
  rcases hmet' with hc | hgiven
  · exact .inl hc
  · rcases ho.sound.assigned.taken hshield hout with rfl | hend
    · exact .inl hgiven
    · exact .inr ⟨op, o, hop, hend, hgiven⟩

/-- A request for the grammar of the language rests here.  It waits for the boot only if the engine was not
    ready when it was made. -/
def IsRequest (ready : Prop) (language : String) (stage : Stage) : Prop :=
  stage = .start (.load (.str language)) ∨ stage = .grammar (.loading language) ∨
    ¬ ready ∧ stage = .grammar (.booting language)

/-- The request has ended without a grammar.  If the engine was ready when it was made, it has ended with a
    fault of loading, unless it was cancelled. -/
def EndsRefused (ready cancelled : Prop) (language locator : String) (o : Settled Reply) : Prop :=
  (∀ v, o ≠ .value v) ∧
    (ready → (∃ f, o = .failed (.unloadable language locator f)) ∨ o = .cancelled ∧ cancelled)

/-- A request that begins comes to wait for the load, or for the boot if the engine is not ready. -/
theorem request_of_vacant (hlocator : s.config.locators.get? language = some locator)
    (hvacant : s.grammars.get? language = none) :
    ∃ on, (Grammars.request (.str language) s).1 = .rest on (.loading language) ∨
      s.phase ≠ .ready ∧ (Grammars.request (.str language) s).1 = .rest on (.booting language) := by
  have hvalid : s.validate (.str language) = .ok language := by
    have hl : s.config.hasLocator language = true := by
      rw [Config.hasLocator, Keyed.contains, hlocator]
      rfl
    exact if_pos hl
  have hkept : Grammars.kept? s language = none := by
    rw [Grammars.kept?, hvacant]
    rfl
  simp only [Grammars.request, Work.run_bind, Work.run_get, hvalid, hkept, attach_boot_eq]
  by_cases hr : s.phase = .ready
  · simp only [if_pos hr]
    exact ⟨_, .inl rfl⟩
  · simp only [if_neg hr]
    exact ⟨_, .inr ⟨hr, rfl⟩⟩

namespace Barren

variable {ready cancelled : Prop}

/-- What a request meets that was made when the engine was ready. -/
theorem told (h : Barren w₀ language locator s roles) (ho : AtRest s roles) (ht : HasTurn s roles w m turn)
    (hs : w.stage = .start (.load (.str language)) ∨ w.stage = .grammar (.loading language))
    (hspared : cancelled ∨ Undisturbed s roles w.task) {f : Fault} (hf : w.given = .error f) :
    (∃ g, f = .unloadable language locator g) ∨ f = .cancellation ∧ cancelled := by
  rcases hs with hs | hs
  · rcases hspared with hx | hu
    · rcases ht.given_of_start hs with hg | hg
      · exact absurd (hf.symm.trans hg) nofun
      · exact .inr ⟨Except.error.inj (hf.symm.trans hg), hx⟩
    · exact absurd (hf.symm.trans (ht.given_start hu (by rw [hs]; rfl))) nofun
  · have hrest : w.stage.rest = .shield (.grammar language) := by
      rw [hs]
      rfl
    have hfailed : ∀ {op o}, roles op = .operation (.grammar language) →
        s.loop.outcome? op = some o → w.given = o.result → ∃ g, f = .unloadable language locator g := by
      intro op o hop hout hg
      obtain ⟨g, rfl⟩ := h.failed hop hout
      exact ⟨g, Except.error.inj (hf.symm.trans hg)⟩
    rcases hspared with hx | hu
    · rcases ht.given_of_shield ho hrest with hg | ⟨op, o, hop, hout, hg⟩
      · exact .inr ⟨Except.error.inj (hf.symm.trans hg), hx⟩
      · exact .inl (hfailed hop hout hg)
    · obtain ⟨op, o, hop, hout, _, hg⟩ := ht.given_shield ho hu _ hrest
      exact .inl (hfailed hop hout hg)

/-- A turn of a request leads on to the load, or ends it without a grammar. -/
theorem goes_request (h : Barren w₀ language locator s roles) (ho : AtRest s roles)
    (ht : HasTurn s roles w m turn) (hs : IsRequest ready language w.stage)
    (hready : ready → s.phase = .ready) (hspared : ready → cancelled ∨ Undisturbed s roles w.task) :
    Goes (IsRequest ready language) (EndsRefused ready cancelled language locator) turn := by
  have hres := congrArg Prod.fst ht.resumed
  cases hg : w.given with
  | error f =>
    rw [hg] at hres
    have hturn : turn = .finish (.error f) := by
      rcases hs with hs | hs | ⟨_, hs⟩ <;> exact (hs ▸ hres).symm
    subst hturn
    refine ⟨fun v hv => absurd (Program.ended_eq_value.1 hv) nofun, fun hr => ?_⟩
    have hs' := hs.imp_right fun hs => hs.resolve_right fun hn => hn.1 hr
    rcases h.told ho ht hs' (hspared hr) hg with ⟨g, rfl⟩ | ⟨rfl, hx⟩
    · exact .inl ⟨g, rfl⟩
    · exact .inr ⟨rfl, hx⟩
  | ok r =>
    rw [hg] at hres
    rcases hs with hs | hs | ⟨hn, hs⟩
    · rw [hs] at hres
      obtain ⟨i, hb⟩ := ht.before
      have hrequest := @request_of_vacant w.before _ _ (by rw [hb]; exact h.known)
        (by rw [hb]; exact h.vacant)
      change (Calls.replying (Grammars.request (.str language) w.before).1 Stage.grammar Reply.grammar
        (Grammars.request (.str language) w.before).2).1 = turn at hres
      obtain ⟨on, he | ⟨hp, he⟩⟩ := hrequest
      · rw [he] at hres
        cases hres
        exact .inr (.inl rfl)
      · rw [he] at hres
        cases hres
        refine .inr (.inr ⟨fun hr => hp ?_, rfl⟩)
        rw [hb]
        exact hready hr
    · have hrest : w.stage.rest = .shield (.grammar language) := by
        rw [hs]
        rfl
      obtain ⟨op, hop, hout⟩ := ht.started.shielded hrest hg
      obtain ⟨i, hb⟩ := ht.before
      have hout' : w.before.loop.outcome? op = some (.value r) := hout
      rw [hb] at hout'
      obtain ⟨g, he⟩ := h.failed hop hout'
      cases he
    · rw [hs] at hres
      obtain ⟨on, rfl⟩ : ∃ on, turn = .rest on (.grammar (.loading language)) := ⟨_, hres.symm⟩
      exact .inr (.inl rfl)

/-- A request that was made when the engine was ready is disturbed only by cancelling it. -/
theorem undisturbed_step (h' : Barren w₀ language locator s' roles') (ho : AtRest s roles)
    (hst : Step s roles mv s' roles') (hsp : SparesOperations s mv) (hc : ¬ s.Cancels c mv)
    (hu : Undisturbed s roles c)
    (hrests : ∀ {point on}, s'.loop.place? c = some (point, on) →
      point = .start (.load (.str language)) ∨ point = .grammar (.loading language)) :
    Undisturbed s' roles' c := by
  refine hu.step_of_shields ho hst hsp hc fun {point p q} hp hr hout => ?_
  have hrest := ((ho.step hst).1.placed hp).rest
  rcases hrests hp with rfl | rfl
  · cases hrest
  · obtain ⟨p', op, he, hshield, hop⟩ := hrest
    cases he
    cases hr.symm.trans hshield
    obtain ⟨f, hf⟩ := h'.failed hop hout
    cases hf

end Barren

/-! ## Runs -/

/-- What is known of a language that cannot be fetched, and of a request for it. -/
structure Requested (w₀ : World) (language locator : String) (ready cancelled : Prop) (c : PromiseId)
    (s : Service) (roles : Roles Hook Job) : Prop extends Barren w₀ language locator s roles where
  stays : ready → s.phase = .ready
  becomes : Becomes (fun _ => IsRequest ready language)
    (fun _ => EndsRefused ready cancelled language locator) s c
  spared : ready → cancelled ∨ Undisturbed s roles c

namespace Requested

variable {ready cancelled : Prop}

/-- Every step keeps it that spares the operations, and cancels the request only if it is said to be
    cancelled. -/
theorem step (hu : w₀.Unfetchable locator) (h : Requested w₀ language locator ready cancelled c s roles)
    (ho : AtRest s roles) (hst : Step s roles mv s' roles') (hsp : SparesOperations s mv)
    (hc : s.Cancels c mv → cancelled) :
    Requested w₀ language locator ready cancelled c s' roles' := by
  have hbarren := h.toBarren.step hu ho hst hsp
  have hbecomes : Becomes (fun _ => IsRequest ready language)
      (fun _ => EndsRefused ready cancelled language locator) s' c := by
    refine h.becomes.step ho hst (fun ht he hs _ _ => ?_) (fun _ => id) fun _ => id
    subst he
    exact h.goes_request ho ht hs h.stays h.spared
  refine ⟨hbarren, fun hr => h.readied.phase_step ho hst (h.stays hr), hbecomes, fun hr => ?_⟩
  rcases h.spared hr with hx | hspared
  · exact .inl hx
  by_cases hcancels : s.Cancels c mv
  · exact .inl (hc hcancels)
  refine .inr (hbarren.undisturbed_step ho hst hsp hcancels hspared fun hp => ?_)
  rcases hbecomes with ⟨point, on, hp', hpoint⟩ | ⟨o, hout, _⟩
  · cases hp.symm.trans hp'
    exact hpoint.imp_right fun hs => hs.resolve_right fun hn => hn.1 hr
  · rw [outcome?_of_isPending ((ho.step hst).1.isPending_of_place? hp)] at hout
    cases hout

end Requested

/-- Nothing is kept for a language that cannot be fetched, at any time, and of a request for it that was
    begun when the engine was ready nothing comes but a fault of loading. -/
theorem Barren.runs {w₀ : World} (hu : w₀.Unfetchable locator) (ho : AtRest s roles)
    (h : Barren w₀ language locator s roles) (hsp : Along SparesOperations s ms) :
    (s.moves ms).grammars.get? language = none ∧
      ∀ {before after}, ms = before ++ .act (.spawn (.load (.str language))) :: after →
        ∀ {o}, (s.moves ms).loop.outcome? (s.moves before).loop.promises.size = some o →
          EndsRefused ((s.moves before).phase = .ready)
            (CancelledIn s ms (s.moves before).loop.promises.size) language locator o := by
  have halong : ∀ {ms : List Service.Move}, Along SparesOperations s ms →
      ∃ roles', AtRest (s.moves ms) roles' ∧ Barren w₀ language locator (s.moves ms) roles' := by
    intro ms hsp
    obtain ⟨roles', ho', _, h'⟩ := exists_along (I := Barren w₀ language locator)
      (fun ho _ hsp h hst => h.step hu ho hst hsp) ms ho hsp h
    exact ⟨roles', ho', h'⟩
  obtain ⟨_, _, hend⟩ := halong hsp
  refine ⟨hend.vacant, fun {before after} he o hout => ?_⟩
  subst he
  have hspares := along_spares hsp
  obtain ⟨hbefore, hspawn, hafter⟩ := (along_append before _).1 hspares
  obtain ⟨roles₁, ho₁, h₁⟩ := halong ((along_append before _).1 hsp).1
  obtain ⟨roles₂, hst⟩ := exists_step ho₁ (.act (.spawn (.load (.str language))))
  have hplace := place?_spawned (s.moves before) (.load (.str language))
  have ho₂ := (ho₁.step hst).1
  have hbegun : Requested w₀ language locator ((s.moves before).phase = .ready)
      (CancelledIn s (before ++ .act (.spawn (.load (.str language))) :: after)
        (s.moves before).loop.promises.size) (s.moves before).loop.promises.size
      ((s.moves before).move (.act (.spawn (.load (.str language))))) roles₂ := by
    refine ⟨h₁.step hu ho₁ hst hspawn.1, h₁.readied.phase_step ho₁ hst, .inl ⟨_, _, hplace, .inl rfl⟩,
      fun _ => .inr ?_⟩
    refine (h₁.step hu ho₁ hst hspawn.1).undisturbed_step ho₁ hst hspawn.1 nofun (.of_place? ?_) fun hp => ?_
    · cases hget : (s.moves before).loop.tasks.get? (s.moves before).loop.promises.size with
      | none => rfl
      | some task => exact absurd (ho₁.sound.known hget) (Nat.lt_irrefl _)
    · cases hp.symm.trans hplace
      exact .inl rfl
  obtain ⟨roles', ho', _, hrequested⟩ := exists_along
    (I := Requested w₀ language locator ((s.moves before).phase = .ready)
      (CancelledIn s (before ++ .act (.spawn (.load (.str language))) :: after)
        (s.moves before).loop.promises.size) (s.moves before).loop.promises.size)
    (fun ho _ hmv h hst => h.step hu ho hst hmv.1 (hmv.2 _)) after ho₂ hafter hbegun
  rw [moves_append] at hout
  rcases hrequested.becomes with ⟨point, on, hp, _⟩ | ⟨o', hout', hends⟩
  · exact absurd (hout.symm.trans (outcome?_of_isPending (ho'.isPending_of_place? hp))) nofun
  · cases hout.symm.trans hout'
    exact hends

/-- The law of what a probe has found, for the state that a run comes to. -/
structure ProbeAgrees (table : LocatorTable) (found : List (String × Bool)) (s : Service)
    (ms : List Service.Move) : Prop where
  /-- It tells of every language of the table, in its order, and of no other. -/
  keys : found.map Prod.fst = table.keys
  /-- A request that was made when the engine was ready, for a language that was found unavailable, ends
      with a fault of loading that names language and locator, unless it is cancelled. -/
  refused : ∀ {before after language o}, ms = before ++ .act (.spawn (.load (.str language))) :: after →
    (s.moves before).phase = .ready → (language, false) ∈ found →
    ¬ CancelledIn s ms (s.moves before).loop.promises.size →
    (s.moves ms).loop.outcome? (s.moves before).loop.promises.size = some o →
    ∃ locator f, table.get? language = some locator ∧ o = .failed (.unloadable language locator f)
  /-- It has ended when nothing more can happen, among plain calls. -/
  ends : ∀ {call c}, Began s ms call c → Along BeginsPlain s ms → ¬ Going (s.moves ms) →
    ∃ o, (s.moves ms).loop.outcome? c = some o
  /-- Nothing is ever kept for such a language. -/
  vacant : ∀ {language}, (language, false) ∈ found → (s.moves ms).grammars.get? language = none
  /-- A language of the table that has been loaded, at whatever time, was found available. -/
  loadable : ∀ {language c v}, table.contains language = true → Began s ms (.load (.str language)) c →
    (s.moves ms).loop.outcome? c = some (.value v) → (language, true) ∈ found

/-- **What a probe reports unavailable cannot be loaded.**  Where every module goes on importing as it does,
    the law holds of every probe of the table, made in any world with the same imports, and of every run of a
    service with the table, whatever is called and cancelled in it, provided that nobody but callers is. -/
theorem probe_agrees {config : Config} {world probed : World} {found : List (String × Bool)}
    (hw : world.ImportsConstantly) (hsame : world.SameImports probed)
    (hfound : ((Warmup.availability config.locators).run probed).1 = .ok found) (eager : Bool)
    (stuck : Option Fault) (log : List LogLine) (ms : List Service.Move)
    (hsp : Along SparesOperations (opened config world eager stuck log) ms) :
    ProbeAgrees config.locators found (opened config world eager stuck log) ms := by
  have hkeys := Warmup.keys_of_availability hsame hfound
  have hruns : ∀ {language}, (language, false) ∈ found → ∃ locator,
      config.locators.get? language = some locator ∧ _ := fun hl => by
    obtain ⟨locator, hlocator, hu⟩ := Warmup.unfetchable_of_availability hsame hfound hl
    exact ⟨locator, hlocator, Barren.runs hu (Ordered.opened config world eager stuck log).rest
      (.opened hlocator (.refl hw) eager stuck log) hsp⟩
  refine ⟨hkeys, fun he hready hl hc hout => ?_, fun hc hplain hstuck => ?_, fun hl => ?_,
    fun {language c v} hl hc hv => ?_⟩
  · obtain ⟨locator, hlocator, _, hends⟩ := hruns hl
    obtain ⟨f, hf⟩ := ((hends he hout).2 hready).resolve_right fun hx => hc hx.2
    exact ⟨locator, f, hlocator, hf⟩
  · exact (ended_or_going config world eager stuck log hplain hc).resolve_right hstuck
  · obtain ⟨_, _, hvacant, _⟩ := hruns hl
    exact hvacant
  · have hmem : language ∈ found.map Prod.fst := by
      rw [hkeys]
      exact (Keyed.contains_iff _ _).1 hl
    obtain ⟨⟨name, available⟩, hm, rfl⟩ := List.mem_map.1 hmem
    cases available with
    | true => exact hm
    | false =>
      exfalso
      obtain ⟨_, _, _, hends⟩ := hruns hm
      obtain ⟨before, after, he, rfl⟩ := hc
      exact (hends he hv).1 v rfl

/-- A world in which one family of modules is a package and another one cannot be imported. -/
def brokenFamily : World where
  modules := .ofList [
    ("tree_sitter",
      { members := (Keyed.empty.put makerName (.maker ⟨[]⟩ .parser)).put compilerName (.compiler ⟨[]⟩) }),
    ("packs", {}),
    ("packs.lua", { members := Keyed.empty.put "language:strict" (.pointer (.str "lua")) }),
    ("family", { imports := ⟨[some (.plain .importFailed "no such symbol")]⟩ }),
    ("family.rust", { members := Keyed.empty.put "language" (.pointer (.str "rust")) })]

/-- Locators with dots and several colons, one without a colon, and two that name no module. -/
def severalLocators : Config where
  locators := .ofList [("lua", "packs.lua:language:strict"), ("rust", "family.rust:language"),
    ("go", "packs.go:language"), ("c", "packs.lua")]

/-- The engine is booted, and then every language is asked for. -/
def allRequested : List Service.Move :=
  .act (.spawn .init) :: List.replicate 9 (.serve 0) ++
    .act (.spawn (.load (.str "lua"))) :: List.replicate 9 (.serve 0) ++
    .act (.spawn (.load (.str "rust"))) :: List.replicate 9 (.serve 0)

/-- One language is found and loaded, and one that is not found cannot be loaded. -/
theorem probe_agrees_brokenFamily :
    brokenFamily.ImportsConstantly ∧ brokenFamily.SameImports brokenFamily ∧
      ((Warmup.availability severalLocators.locators).run brokenFamily).1 =
        .ok [("lua", true), ("rust", false), ("go", false), ("c", false)] ∧
      Along SparesOperations (opened severalLocators brokenFamily true none []) allRequested ∧
      ProbeAgrees severalLocators.locators [("lua", true), ("rust", false), ("go", false), ("c", false)]
        (opened severalLocators brokenFamily true none []) allRequested ∧
      ((opened severalLocators brokenFamily true none []).moves allRequested).grammars.keys = ["lua"] ∧
      ∃ f, ((opened severalLocators brokenFamily true none []).moves allRequested).loop.outcome? 8 =
        some (.failed (.unloadable "rust" "family.rust:language" f)) := by
  have hw : brokenFamily.ImportsConstantly := fun hg => by
    have hall : ∀ e ∈ brokenFamily.modules.entries, e.2.imports.outcomes.length ≤ 1 := by decide
    exact .of_length (hall _ (Keyed.mem_of_lookIn hg))
  have hfound : ((Warmup.availability severalLocators.locators).run brokenFamily).1 =
      .ok [("lua", true), ("rust", false), ("go", false), ("c", false)] := by
    have hvalue : ((Warmup.availability severalLocators.locators).run brokenFamily).1.toOption =
        some [("lua", true), ("rust", false), ("go", false), ("c", false)] := by
      decide +kernel
    generalize ((Warmup.availability severalLocators.locators).run brokenFamily).1 = x at hvalue
    cases x with
    | error f => cases hvalue
    | ok found => exact congrArg _ (Option.some.inj hvalue)
  have hsp : Along SparesOperations (opened severalLocators brokenFamily true none []) allRequested := by
    decide +kernel
  have hagrees := probe_agrees hw (.refl hw) hfound true none [] allRequested hsp
  have hsplit : allRequested = allRequested.take 20 ++
    .act (.spawn (.load (.str "rust"))) :: allRequested.drop 21 := rfl
  have hcall : ((opened severalLocators brokenFamily true none []).moves
      (allRequested.take 20)).loop.promises.size = 8 := by
    decide +kernel
  have hended : (((opened severalLocators brokenFamily true none []).moves
      allRequested).loop.outcome? 8).isSome = true := by
    decide +kernel
  obtain ⟨o, hout⟩ := Option.isSome_iff_exists.1 hended
  obtain ⟨locator, f, hl, rfl⟩ := hagrees.refused hsplit (by decide +kernel) (by decide)
    (not_cancelledIn_of_mem (by decide +kernel)) (hcall ▸ hout)
  have hlocator : severalLocators.locators.get? "rust" = some "family.rust:language" := by decide
  cases hl.symm.trans hlocator
  exact ⟨hw, .refl hw, hfound, hsp, hagrees, by decide +kernel, f, hout⟩

/-- Whatever is done in a run, a probe may be made in the world that it comes to. -/
theorem sameImports_moves {config : Config} {world : World} (hw : world.ImportsConstantly) (eager : Bool)
    (stuck : Option Fault) (log : List LogLine) (ms : List Service.Move) :
    world.SameImports ((opened config world eager stuck log).moves ms).world := by
  obtain ⟨_, _, _, h⟩ := exists_atRest (I := fun s _ => world.SameImports s.world)
    (fun _ _ h hst => hst.keeps World.SameImports.kept h) ms
    (Ordered.opened config world eager stuck log).rest (by rw [world_opened]; exact .refl hw)
  exact h

end Service

end SourceTrees
