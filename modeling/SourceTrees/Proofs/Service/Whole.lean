import SourceTrees.Proofs.Service.Borrowed

/-!
# Every move is a step

What warm-ups, tools and calls do in a turn, as strides; and with that, that whatever can happen to a
service between two turns is one of the steps that have been named.

## Results

* `Service.leads_resumeCall` — a turn of any task.
* `Service.exists_step` — every move is a step; `Service.exists_ordered` — every service that can be
  reached is in order.
-/

set_option autoImplicit false

namespace SourceTrees.Service

open Loop

variable {w : Woken} {m m' : Midst} {s s' : Service} {roles : Roles Hook Job} {R : Fault → Prop}

/-! ## Warm-ups -/

/-- A warm-up has come to rest, all its parsers having been asked for, or finished; then its fault is one
    of those that are said. -/
def WarmEnds (w : Woken) (R : Fault → Prop) : Turn WarmStage Bool → Midst → Prop :=
  Halts
    (fun on point m => Rested w m on point.rest .free ∧ ∀ t ∈ point.members, ∃ l,
      m.service.loop.place? t = some (.start (.getParser l), none))
    fun result m => m.grip = .free ∧ ∀ f, result = .error f → R f

/-- Calls are started, one after the other. -/
theorem leads_spawnAll (languages : List Json) : ∀ m : Midst,
    Leads w m (languages.mapM (fun l => Work.onLoop (·.spawn (.start (.getParser l)))) m.service)
      fun members m' => m'.grip = m.grip ∧ Extends m.roles m'.roles ∧
        ∀ t ∈ members, m'.roles t = .call ∧ ∃ l,
          m'.service.loop.place? t = some (.start (.getParser l), none) := by
  induction languages with
  | nil => exact fun m => .pure ⟨rfl, .refl _, fun t ht => by cases ht⟩
  | cons l languages ih =>
    intro m
    rw [List.mapM_cons]
    refine .of_inTurn fun ht => .bind (.stride (.spawned (.getParser l) ⟨l, rfl⟩) (.pure (.bind ?_)))
    refine .mono (ih _).strides fun members m' hm => .pure ?_
    obtain ⟨⟨hg, hr, hall⟩, hst⟩ := hm
    have hext := ht.ordered.sound.assigned.extends_update .call
    refine ⟨hg, hext.trans hr, fun t htm => ?_⟩
    rcases List.mem_cons.1 htm with rfl | htm
    · refine ⟨hr.eq (Function.update_self ..) (by simp), l, ?_⟩
      have hlt : m.service.loop.promises.size <
          (m.service.loop.spawn (.start (.getParser l))).2.promises.size := by
        rw [size_spawn]
        exact Nat.lt_succ_self _
      unfold Loop.place?
      rw [hst.get?_tasks hlt]
      exact place?_spawn.trans (if_pos rfl)
    · exact hall t htm

theorem leads_gather (languages : List Json) (hg : m.grip = .free) :
    Leads w m (Warmup.gather languages m.service) (WarmEnds w R) := by
  unfold Warmup.gather
  split
  · exact .pure ⟨hg, fun _ h => by cases h⟩
  · refine .bind ((leads_spawnAll languages m).mono fun members m' hm => ?_)
    obtain ⟨hg', _, hall⟩ := hm
    refine .of_inTurn fun ht => .bind (.stride (.grouped fun t ht => (hall t ht).1)
      (.pure (.of_inTurn fun ht' => .pure ⟨?_, fun t htm => ?_⟩)))
    · refine ⟨⟨_, rfl, Function.update_self ..⟩, hg'.trans hg, ht.base_le, ?_⟩
      exact ht'.ordered.sound.assigned.lt_size (by simp)
    · obtain ⟨_, l, hp⟩ := hall t htm
      exact ⟨l, (place?_congr tasks_group).trans hp⟩

theorem leads_booted (languages : List Json) (result : Except Fault Unit) (hg : m.grip = .free)
    (hf : ∀ f, result = .error f → f.kind ≠ .boot → R f) :
    Leads w m (Warmup.booted languages result m.service) (WarmEnds w R) := by
  unfold Warmup.booted
  cases result with
  | ok u => exact leads_gather languages hg
  | error f =>
    dsimp only
    split
    · exact .bind (.log _ (.pure ⟨hg, fun _ h => by cases h⟩))
    · rename_i hk
      exact .pure ⟨hg, fun g hg' => by cases hg'; exact hf f rfl hk⟩

theorem leads_review (ends : List (Json × Except Fault Unit)) : ∀ (all : Bool) (m : Midst),
    m.grip = .free → (∀ e ∈ ends, ∀ f, e.2 = .error f → f.kind.isOwn = false → R f) →
    Leads w m (Warmup.review ends all m.service) (WarmEnds w R) := by
  induction ends with
  | nil => exact fun all m hg _ => .pure ⟨hg, fun _ h => by cases h⟩
  | cons e ends ih =>
    intro all m hg hf
    have hf' := fun e' he' => hf e' (List.mem_cons_of_mem _ he')
    obtain ⟨language, result⟩ := e
    cases result with
    | ok u => exact .bind (.log _ (ih all _ hg hf'))
    | error f =>
      unfold Warmup.review
      split
      · exact .bind (.log _ (ih (all && false) _ hg hf'))
      · rename_i ho
        refine .pure ⟨hg, fun g hg' => ?_⟩
        cases hg'
        exact hf _ List.mem_cons_self f rfl (by simpa using ho)

theorem leads_probe (table : LocatorTable) :
    Leads w m (Work.attempt (Warmup.availability table) m.service) fun r m' => m'.grip = m.grip ∧
      r = ((Warmup.availability table).run m.service.world).1 :=
  fun _ => ⟨_, .single (.probed table), rfl, rfl, rfl⟩

/-- A warm-up ends with a fault when it begins only if looking for the grammars does. -/
theorem leads_requestWarm (languages : Option (List Json)) (hg : m.grip = .free) :
    Leads w m (Warmup.request languages m.service) (WarmEnds w fun f =>
      ((Warmup.availability m.service.config.locators).run m.service.world).1 = .error f) := by
  unfold Warmup.request
  refine .bind (.log _ (.bind (.pure (.bind ((leads_probe _).mono fun r m₁ hr => ?_)))))
  obtain ⟨hg₁, hr⟩ := hr
  replace hg₁ : m₁.grip = .free := hg₁.trans hg
  cases r with
  | error f => exact .pure ⟨hg₁, fun g hg' => by cases hg'; exact hr.symm⟩
  | ok found =>
    refine .bind (.log _ (.bind (.mono leads_attachBoot fun r m' hr => ?_)))
    cases r with
    | some p =>
      simp only [hg₁] at hr
      exact .pure ⟨hr, fun _ h => by cases h⟩
    | none =>
      obtain ⟨rfl, _⟩ := hr
      exact leads_booted _ _ hg₁ (fun _ h => by cases h)

/-- The faults with which a warm-up ends that goes on from the stage. -/
def Woken.WarmBlames (w : Woken) (s : Service) : WarmStage → Fault → Prop
  | .booting _, f => w.given = .error f ∧ f.kind ≠ .boot
  | .gathering _ members, f => w.given = .error f ∨
      f.kind.isOwn = false ∧ ∃ t ∈ members, Warmup.endOf s t = .error f

theorem leads_resumeWarm (point : WarmStage) (hg : m.grip = .free) :
    Leads w m (Warmup.resume point w.given m.service) (WarmEnds w (w.WarmBlames m.service point)) := by
  cases point with
  | booting languages =>
    cases hr : w.given with
    | ok r => exact leads_booted _ _ hg (fun _ h => by cases h)
    | error f => exact leads_booted _ _ hg fun g hg' hk => by cases hg'; exact ⟨hr, hk⟩
  | gathering languages members =>
    cases hr : w.given with
    | ok r =>
      refine .bind (.pure (leads_review _ true _ hg fun e he f hf ho => .inr ⟨ho, ?_⟩))
      obtain ⟨t, ht, hend⟩ := List.mem_map.1 (List.of_mem_zip he).2
      exact ⟨t, ht, hend.trans hf⟩
    | error f => exact .pure ⟨hg, fun g hg' => by cases hg'; exact .inl hr⟩

/-! ## Closing -/

theorem leads_close : Leads w m (Work.close m.service) fun _ m' => m'.grip = m.grip := by
  unfold Work.close
  refine .bind (.pure ?_)
  cases m.service.holdsWorkers with
  | false => exact .pure rfl
  | true =>
    have hd : Leads w m (Work.dismiss m.service) fun _ m' => m'.grip = m.grip :=
      fun _ => ⟨_, .single .dismissed, rfl, rfl⟩
    refine .bind (hd.mono fun r m' hg => ?_)
    cases r with
    | ok u => exact .bind (.stride .gaveUp (.pure (.bind (.log _ (.pure hg)))))
    | error f =>
      dsimp only
      split
      · exact .bind (.log _ (.pure hg))
      · exact .pure hg

/-! ## Parses for a use -/

theorem leads_finish (use : ParseUse) {result : Except Fault Tree} (hg : m.grip = .free)
    (hf : ∀ f, result = .error f → ParseFault R m.service f) :
    Leads w m (Tools.finish use result m.service) (ParseEnds w R) := by
  unfold Tools.finish
  split
  · exact .pure ⟨hg, fun _ h => by cases h⟩
  · exact leads_parseFault hg (hf _ rfl)
  · exact .pure ⟨hg, fun _ h => by cases h⟩
  · split
    · exact .bind (.log _ (.pure ⟨hg, fun _ h => by cases h⟩))
    · exact leads_parseFault hg (hf _ rfl)
  · exact .pure ⟨hg, fun _ h => by cases h⟩
  · split
    · exact .bind (.log _ (.pure ⟨hg, fun _ h => by cases h⟩))
    · exact leads_parseFault hg (hf _ rfl)

theorem ends_rest {on : PromiseId} {point : Stage} (h : Rested w m on point.rest point.grip)
    (hr : point.role = w.stage.role) (hc : point.Coherent) : Ends w m (.rest on point) :=
  ⟨h.grip, hr, hc, h.fits, h.base_le, h.lt_size⟩

/-- A parse whose tree is put to a use. -/
theorem leads_use (use : ParseUse) {f : Work (Turn ParseStage Tree)} (hr : w.stage.role = .call)
    (h : Leads w m (f m.service) (ParseEnds w R)) :
    Leads w m ((do
      let turn ← f
      Work.andThen (← Work.andThen turn id (Tools.finish use)) (.parse use) (fun r => return .finish r) :
        Work (Turn Stage Reply)) m.service) fun turn m' => Ends w m' turn := by
  refine .bind (h.mono fun turn m₁ h₁ => .bind ?_)
  have hused : Leads w m₁ (Work.andThen turn id (Tools.finish use) m₁.service) (ParseEnds w R) :=
    .andThen h₁ (fun on point hp => hp) fun result hf => leads_finish use hf.1 hf.2
  refine hused.mono fun turn m₂ h₂ => .andThen h₂ (fun on point hp => ?_) fun result hf => ?_
  · exact ends_rest hp.1 hr.symm hp.2.1
  · exact .pure (.inl ⟨hf.1, hr⟩)

theorem leads_parseFor (use : ParseUse) (code : Code) (language : Json) (hr : w.stage.role = .call)
    (hg : m.grip = .free) :
    Leads w m (Tools.parse use code language m.service) fun turn m' => Ends w m' turn :=
  leads_use use hr (leads_requestParse code language hg)

theorem leads_parseAs (use : ParseUse) (code : Code) (path : Json) (hr : w.stage.role = .call)
    (hg : m.grip = .free) :
    Leads w m (Tools.parseAs use code path m.service) fun turn m' => Ends w m' turn := by
  unfold Tools.parseAs
  cases Parsing.detect path with
  | some language => exact leads_parseFor use code _ hr hg
  | none => exact .bind (.count .skipped (fun _ => rfl) (.pure (.inl ⟨hg, hr⟩)))

theorem leads_parseFile (path : Json) (depth : Option Int) (hr : w.stage.role = .call)
    (hg : m.grip = .free) :
    Leads w m (Tools.parseFile path depth m.service) fun turn m' => Ends w m' turn := by
  have hdone : ∀ turn : Turn Stage Reply, (∃ result, turn = .finish result) →
      Leads w m (turn, m.service) fun turn m' => Ends w m' turn := by
    rintro turn ⟨result, rfl⟩
    exact .pure (.inl ⟨hg, hr⟩)
  unfold Tools.parseFile
  refine .bind (.pure ?_)
  cases path with
  | str name =>
    cases Parsing.detect (.str name) with
    | none => exact hdone _ ⟨_, rfl⟩
    | some language =>
      dsimp only
      cases Tools.checkPath m.service.world (.str name) m.service.config.maxFileSize with
      | invalid why => exact hdone _ ⟨_, rfl⟩
      | valid size =>
        dsimp only
        cases m.service.world.readFile name with
        | ok source => exact leads_parseAs _ _ _ hr hg
        | error f =>
          dsimp only
          split
          · exact hdone _ ⟨_, rfl⟩
          · exact hdone _ ⟨_, rfl⟩
  | _ => exact hdone _ ⟨_, rfl⟩

/-! ## Calls -/

/-- A task has finished with nothing in hand, being a call. -/
theorem leads_done {result : Except Fault Reply} (hr : w.stage.role = .call) (hg : m.grip = .free) :
    Leads w m ((.finish result : Turn Stage Reply), m.service) fun turn m' => Ends w m' turn :=
  .pure (.inl ⟨hg, hr⟩)

/-- The grammar of a request is replied. -/
theorem leads_replyGrammar {language : Json} {f : Work (Turn GrammarStage Grammar)}
    (hr : w.stage.role = .call) (h : Leads w m (f m.service) (GrammarEnds w language)) :
    Leads w m ((do Calls.replying (← f) .grammar .grammar : Work (Turn Stage Reply)) m.service)
      fun turn m' => Ends w m' turn :=
  .call h (fun _ _ _ hp => ends_rest hp.1 hr.symm trivial) fun _ _ hg => leads_done hr hg.1

theorem leads_parserReply {result : Except Fault String} (hr : w.stage.role = .call)
    (hg : m.grip = .free) :
    Leads w m (Calls.parserReply result m.service) fun turn m' => Ends w m' turn := by
  unfold Calls.parserReply
  cases result with
  | error f => exact leads_done hr hg
  | ok language => exact .bind (.pure (leads_done hr hg))

theorem leads_replyParser {language : Json} {f : Work (Turn PoolStage String)}
    (hr : w.stage.role = .call) (h : Leads w m (f m.service) (PoolEnds w language)) :
    Leads w m ((do Work.andThen (← f) .parser Calls.parserReply : Work (Turn Stage Reply)) m.service)
      fun turn m' => Ends w m' turn :=
  .call h (fun _ _ _ hp => ends_rest hp.1 hr.symm hp.2.1) fun _ _ hf => leads_parserReply hr hf.1

theorem leads_hold (holder name : String) {language : Json} {result : Except Fault Nat}
    (hr : w.stage.role = .call) (hname : ∀ l, language = .str l → name = l)
    (h : match result with
      | .ok parser => ∃ l, language = .str l ∧ m.grip = .lease l ∧ parser = Pool.parserOf m.service l
      | .error f => m.grip = .free ∧ w.Blames f) :
    Leads w m (Calls.hold holder name result m.service) fun turn m' => Ends w m' turn := by
  unfold Calls.hold
  cases result with
  | error f => exact leads_done hr h.1
  | ok parser =>
    obtain ⟨l, hl, hg, _⟩ := h
    obtain rfl := hname l hl
    refine .of_inTurn fun ht => .bind (.stride .gateMade (.pure ?_))
    refine .bind (.stride (.leaseNoted holder parser) (.pure (.pure (ends_rest ?_ hr.symm trivial))))
    refine ⟨⟨_, rfl, Function.update_self ..⟩, hg, ht.base_le, ?_⟩
    exact Nat.lt_of_lt_of_eq (Nat.lt_succ_self _) size_promise.symm

/-- Closing leaves the grip of the call as it was. -/
theorem leads_closing {next : Except Fault Unit → Work (Turn Stage Reply)} (hg : m.grip = .free)
    (hn : ∀ r m', m'.grip = .free → Leads w m' (next r m'.service) fun turn m' => Ends w m' turn) :
    Leads w m ((Work.close >>= next) m.service) fun turn m' => Ends w m' turn :=
  .bind (leads_close.mono fun r m' hg' => hn r m' (hg'.trans hg))

theorem leads_entered {result : Except Fault Bool} (hr : w.stage.role = .call) (hg : m.grip = .free) :
    Leads w m (Calls.entered result m.service) fun turn m' => Ends w m' turn := by
  unfold Calls.entered
  cases result with
  | ok all =>
    cases all with
    | true => exact .bind (.log _ (leads_done hr hg))
    | false => exact .bind (.log _ (leads_done hr hg))
  | error f =>
    dsimp only
    split
    · exact .bind (.log _ (leads_closing hg fun r _ hg' => by cases r <;> exact leads_done hr hg'))
    · exact leads_closing hg fun r _ hg' => by cases r <;> exact leads_done hr hg'

theorem leads_replyWarm {f : Work (Turn WarmStage Bool)} (hr : w.stage.role = .call)
    (h : Leads w m (f m.service) (WarmEnds w R)) :
    Leads w m ((do Calls.replying (← f) .warm .flag : Work (Turn Stage Reply)) m.service)
      fun turn m' => Ends w m' turn :=
  .call h (fun _ _ _ hp => ends_rest hp.1 hr.symm trivial) fun _ _ hf => leads_done hr hf.1

theorem leads_enter {f : Work (Turn WarmStage Bool)} (hr : w.stage.role = .call)
    (h : Leads w m (f m.service) (WarmEnds w R)) :
    Leads w m ((do Work.andThen (← f) .enter Calls.entered : Work (Turn Stage Reply)) m.service)
      fun turn m' => Ends w m' turn :=
  .call h (fun _ _ _ hp => ends_rest hp.1 hr.symm trivial) fun _ _ hf => leads_entered hr hf.1

theorem leads_leave (f : Option Fault) (hr : w.stage.role = .call) (hg : m.grip = .free) :
    Leads w m (Calls.leave f m.service) fun turn m' => Ends w m' turn := by
  unfold Calls.leave
  cases f with
  | none => exact leads_closing hg fun r _ hg' => by cases r <;> exact leads_done hr hg'
  | some f =>
    dsimp only
    split
    · exact .bind (.log _ (leads_closing hg fun r _ hg' => by cases r <;> exact leads_done hr hg'))
    · exact leads_closing hg fun r _ hg' => by cases r <;> exact leads_done hr hg'

/-- The first turn of a call. -/
theorem leads_start (call : Call) (hr : w.stage.role = .call) (hg : m.grip = .free) :
    Leads w m (Calls.start call m.service) fun turn m' => Ends w m' turn := by
  unfold Calls.start
  refine .bind (.pure ?_)
  cases call with
  | init =>
    refine .bind (leads_attachBoot.mono fun r m' h => ?_)
    cases r with
    | some p =>
      rw [hg] at h
      exact .pure (ends_rest h hr.symm trivial)
    | none =>
      obtain ⟨rfl, _⟩ := h
      exact leads_done hr hg
  | parse code language => exact leads_parseFor .tree code language hr hg
  | parseFile code path => exact leads_parseAs .tree code path hr hg
  | load language => exact leads_replyGrammar hr (leads_request language hg)
  | getParser language => exact leads_replyParser hr (leads_requestParser language hg)
  | lease holder language =>
    refine .call (leads_lease language hg) (fun on point m' hp => ends_rest hp.1 hr.symm hp.2.1)
      fun result m' h => leads_hold holder _ hr (fun l hl => ?_) h
    rw [hl]
  | warm languages => exact leads_replyWarm hr (leads_requestWarm languages hg)
  | check locators =>
    exact .bind ((leads_probe _).mono fun r m' hg' => leads_done hr (hg'.1.trans hg))
  | isLoaded language => cases language <;> exact leads_done hr hg
  | close =>
    refine .bind (leads_close.mono fun r m' hg' => ?_)
    cases r with
    | ok u => exact .bind (.pure (leads_done hr (hg'.trans hg)))
    | error g => exact leads_done hr (hg'.trans hg)
  | snippetTool code language depth => exact leads_parseFor _ code language hr hg
  | fileTool path depth => exact leads_parseFile path depth hr hg
  | enter => exact leads_enter hr (leads_requestWarm none hg)
  | leave f => exact leads_leave f hr hg
  | _ => exact leads_done hr hg

/-- A turn of any task. -/
theorem leads_resumeCall (hc : w.stage.Coherent) (hg : m.grip = w.stage.grip) :
    Leads w m (Calls.resume w.stage w.given m.service) fun turn m' => Ends w m' turn := by
  cases hs : w.stage with
  | start call =>
    rw [hs] at hg
    cases w.given with
    | ok r => exact leads_start call (by rw [hs]; rfl) hg
    | error f => exact leads_done (by rw [hs]; rfl) hg
  | boot point =>
    rw [hs] at hg
    refine .bind ((leads_boot hs hg).mono fun turn m' h => ?_)
    cases turn with
    | rest on point' => exact .pure (ends_rest h (by rw [hs]; rfl) trivial)
    | giveWay point' => exact .pure ⟨h.1, by rw [hs]; rfl, trivial, by rw [h.2]; rfl⟩
    | finish result => exact .pure (.inr h.1)
  | fetch point =>
    rw [hs] at hg
    refine .call (leads_fetch hs hg) (fun on point' m' h => ends_rest h.1 h.2 trivial)
      fun result m' h => .pure (.inr h.1)
  | init =>
    rw [hs] at hg
    exact leads_done (by rw [hs]; rfl) hg
  | grammar point =>
    rw [hs] at hg
    exact leads_replyGrammar (by rw [hs]; rfl) (leads_resume (by rw [hs]; rfl) hg)
  | parser point =>
    rw [hs] at hg hc
    exact leads_replyParser (by rw [hs]; rfl) (leads_resumeParser (by rw [hs]; rfl) hc hg)
  | lease holder point =>
    rw [hs] at hg hc
    have hr : w.stage.role = .call := by rw [hs]; rfl
    refine .call (leads_resumeLease (by rw [hs]; rfl) hc hg)
      (fun on point' m' hp => ends_rest hp.1 hr.symm hp.2.1)
      fun result m' h => leads_hold holder _ hr (fun l hl => ?_) h
    exact Json.str.inj hl
  | holding language parser =>
    rw [hs] at hg
    exact .bind ((leads_release (.inl hg)).mono fun _ m' hg' => leads_done (by rw [hs]; rfl) hg')
  | parse use point =>
    rw [hs] at hg hc
    exact leads_use use (by rw [hs]; rfl) (leads_resumeParse hs hc hg)
  | warm point =>
    rw [hs] at hg
    exact leads_replyWarm (by rw [hs]; rfl) (leads_resumeWarm point hg)
  | enter point =>
    rw [hs] at hg
    exact leads_enter (by rw [hs]; rfl) (leads_resumeWarm point hg)

/-! ## Steps -/

/-- An errand that wakes a task is a turn of the task. -/
theorem exists_step_turn (h : AtRest s roles) {i : Nat} {e : Errand Reply Hook} {t : PromiseId}
    (hi : s.loop.agenda[i]? = some e) (hw : e.woken? = some t) :
    ∃ roles', Step s roles (.serve i) (s.move (.serve i)) roles' := by
  obtain ⟨task, given, hwakes, heq⟩ := Program.serveAt_turn program lawful h.sound hi hw
  have ht := h.takeUp hwakes
  have hplaced := h.placed (place?_of_get? hwakes.unfinished)
  obtain ⟨m, hst, hs, hend⟩ := leads_resumeCall hplaced.coherent rfl ⟨ht, roles, .refl⟩
  obtain ⟨⟨turn, s'⟩, hres⟩ : ∃ x : Turn Stage Reply × Service,
      Calls.resume task.point (Program.met task given) { s with loop := s.loop.pick i } = x :=
    ⟨_, rfl⟩
  simp only [hres] at hs hend
  subst hs
  have hmove : s.move (.serve i) =
      { m.service with loop := Program.conclude t turn m.service.loop } := by
    refine heq.trans ?_
    have hrun : program.resume t task.point (Program.met task given) (program.change s (·.pick i)) =
        (turn, m.service) := hres
    rw [hrun]
    rfl
  rw [hmove]
  exact ⟨m.roles, .turn hwakes hst hres hend⟩

theorem act_cancelBoot_eq (s : Service) : s.move (.act .cancelBoot) =
    match s.bootFlight.entries.get? () with
    | some t => { s with loop := s.loop.cancelTask t }
    | none => s := by
  cases he : s.bootFlight.entries.get? () <;>
    simp [move, act, StateT.run, he]

theorem act_cancelGrammar_eq (s : Service) (language : String) :
    s.move (.act (.cancelGrammar language)) =
      match s.grammarFlight.entries.get? language with
      | some t => { s with loop := s.loop.cancelTask t }
      | none => s := by
  cases he : s.grammarFlight.entries.get? language <;>
    simp [move, act, StateT.run, he]

/-- Ending a lease settles the gate of its holder. -/
theorem act_endLease_eq (s : Service) (t : PromiseId) (fault : Option Fault) :
    s.move (.act (.endLease t fault)) =
      match s.gate? t with
      | some gate =>
        let outcome := match fault with | some f => .failed f | none => .value .nothing
        { s with loop := s.loop.settle gate outcome }
      | none => s := by
  cases hg : s.gate? t <;> cases fault <;>
    simp [move, act, StateT.run, hg]

/-- A job is done if there is one at the position. -/
theorem act_release_eq (s : Service) (position : Int) : s.move (.act (.release position)) = s ∨
    ∃ i t, s.workers.queue[i]? = some t ∧ s.move (.act (.release position)) = (Work.workOff i s).2 := by
  by_cases hq : 0 < s.workers.queue.length
  · cases hi : s.workers.queue[(position % s.workers.queue.length).toNat]? with
    | none =>
      refine .inl ?_
      simp [move, act, StateT.run, hq, Work.workOff, hi]
    | some t =>
      refine .inr ⟨_, t, hi, ?_⟩
      simp [move, act, StateT.run, hq]
  · refine .inl ?_
    simp [move, act, StateT.run, hq]

theorem exists_step_act (a : Service.Action) :
    ∃ roles', Step s roles (.act a) (s.move (.act a)) roles' := by
  cases a with
  | spawn call => exact ⟨_, .spawned call⟩
  | release position =>
    rcases act_release_eq s position with he | ⟨i, t, hi, he⟩
    · rw [he]
      exact ⟨roles, .idle _ (fun _ h => by cases h)⟩
    · rw [he]
      exact ⟨roles, .workedOff hi⟩
  | cancel t => exact ⟨roles, .cancelled t (.inl rfl)⟩
  | endLease t fault =>
    rw [act_endLease_eq]
    cases hg : s.gate? t with
    | none => exact ⟨roles, .idle _ (fun _ h => by cases h)⟩
    | some gate => exact ⟨roles, .leaseEnded hg fault⟩
  | cancelBoot =>
    rw [act_cancelBoot_eq]
    cases he : s.bootFlight.entries.get? () with
    | none => exact ⟨roles, .idle _ (fun _ h => by cases h)⟩
    | some t => exact ⟨roles, .cancelled t (.inr (.inl ⟨rfl, he⟩))⟩
  | cancelGrammar language =>
    rw [act_cancelGrammar_eq]
    cases he : s.grammarFlight.entries.get? language with
    | none => exact ⟨roles, .idle _ (fun _ h => by cases h)⟩
    | some t => exact ⟨roles, .cancelled t (.inr (.inr ⟨language, rfl, he⟩))⟩

/-- Every move is a step. -/
theorem exists_step (h : AtRest s roles) (mv : Service.Move) :
    ∃ roles', Step s roles mv (s.move mv) roles' := by
  cases mv with
  | serve i =>
    cases hi : s.loop.agenda[i]? with
    | none =>
      have he : s.move (.serve i) = s := Program.serveAt_none program hi
      rw [he]
      exact ⟨roles, .idle _ fun j hj => by cases hj; exact hi⟩
    | some e =>
      cases hw : e.woken? with
      | some t => exact exists_step_turn h hi hw
      | none =>
        by_cases hk : ∀ k p, e ≠ .react (.hook k) p
        · have he : s.move (.serve i) = _ := Program.serveAt_other program lawful hi hw hk
          rw [he]
          exact ⟨roles, .carried hi hw hk⟩
        · simp only [not_forall, not_not] at hk
          obtain ⟨hook, op, rfl⟩ := hk
          have he : s.move (.serve i) = _ := Program.serveAt_hook program hi
          rw [he]
          exact ⟨roles, .forgotten hi⟩
  | expire => exact ⟨roles, .expired⟩
  | act a => exact exists_step_act a
  | clock time =>
    by_cases hlt : s.loop.now < time
    · have he : s.move (.clock time) = { s with loop := { s.loop with now := time } } := if_pos hlt
      rw [he]
      exact ⟨roles, .clocked time⟩
    · have he : s.move (.clock time) = s := if_neg hlt
      rw [he]
      exact ⟨roles, .idle _ (fun _ h => by cases h)⟩

end SourceTrees.Service
