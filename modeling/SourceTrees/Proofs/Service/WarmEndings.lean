import SourceTrees.Proofs.Service.WarmFaults

/-!
# Every warm-up ends

Whatever is asked for, a warm-up that waits is woken: by the boot, and then by its requests for parsers, all of
which end.  So every warm-up ends in a fair run, and it ends with its answer unless its look for the grammars
has raised a fault, or somebody has cancelled it or a request of its own.

## Protocol

* A warm-up waits for the boot at most once, and for its requests at most once.  It has its requests counted
  when it begins to wait for them, and nobody else's.
* That a warm-up ends rests on nothing but fairness; with what it ends, on engines and grammars that raise
  ordinary faults.

## Results

* `Service.WarmWaits` — what is known of a warm-up that waits.
* `Service.falls_warm`, `Service.Fair.warm_up_ends` — every warm-up ends.
* **`Service.warm_ends`** — how every warm-up ends.
* `Service.warm_ends_brokenPackage` — a fault of a package comes out of the warm-up.
-/

set_option autoImplicit false

namespace SourceTrees

open Loop

namespace Warmup

/-- Having parsers asked for, a warm-up waits for them. -/
theorem goesTo_booted (languages : List Json) (result : Except Fault Unit) :
    Work.GoesTo (fun point => ∃ members, point = .gathering languages members) (booted languages result) := by
  unfold booted
  cases result with
  | ok u =>
    dsimp only
    unfold gather
    split
    · exact .done true
    · exact .bind fun members => .bind fun g => fun _ => ⟨members, rfl⟩
  | error f =>
    dsimp only
    split
    · exact .bind fun _ => .done false
    · exact .fail f

/-- Having gone over what came of the languages, a warm-up waits no more. -/
theorem goesTo_review {R : WarmStage → Prop} (ends : List (Json × Except Fault Unit)) :
    ∀ all, Work.GoesTo R (review ends all) := by
  induction ends with
  | nil => exact fun all => .done all
  | cons e ends ih =>
    intro all
    obtain ⟨language, result⟩ := e
    cases result with
    | ok u => exact .bind fun _ => ih all
    | error f =>
      unfold review
      split
      · exact .bind fun _ => ih _
      · exact .fail f

/-- After the boot it waits for the parsers, and after that no more. -/
theorem goesTo_resume (point : WarmStage) (given : Except Fault Reply) :
    Work.GoesTo (fun point' => ∃ languages members, point = .booting languages ∧
      point' = .gathering languages members) (resume point given) := by
  cases point with
  | booting languages =>
    cases given with
    | ok v => exact (goesTo_booted languages _).mono fun point ⟨members, h⟩ => ⟨languages, members, rfl, h⟩
    | error f => exact (goesTo_booted languages _).mono fun point ⟨members, h⟩ => ⟨languages, members, rfl, h⟩
  | gathering languages members =>
    cases given with
    | error f => exact .fail f
    | ok v => exact .bind fun s => goesTo_review _ _

end Warmup

namespace Service

variable {s s' : Service} {roles roles' : Roles Hook Job} {w : Woken} {m : Midst} {t c : PromiseId}
  {point : Stage} {on : Option PromiseId} {turn : Turn Stage Reply} {call : Call} {wrap : WarmStage → Stage}
  {answer : Bool → Reply}

/-! ## Warm-ups -/

namespace WarmsUp

variable {n : Nat} (h : WarmsUp call wrap answer)

include h

/-- A warm-up has one turn yet at most where it waits. -/
theorem rank_lt_two (point : WarmStage) : (wrap point).rank n < 2 := by
  cases h <;> cases point with
  | booting languages => exact Nat.one_lt_two
  | gathering languages members => exact Nat.zero_lt_two

theorem rank_gathering_lt (languages : List Json) (members : List PromiseId) :
    (wrap (.gathering languages members)).rank n < (wrap (.booting languages)).rank n := by
  cases h <;> exact Nat.zero_lt_one

/-- With what a warm-up comes to, its call ends. -/
theorem goesTo_warmed (result : Except Fault Bool) : Work.GoesTo (fun _ => False) (call.warmed result) := by
  cases h with
  | warm languages => exact fun _ => trivial
  | enter =>
    cases result with
    | ok all => cases all <;> exact .bind fun _ => .done _
    | error f =>
      show Work.GoesTo _ (Calls.entered (.error f))
      unfold Calls.entered
      dsimp only
      split
      · exact .bind fun _ => .bind fun closed => by cases closed <;> exact .fail _
      · exact .bind fun closed => by cases closed <;> exact .fail _

end WarmsUp

/-- A warm-up that comes to wait for its requests does not wait in vain. -/
def WarmHears : Turn WarmStage Bool → Midst → Prop
  | .rest g (.gathering _ members), m => m.service.loop.Hears g members
  | _, _ => True

theorem length_spawnAll (languages : List Json) : ∀ s : Service,
    (languages.mapM (fun l => (Work.onLoop (·.spawn (.start (.getParser l))) : Work PromiseId)) s).1.length =
      languages.length := by
  induction languages with
  | nil => exact fun s => rfl
  | cons l languages ih =>
    intro s
    rw [List.mapM_cons, Work.run_bind, Work.run_bind]
    exact congrArg (· + 1) (ih _)

theorem leads_hears_gather (languages : List Json) :
    Leads w m (Warmup.gather languages m.service) WarmHears := by
  unfold Warmup.gather
  split
  · exact .pure trivial
  · rename_i hne
    refine .bind ((leads_spawnAll languages m).result.mono fun members m' h => ?_)
    obtain ⟨⟨-, -, hall⟩, hresult⟩ := h
    have hlength := length_spawnAll languages m.service
    rw [hresult] at hlength
    refine .of_inTurn fun ht => .bind (.stride (.grouped fun t ht => (hall t ht).1) (.pure (.pure ?_)))
    refine Hears.group ht.ordered.sound.assigned (fun t htm => ?_) ?_
    · exact ht.ordered.sound.assigned.lt_size (by simp [(hall t htm).1])
    · rintro rfl
      exact hne (by simpa using hlength.symm)

theorem leads_hears_booted (languages : List Json) (result : Except Fault Unit) :
    Leads w m (Warmup.booted languages result m.service) WarmHears := by
  unfold Warmup.booted
  cases result with
  | ok u => exact leads_hears_gather languages
  | error f =>
    dsimp only
    split
    · exact .bind (.log _ (.pure trivial))
    · exact .pure trivial

namespace Woken.Warms

variable {f : Work (Turn WarmStage Bool)} {call : Call} {wrap : WarmStage → Stage} {answer : Bool → Reply}

/-- What is known of the part of a turn that is the warm-up's. -/
theorem leads (h : w.Warms call wrap f) (roles : Roles Hook Job) (hcall : WarmsUp call wrap answer) :
    ∃ R, Leads w ⟨w.before, roles, w.stage.grip⟩ (f w.before) (WarmEnds w R) := by
  cases h with
  | begins hs hg => exact ⟨_, leads_requestWarm (m := ⟨w.before, roles, w.stage.grip⟩) _ (by rw [hs]; rfl)⟩
  | goesOn hs =>
    exact ⟨_, leads_resumeWarm (m := ⟨w.before, roles, w.stage.grip⟩) _ (by rw [hs]; exact hcall.grip_wrap _)⟩

theorem leads_hears (h : w.Warms call wrap f) (roles : Roles Hook Job) (hcall : WarmsUp call wrap answer) :
    Leads w ⟨w.before, roles, w.stage.grip⟩ (f w.before) WarmHears := by
  cases h with
  | begins hs hg =>
    refine .bind (.log _ (.bind (.pure (.bind ((leads_probe _).mono fun r m₁ _ => ?_)))))
    cases r with
    | error f => exact .pure trivial
    | ok found =>
      refine .bind (.log _ (.bind (.mono leads_attachBoot fun r m' hr => ?_)))
      cases r with
      | some p => exact .pure trivial
      | none =>
        obtain ⟨rfl, -⟩ := hr
        exact leads_hears_booted _ _
  | @goesOn point hs =>
    cases point with
    | booting languages => cases w.given <;> exact leads_hears_booted (m := ⟨w.before, roles, _⟩) languages _
    | gathering languages members =>
      -- A warm-up that has waited for its requests waits no more.
      have hgrip : w.stage.grip = .free := by rw [hs]; exact hcall.grip_wrap _
      refine (leads_resumeWarm (m := ⟨w.before, roles, w.stage.grip⟩) _ hgrip).result.mono fun turn m' hm => ?_
      have hgoes := Warmup.goesTo_resume (.gathering languages members) w.given w.before
      rw [show Warmup.resume (.gathering languages members) w.given w.before = _ from hm.2] at hgoes
      cases turn with
      | rest on point =>
        obtain ⟨_, _, he, -⟩ := hgoes
        cases he
      | giveWay point => trivial
      | finish result => trivial

/-- Each turn brings a warm-up nearer to its end. -/
theorem goesTo (h : w.Warms call wrap f) (hcall : WarmsUp call wrap answer) :
    (f w.before).1.GoesTo fun point => ∀ n, (wrap point).rank n < w.stage.rank n := by
  cases h with
  | begins hs hg =>
    refine Work.GoesTo.always (fun point n => ?_) _ _
    rw [hs]
    exact hcall.rank_lt_two point
  | goesOn hs =>
    refine (Warmup.goesTo_resume _ _).mono (fun point h n => ?_) _
    obtain ⟨languages, members, rfl, rfl⟩ := h
    rw [hs]
    exact hcall.rank_gathering_lt languages members

end Woken.Warms

section

variable {f : Work (Turn WarmStage Bool)} {call : Call} {wrap : WarmStage → Stage} {answer : Bool → Reply}

/-- A warm-up has not begun yet, or it waits for the boot, or for its requests and not in vain. -/
inductive WarmWaits (call : Call) (wrap : WarmStage → Stage) (s : Service) (point : Stage) :
    Option PromiseId → Prop
  | begins {on : Option PromiseId} (hs : point = .start call) : WarmWaits call wrap s point on
  | booting {on : Option PromiseId} {languages : List Json} (hs : point = wrap (.booting languages)) :
    WarmWaits call wrap s point on
  | gathering {g : PromiseId} {languages : List Json} {members : List PromiseId}
    (hs : point = wrap (.gathering languages members)) (hears : s.loop.Hears g members)
    (asked : ∀ t ∈ members, s.ParserAwaited t) : WarmWaits call wrap s point (some g)

/-- A turn in which the warm-up goes on ends its call, or lets it wait nearer to its end. -/
theorem HasTurn.warm_falls (ht : HasTurn s roles w m turn) (hf : w.Warms call wrap f)
    (hcall : WarmsUp call wrap answer) :
    (∃ o, (m.after w.task turn).loop.outcome? w.task = some o) ∨
      ∃ point on, (m.after w.task turn).loop.place? w.task = some (point, on) ∧
        WarmWaits call wrap (m.after w.task turn) point on ∧ ∀ n, point.rank n < w.stage.rank n := by
  obtain ⟨R, hleads⟩ := hf.leads roles hcall
  obtain ⟨part, after, hres⟩ : ∃ part after, f w.before = (part, after) := ⟨_, _, rfl⟩
  have hgoes := hf.goesTo hcall
  rw [hres] at hgoes
  cases part with
  | rest on stage =>
    obtain ⟨hturn, hsame⟩ := ht.warm_rests hf hcall hres
    have hasks := ht.warm_asks hf hcall hleads hres
    refine .inr ⟨wrap stage, some on, by rw [hturn, place?_conclude, if_pos rfl], ?_, hgoes⟩
    cases stage with
    | booting languages => exact .booting rfl
    | gathering languages members =>
      refine .gathering rfl ?_ fun t hmem => ?_
      · obtain ⟨m', -, hm, hears⟩ := hf.leads_hears roles hcall ⟨ht.started, roles, .refl⟩
        rw [hres] at hm hears
        replace hears : m'.service.loop.Hears on members := hears
        rw [hm.trans hsame.symm] at hears
        exact hears.mono (.conclude _ _) (.conclude _ _)
      · obtain ⟨language, hp⟩ := hasks t hmem
        exact .inl ⟨_, _, hp, .inl ⟨language, rfl⟩⟩
  | giveWay stage =>
    obtain ⟨m', -, -, hends⟩ := hleads ⟨ht.started, roles, .refl⟩
    rw [hres] at hends
    exact hends.elim
  | finish result =>
    refine .inl (ht.ended_of_goesTo ?_)
    rw [hf.resume hcall, Work.run_bind, hres]
    exact hcall.goesTo_warmed result after

theorem falls_warm (hcall : WarmsUp call wrap answer) (c : Config) :
    Falls c (Stage.rank c.bootAttempts.toNat) (WarmWaits call wrap) where
  turn {s roles w m turn on} ho hc ht hp hK := by
    have hwarms : (∃ f, w.Warms call wrap f) →
        (∃ o, (m.after w.task turn).loop.outcome? w.task = some o) ∨
          ∃ point on, (m.after w.task turn).loop.place? w.task = some (point, on) ∧
            WarmWaits call wrap (m.after w.task turn) point on ∧
              point.rank c.bootAttempts.toNat < w.stage.rank c.bootAttempts.toNat := by
      rintro ⟨f, hf⟩
      exact (ht.warm_falls hf hcall).imp_right fun ⟨point, on, hp, hK, hlt⟩ => ⟨point, on, hp, hK, hlt _⟩
    cases hK with
    | begins hs =>
      cases hg : w.given with
      | ok v => exact hwarms ⟨_, .begins hs hg⟩
      | error f =>
        refine .inl (ht.ended_of_goesTo ?_)
        rw [hs, hg]
        trivial
    | booting hs => exact hwarms ⟨_, .goesOn hs⟩
    | gathering hs hears asked => exact hwarms ⟨_, .goesOn hs⟩
  stay ho hst hK := by
    cases hK with
    | begins hs => exact .begins hs
    | booting hs => exact .booting hs
    | gathering hs hears asked =>
      exact .gathering hs (hst.hears hears).hears fun t hmem => (asked t hmem).step ho hst
  waits ho hu hc hf hp hK := by
    cases hK with
    | begins hs =>
      have hrest := (ho.placed hp).rest
      rw [hs] at hrest
      cases hrest
    | booting hs => exact hf.shield_settles ho hu hp (by rw [hs]; exact hcall.rest_wrap _)
    | gathering hs hears asked => exact hf.group_settles ho hears fun t hmem => hf.parser_ends ho hu (asked t hmem)

end

/-! ## Runs -/

/-- In a fair run a warm-up ends that has begun before. -/
theorem Fair.warm_up_ends (config : Config) (world : World) (eager : Bool) (stuck : Option Fault)
    (log : List LogLine) {ms : List Service.Move} {f : Nat → Service.Move} (hcall : WarmsUp call wrap answer)
    (hc : Began (opened config world eager stuck log) ms call c)
    (hf : Fair ((opened config world eager stuck log).moves ms) f) :
    ∃ n, (((opened config world eager stuck log).moves ms).moves (upTo f n)).isFinished c = true := by
  obtain ⟨before, after, rfl, rfl⟩ := hc
  obtain ⟨roles₁, ho₁, -, hu₁⟩ := exists_atRest (I := Underway) (fun ho _ hu hst => hu.step ho hst) before
    (Ordered.opened config world eager stuck log).rest (.opened ..)
  rw [moves_append] at hf ⊢
  generalize (opened config world eager stuck log).moves before = s at *
  obtain ⟨roles₂, hst⟩ := exists_step ho₁ (.act (.spawn call))
  -- When the fair run begins the warm-up has ended, or it waits and not in vain.
  obtain ⟨roles₃, ho₃, -, hu₃, -, h⟩ := exists_atRest
    (I := fun now roles => Underway now roles ∧ now.config = s.config ∧
      ((∃ o, now.loop.outcome? s.loop.promises.size = some o) ∨
        ∃ point on, now.loop.place? s.loop.promises.size = some (point, on) ∧ WarmWaits call wrap now point on))
    (fun ho _ ⟨hu, hc, h⟩ hst =>
      ⟨hu.step ho hst, (hst.engine_named ho).1.trans hc, (falls_warm hcall _).step ho hc hst h⟩) after
    (ho₁.step hst).1
    ⟨hu₁.step ho₁ hst, (hst.engine_named ho₁).1, .inr ⟨_, _, place?_spawned s call, .begins rfl⟩⟩
  replace hf : Fair ((s.move (.act (.spawn call))).moves after) f := hf
  have hends : ∃ n o, (((s.move (.act (.spawn call))).moves after).moves (upTo f n)).loop.outcome?
      s.loop.promises.size = some o := by
    rcases h with ⟨o, hout⟩ | ⟨point, on, hp, hK⟩
    · exact ⟨0, o, hout⟩
    · exact (falls_warm hcall _).ends ho₃ hu₃ rfl hf hp hK
  obtain ⟨n, o, hout⟩ := hends
  exact ⟨n, congrArg not (isPending_of_outcome? hout)⟩

/-- **Every warm-up ends, and none fails but by its own look for the grammars.**  On any configuration and in any
    world that raises ordinary faults only, whatever else is called: a warm-up that has ended has ended with its
    answer, in a cancellation, or with a fault that its own look has raised; and it ends if the run is fair. -/
theorem warm_ends (config : Config) (world : World) (eager : Bool) (stuck : Option Fault) (log : List LogLine)
    (ms : List Service.Move) (hw : world.RaisesWell) (hstuck : ∀ f ∈ stuck, f.kind.isOrdinary = true)
    (hsp : Along SparesOperations (opened config world eager stuck log) ms) (hcall : WarmsUp call wrap answer)
    (hc : Began (opened config world eager stuck log) ms call c) :
    (∀ o, ((opened config world eager stuck log).moves ms).loop.outcome? c = some o →
      WarmUpEnded answer (LookRaised (opened config world eager stuck log) ms call c)
        (WarmCancelled (CancelledIn (opened config world eager stuck log) ms)
          (opened config world eager stuck log) ms wrap c) o) ∧
    ∀ f, Fair ((opened config world eager stuck log).moves ms) f →
      ∃ n, (((opened config world eager stuck log).moves ms).moves (upTo f n)).isFinished c = true :=
  ⟨fun _ hout => warmUpEnded_of_began config world eager stuck log ms hw hstuck hsp hcall hc hout,
    fun _ hf => hf.warm_up_ends config world eager stuck log hcall hc⟩

/-- A package that cannot be imported, with the module of a grammar in it. -/
def brokenPackage : World where
  modules :=
    (Keyed.empty.put "pkg" { imports := ⟨[some (.plain .running "broken package")]⟩ }).put "pkg.lang"
      { members := Keyed.empty.put "language" (.pointer (.str "python")) }

/-- The grammar of a language is in the package. -/
def packedGrammar : Config where
  locators := .ofList [("python", "pkg.lang:language")]

/-- A warm-up is asked for, and has its first turn. -/
def warmedOnce : List Service.Move := [.act (.spawn (.warm (some [.str "python"]))), .serve 0]

/-- The look for the grammar imports the package, and its fault comes out of the warm-up. -/
theorem warm_ends_brokenPackage :
    brokenPackage.RaisesWell ∧
      Along SparesOperations (opened packedGrammar brokenPackage true none []) warmedOnce ∧
      ∃ f, ((opened packedGrammar brokenPackage true none []).moves warmedOnce).loop.outcome? 0 =
          some (.failed f) ∧
        f.kind = .running ∧
        WarmUpEnded .flag (LookRaised (opened packedGrammar brokenPackage true none []) warmedOnce
            (.warm (some [.str "python"])) 0)
          (WarmCancelled (CancelledIn (opened packedGrammar brokenPackage true none []) warmedOnce)
            (opened packedGrammar brokenPackage true none []) warmedOnce .warm 0) (.failed f) := by
  have hparses : brokenPackage.parses.entries = [] := rfl
  have hw : brokenPackage.RaisesWell := .of_entries (by decide +kernel) (by simp [hparses])
  have hsp : Along SparesOperations (opened packedGrammar brokenPackage true none []) warmedOnce := by
    decide +kernel
  have hc : Began (opened packedGrammar brokenPackage true none []) warmedOnce
      (.warm (some [.str "python"])) 0 := ⟨[], _, rfl, by decide +kernel⟩
  have hfault : ((((opened packedGrammar brokenPackage true none []).moves warmedOnce).loop.outcome? 0).bind
      Settled.fault?).map Fault.kind = some .running := by
    decide +kernel
  obtain ⟨f, hf, hk⟩ := Option.map_eq_some_iff.1 hfault
  obtain ⟨_, hout, ho⟩ := Option.bind_eq_some_iff.1 hf
  cases Settled.eq_failed_of_fault? ho
  have hends := warm_ends packedGrammar brokenPackage true none [] warmedOnce hw (fun _ h => by cases h) hsp
    (.warm _) hc
  exact ⟨hw, hsp, f, hout, hk, hends.1 _ hout⟩

end Service

end SourceTrees
