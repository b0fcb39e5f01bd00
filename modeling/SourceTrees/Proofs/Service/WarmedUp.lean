import SourceTrees.Proofs.Service.Warming

/-!
# What the answer of a warm-up means

The turns of a warm-up that is the only call are put together for runs.  When it has returned its answer tells
whether the engine is ready and all parsers are in the pool.  A boot that has failed leaves both caches as they
were; otherwise the pool has gained the languages whose grammars have been loaded and whose parsers have been
constructed, whatever has become of the others.

## Protocol

* Every case is one of how far the warm-up has come: it begins, its boot has a turn or has ended, a request or
  a load has a turn, or all requests have ended.

## Results

* `Service.Warming.turned` — every turn keeps a warm-up; `Service.Warming.step` — so does every quiet step.
* `Service.WarmedUp` — the law of a warm-up that has returned.
* **`Service.warms_up`** — it holds of every warm-up that is the only call.
-/

set_option autoImplicit false

namespace SourceTrees.Service

open Loop

variable {S s s' : Service} {roles roles' : Roles Hook Job} {w : Woken} {m : Midst} {mv : Service.Move}
  {ms : List Service.Move} {name : String} {language : Json} {languages : List Json} {c g op q : PromiseId}
  {turn : Turn Stage Reply} {n : Nat} {o : Settled Reply} {task : Json → PromiseId}
  {asked : Option (List Json)}

/-! ## Turns -/

section

variable (ho : AtRest s roles) (ht : HasTurn s roles w m turn)
  (hst : Step s roles mv (m.after w.task turn) m.roles) (hp : Tranquil n s roles)
  (hp' : Tranquil n (m.after w.task turn) m.roles) (hnow : S.moves ms = s)
  (hnext : S.moves (ms ++ [mv]) = m.after w.task turn)

include ho ht hst hp hp' hnow hnext

/-- The boot goes on that the warm-up waits for. -/
theorem Warming.of_operation (hpc : s.loop.place? c = some (.warm (.booting (S.requested asked)), some q))
    (hq : roles q = .shield w.task) (hw : s.AtWork fun t => t = c ∨ t = w.task) (hs : Cold S s ms)
    (hbegun : CameTo (· = .boot .start) S ms w.task)
    (hb : ∀ op, CameTo (· = .boot .start) S ms op → op = w.task) :
    Warming S (m.after w.task turn) (ms ++ [mv]) m.roles c asked := by
  obtain ⟨hbefore, hpoolBefore, -⟩ := ht.knows_before
  obtain ⟨ho', hext⟩ := ho.step hst
  have hrest := (ho.placed hpc).rest
  obtain ⟨_, op, he, hshield, hrole⟩ := hrest
  cases he
  cases hq.symm.trans hshield
  obtain ⟨on, hown⟩ := ht.place
  have hopen := ho.isPending_of_place? hown
  have hstage : w.stage.role = .operation .boot := (ho.placed hown).role.symm.trans hrole
  obtain ⟨point, hboot⟩ := Stage.exists_of_role_boot hstage
  have hne : c ≠ w.task := by
    rintro rfl
    cases (ho.placed hpc).role.symm.trans hrole
  have hx : Starts (fun _ => False) w.before m.service := by
    have hx := Calls.starts_operation (X := fun _ => False) hstage w.given w.before
    rwa [ht.resumed] at hx
  have hremote : Remote w.before m.service := by
    have hr := @Calls.remote_resume w.stage (by rw [hboot]; rfl) (by rw [hboot]; rfl) w.given w.before
    rwa [ht.resumed] at hr
  have hgrammars : m.service.grammars = w.before.grammars := by
    refine ht.strides.grammars_cases.resolve_right ?_
    rintro ⟨language, locator, r, hfetch, -⟩
    cases hboot.symm.trans hfetch
  have hwork : (m.after w.task turn).AtWork fun t => t = c ∨ t = w.task := by
    intro t point on hp
    by_cases he : t = w.task
    · exact .inr he
    · exact hw _ _ _ ((ht.place_cases hx he hp).resolve_right And.right)
  have hplace := ht.stays ho hne hpc
  refine .booting hplace (hext.eq hq (by simp)) hwork (hs.stays hnow hnext hp hp'
    (hremote.pool.trans hpoolBefore) (hgrammars.trans hbefore.grammars)) (fun hr => ?_)
    (hbegun.append [mv]) fun op hc => ?_
  · rcases ht.strides.ready_cases hr with hready | ⟨attempt, r, hs, hgiven⟩
    · exact absurd (hbefore.phase ▸ hready) (hp.loaded.engined.booting.not_ready hrole hopen)
    · have hres := congrArg Prod.fst ht.resumed
      rw [hs, hgiven] at hres
      exact ⟨_, ht.outcome?_of_finish (congrArg Prod.fst ht.resumed |>.trans hres.symm)⟩
  · rcases hc.of_snoc with hold | ⟨point, on, hp, rfl⟩
    · exact hb op hold
    · rw [hnext] at hp
      refine (hwork _ _ _ hp).resolve_left ?_
      rintro rfl
      cases hplace.symm.trans hp

/-- The boot has ended for which the warm-up has waited. -/
theorem Warming.of_booted (hnd : (S.requested asked).Nodup)
    (hstage : w.stage = .warm (.booting (S.requested asked)))
    (hpc : s.loop.place? w.task = some (w.stage, some q)) (hq : roles q = .shield op)
    (hw : s.AtWork fun t => t = w.task ∨ t = op) (hs : Cold S s ms)
    (hready : s.phase = .ready → ∃ v, s.loop.outcome? op = some (.value v))
    (hbegun : CameTo (· = .boot .start) S ms op) (hb : ∀ op', CameTo (· = .boot .start) S ms op' → op' = op) :
    Warming S (m.after w.task turn) (ms ++ [mv]) m.roles w.task asked := by
  obtain ⟨hbefore, hpoolBefore, -⟩ := ht.knows_before
  obtain ⟨o, hout, hne, hgiven⟩ := ht.given_undisturbed (hp.undisturbed _) hpc
  have hended := (ho.sound.assigned.taken hq hout).resolve_left hne
  have hrole : roles op = .operation .boot := by
    have hrest := (ho.placed hpc).rest
    rw [hstage] at hrest
    obtain ⟨_, op', he, hshield, hop⟩ := hrest
    cases he
    cases hq.symm.trans hshield
    exact hop
  -- Nobody is at work but the warm-up.
  have hw' : s.AtWork (· = w.task) := by
    intro t point on hp
    refine (hw t point on hp).resolve_right ?_
    rintro rfl
    rw [outcome?_of_isPending (ho.isPending_of_place? hp)] at hended
    cases hended
  rcases hp.loaded.engined.booting.ended hrole hended with ⟨⟨v, rfl⟩, hphase⟩ | ⟨f, rfl, hkind⟩
  · obtain ⟨turn', hturn, h⟩ := ht.of_warm (f := Warmup.gather (S.requested asked))
      (by rw [hstage, hgiven]; rfl) (P := AllAsked (S.requested asked) w.before) (leads_allAsked hnd)
    exact .of_allAsked ho ht hst hp hp' hnow hnext hw' hs hphase
      (fun op' hc => hb op' hc ▸ ⟨v, hended⟩) (by rw [hstage]; nofun) h hturn
  · have hres := ht.resumed
    have hbooted : Warmup.booted (S.requested asked) (.error f) w.before = (.finish (.ok false), { w.before with
        log := w.before.log ++ [.warning ("Parsing engine could not be booted: " ++ f.message)] }) := by
      rw [Warmup.booted, if_pos hkind]
      rfl
    have hresume : Calls.resume w.stage w.given w.before =
        (do Calls.replying (← Warmup.booted (S.requested asked) (.error f)) Stage.warm Reply.flag :
          Work (Turn Stage Reply)) w.before := by
      rw [hstage, hgiven]
      rfl
    rw [hresume, Work.run_bind, hbooted] at hres
    obtain ⟨hturn, hservice⟩ := Prod.mk.inj hres
    replace hturn : turn = .finish (.ok (.flag false)) := hturn.symm
    replace hservice : m.service = { w.before with
        log := w.before.log ++ [.warning ("Parsing engine could not be booted: " ++ f.message)] } :=
      hservice.symm
    refine .ended (ht.outcome?_of_finish (congrArg Prod.fst ht.resumed |>.trans hturn))
      (ht.atWork_finish hturn (by rw [hservice]) fun hp => hw' _ _ _ hp)
      (.unbooted (fun hr => ?_) ⟨op, f, hbegun.append [mv], ?_⟩ (hs.stays hnow hnext hp hp' ?_ ?_))
    · have hr : s.phase = .ready := by
        rw [← hbefore.phase, ← hr]
        show _ = m.service.phase
        rw [hservice]
      obtain ⟨v, hv⟩ := hready hr
      cases hended.symm.trans hv
    · rw [hnext]
      exact hst.outcome?_of_some hended
    · show m.service.pool = _
      rw [hservice, ← hpoolBefore]
    · show m.service.grammars = _
      rw [hservice, ← hbefore.grammars]

/-- All requests have ended for which the warm-up has waited. -/
theorem Warming.of_gathered (hconfig : s.config = S.config)
    (hstage : w.stage = .warm (.gathering (S.requested asked) ((S.requested asked).map task)))
    (hpc : s.loop.place? w.task = some (w.stage, some g))
    (hg : s.loop.Gathers g ((S.requested asked).map task)) (hready : s.phase = .ready) (hb : BootedWell S s ms)
    (hw : ∀ {t point on}, s.loop.place? t = some (point, on) →
      t = w.task ∨ ∃ l ∈ S.requested asked, point.concerns l)
    (hsome : s.turnOf? mv = some w)
    (hasked : ∀ l ∈ S.requested asked, CameTo (· = .start (.getParser l)) S ms (task l))
    (hsought : ∀ l ∈ S.requested asked, Sought S s ms roles l (task l))
    (hothers : ∀ name, .str name ∉ S.requested asked → LeftAlone S s ms name) :
    Warming S (m.after w.task turn) (ms ++ [mv]) m.roles w.task asked := by
  obtain ⟨hbefore, hpoolBefore, -, hpromises, -⟩ := ht.knows_before
  have hends := ht.all_ended (hp.undisturbed _) hpc hg
  -- All requests have come to their fates.
  have hfates : ∀ l ∈ S.requested asked, ∃ o, s.loop.outcome? (task l) = some o ∧ Fate S s ms l o ∧
      ∀ {t point on}, s.loop.place? t = some (point, on) → ¬ point.concerns l := by
    intro l hl
    obtain ⟨o, hout⟩ := hends _ (List.mem_map_of_mem hl)
    cases hsought l hl with
    | begun hp hw hs =>
      rw [outcome?_of_isPending (ho.isPending_of_place? hp)] at hout
      cases hout
    | loading hl hp hq hw hn hs hbegun hk =>
      rw [outcome?_of_isPending (ho.isPending_of_place? hp)] at hout
      cases hout
    | ended hout' hw hf => exact ⟨_, hout', hf, hw⟩
  have hw' : ∀ {t point on}, s.loop.place? t = some (point, on) → t = w.task := fun hplace =>
    (hw hplace).resolve_right fun ⟨l, hl, hc⟩ => by
      obtain ⟨o, -, -, hnone⟩ := hfates l hl
      exact hnone hplace hc
  obtain ⟨v, hgiven⟩ : ∃ v, w.given = .ok v := by
    have hrest := (ho.placed hpc).rest
    rw [hstage] at hrest
    obtain ⟨_, he, hgroup⟩ := hrest
    cases he
    obtain ⟨o, hout, hne, hgiven⟩ := ht.given_undisturbed (hp.undisturbed _) hpc
    cases o with
    | value v => exact ⟨v, hgiven⟩
    | failed f => exact absurd hout ((hp.undisturbed _).gathered hpc hgroup f)
    | cancelled => exact absurd rfl hne
  -- The outcomes are matched with the languages by position.
  have hlooked : ∀ l ∈ S.requested asked,
      ((∃ name, l = .str name ∧ s.pool.contains name = true) ∧ Warmup.endOf w.before (task l) = .ok ()) ∨
      ((¬ ∃ name, l = .str name ∧ s.pool.contains name = true) ∧
        ∃ f, Warmup.endOf w.before (task l) = .error f ∧ f.kind.isOwn = true) := by
    intro l hl
    obtain ⟨o, hout, hf, -⟩ := hfates l hl
    have hout' : w.before.loop.outcome? (task l) = some o := by
      rw [Loop.outcome?, hpromises]
      exact hout
    rcases hf.ended_cases with ⟨v, rfl⟩ | ⟨f, rfl, hown⟩
    · exact .inl ⟨(hf.pooled_iff hp hconfig).1 ⟨v, rfl⟩, by rw [Warmup.endOf, hout']⟩
    · refine .inr ⟨fun hc => ?_, f, by rw [Warmup.endOf, hout'], hown⟩
      obtain ⟨v, hv⟩ := (hf.pooled_iff hp hconfig).2 hc
      cases hv
  have hzip : (S.requested asked).zip (((S.requested asked).map task).map (Warmup.endOf w.before)) =
      (S.requested asked).map fun l => (l, Warmup.endOf w.before (task l)) := by
    rw [List.map_map, ← List.map_prod_left_eq_zip]
    rfl
  obtain ⟨log, hreview⟩ := review_eq
      ((S.requested asked).map fun l => (l, Warmup.endOf w.before (task l))) true w.before fun e he f hf => by
    obtain ⟨l, hl, rfl⟩ := List.mem_map.1 he
    rcases hlooked l hl with ⟨-, hend⟩ | ⟨-, f', hend, hown⟩
    · cases hend.symm.trans hf
    · cases hend.symm.trans hf
      exact hown
  have hres := ht.resumed
  have hresume : ∀ ends, (S.requested asked).zip (((S.requested asked).map task).map
      (Warmup.endOf w.before)) = ends → Calls.resume w.stage w.given w.before =
        (do Calls.replying (← Warmup.review ends true) Stage.warm Reply.flag :
          Work (Turn Stage Reply)) w.before := by
    rintro _ rfl
    rw [hstage, hgiven]
    rfl
  rw [hresume _ hzip, Work.run_bind, hreview] at hres
  obtain ⟨hturn, hservice⟩ := Prod.mk.inj hres
  replace hservice : m.service = { w.before with log } := hservice.symm
  have hbypassed : ∀ language, Bypasses S ms mv s (m.after w.task turn) roles language := by
    intro language
    refine ht.bypasses (X := fun _ => False) ho hst hnow hsome (by rw [hstage]; exact id)
      (fun {point on} hplace => ?_) (.of_tasks (by rw [hservice])) (fun _ h => h.elim)
      fun _ _ => by rw [hservice]
    rw [← hturn, place?_conclude, if_pos rfl] at hplace
    cases hplace
  have hphase : (m.after w.task turn).phase = .ready := by
    show m.service.phase = _
    rw [hservice]
    exact hbefore.phase.trans hready
  refine .ended (ht.outcome?_of_finish (congrArg Prod.fst ht.resumed |>.trans hturn.symm))
    (ht.atWork_finish hturn.symm (by rw [hservice]) hw') (.warmed {
      phase := hphase
      booted := hb.step ho hst hp' hnext hphase
      fates := fun l hl => ?_
      others := fun name hn => (hothers name hn).bypassed (hbypassed _)
      answer := ?_ })
  · obtain ⟨o, hout, hf, -⟩ := hfates l hl
    exact ⟨task l, o, (hasked l hl).append [mv], hst.outcome?_of_some hout, hf.bypassed (hbypassed l)⟩
  · have hpool : (m.after w.task turn).pool = s.pool := by
      show m.service.pool = _
      rw [hservice, ← hpoolBefore]
    rw [hpool, Bool.true_and, List.all_map, List.all_eq_true]
    refine forall₂_congr fun l hl => ?_
    rcases hlooked l hl with ⟨hpooled, hend⟩ | ⟨hpooled, f, hend, -⟩
    · exact iff_of_true (by simp [hend, Except.isOk, Except.toBool]) hpooled
    · exact iff_of_false (by simp [hend, Except.isOk, Except.toBool]) hpooled

/-- A request has its turn, or a load that one waits for. -/
theorem Warming.of_other (hconfig : s.config = S.config) (hmv : mv.isQuiet = true)
    (hsome : s.turnOf? mv = some w) (hne : c ≠ w.task)
    (hpc : s.loop.place? c =
      some (.warm (.gathering (S.requested asked) ((S.requested asked).map task)), some g))
    (hg : s.loop.Gathers g ((S.requested asked).map task)) (hready : s.phase = .ready) (hb : BootedWell S s ms)
    (hw : ∀ {t point on}, s.loop.place? t = some (point, on) →
      t = c ∨ ∃ l ∈ S.requested asked, point.concerns l)
    (hasked : ∀ l ∈ S.requested asked, CameTo (· = .start (.getParser l)) S ms (task l))
    (hsought : ∀ l ∈ S.requested asked, Sought S s ms roles l (task l))
    (hothers : ∀ name, .str name ∉ S.requested asked → LeftAlone S s ms name) :
    Warming S (m.after w.task turn) (ms ++ [mv]) m.roles c asked := by
  obtain ⟨on, hplace⟩ := ht.place
  obtain ⟨l, hl, hc⟩ := (hw hplace).resolve_left (Ne.symm hne)
  have hrest := (ho.placed hpc).rest
  obtain ⟨_, he, hgroup⟩ := hrest
  cases he
  have hphase : (m.after w.task turn).phase = .ready :=
    (EngineKept.of_hasTurn hp.loaded.engined.booting ht (hp.loaded.engined.bootsWell ht) hready).phase
  have hturned := (hsought l hl).comes_further ho ht hst hnow hnext hsome hc hp hp' hready hconfig
  refine .gathering (ht.stays ho hne hpc) (Step.gathers ho hst hmv hgroup hg) hphase
    (hb.step ho hst hp' hnext hphase) (fun hp => ?_) (fun l' hl' => (hasked l' hl').append [mv])
    (fun l' hl' => ?_) fun name hn => ?_
  · rcases hturned.work hp with hold | hc'
    · exact hw hold
    · exact .inr ⟨l, hl, hc'⟩
  · by_cases he : l' = l
    · exact he ▸ hturned.sought
    · exact (hsought l' hl').bypassed ho hst (hturned.others he)
  · refine (hothers name hn).bypassed (hturned.others ?_)
    rintro rfl
    exact hn hl

end

/-- **Every turn keeps a warm-up.** -/
theorem Warming.turned (h : Warming S s ms roles c asked) (ho : AtRest s roles)
    (ht : HasTurn s roles w m turn) (hst : Step s roles mv (m.after w.task turn) m.roles)
    (hmv : mv.isQuiet = true) (hsome : s.turnOf? mv = some w) (hp : Tranquil n s roles)
    (hp' : Tranquil n (m.after w.task turn) m.roles) (hnow : S.moves ms = s)
    (hnext : S.moves (ms ++ [mv]) = m.after w.task turn) (hconfig : s.config = S.config)
    (hnd : (S.requested asked).Nodup) : Warming S (m.after w.task turn) (ms ++ [mv]) m.roles c asked := by
  obtain ⟨on, hplace⟩ := ht.place
  cases h with
  | begun hpc hw hs hb =>
    obtain rfl := hw _ _ _ hplace
    obtain ⟨hstage, -⟩ := Prod.mk.inj (Option.some.inj (hplace.symm.trans hpc))
    exact .of_begun ho ht hst hp hp' hnow hnext hconfig hnd hstage hw hs hb
  | booting hpc hq hw hs hready hbegun hb =>
    rcases hw _ _ _ hplace with rfl | rfl
    · obtain ⟨hstage, rfl⟩ := Prod.mk.inj (Option.some.inj (hplace.symm.trans hpc))
      exact .of_booted ho ht hst hp hp' hnow hnext hnd hstage hplace hq hw hs hready hbegun hb
    · exact .of_operation ho ht hst hp hp' hnow hnext hpc hq hw hs hbegun hb
  | gathering hpc hg hready hb hw hasked hsought hothers =>
    by_cases hne : c = w.task
    · subst hne
      obtain ⟨hstage, rfl⟩ := Prod.mk.inj (Option.some.inj (hplace.symm.trans hpc))
      exact .of_gathered ho ht hst hp hp' hnow hnext hconfig hstage hplace hg hready hb hw hsome hasked
        hsought hothers
    · exact .of_other ho ht hst hp hp' hnow hnext hconfig hmv hsome hne hpc hg hready hb hw hasked hsought
        hothers
  | ended hout hw h => exact (hw _ _ _ hplace).elim

/-- Every quiet step keeps a warm-up. -/
theorem Warming.step (h : Warming S s ms roles c asked) (ho : AtRest s roles)
    (hst : Step s roles mv s' roles') (hmv : mv.isQuiet = true) (hp : Tranquil n s roles)
    (hp' : Tranquil n s' roles') (hnow : S.moves ms = s) (hnext : S.moves (ms ++ [mv]) = s')
    (hconfig : s.config = S.config) (hnd : (S.requested asked).Nodup) :
    Warming S s' (ms ++ [mv]) roles' c asked := by
  rcases hst.aside_or_given ho with ⟨hnone, ha⟩ | ⟨w, m, turn, hsome, ht, rfl, rfl⟩
  · exact h.aside ho hst hnone ha hmv hp hp' hnow hnext
  · exact h.turned ho ht hst hmv hsome hp hp' hnow hnext hconfig hnd

/-! ## Runs -/

/-- A service in good order in which nobody is at work is tranquil. -/
theorem Tranquil.of_idle (hs : Steady S roles) (hp : Pooling n S) (hidle : S.Idle) : Tranquil n S roles where
  toSteady := hs
  pooling := hp
  undisturbed t := by
    refine .of_place? ?_
    cases hget : S.loop.tasks.get? t with
    | none => rfl
    | some task => exact (hidle.calls _ _ _ (place?_of_get? hget)).elim

/-- A warm-up that is begun where nobody is at work goes on as a warm-up. -/
theorem Warming.moves (ho : AtRest S roles) (hp : Tranquil n S roles) (hidle : S.Idle)
    (hnd : (S.requested asked).Nodup) (hlone : Lone (.warm asked) ms) :
    ∃ roles', AtRest (S.moves ms) roles' ∧ Tranquil n (S.moves ms) roles' ∧
      (S.moves ms).config = S.config ∧ Warming S (S.moves ms) ms roles' S.loop.promises.size asked := by
  obtain ⟨rest, rfl, hquiet⟩ := hlone
  obtain ⟨roles₁, hst⟩ := exists_step ho (.act (.spawn (.warm asked)))
  obtain ⟨ho₁, -⟩ := ho.step hst
  have hp₁ := hp.step ho hst trivial fun _ => not_false
  have hplaces : ∀ {t point on}, (S.move (.act (.spawn (.warm asked)))).loop.place? t = some (point, on) →
      t = S.loop.promises.size ∧ point = .start (.warm asked) := by
    intro t point on hplace
    replace hplace : (S.loop.spawn (.start (.warm asked))).2.place? t = some (point, on) := hplace
    rw [place?_spawn] at hplace
    split at hplace
    · rename_i he
      cases hplace
      exact ⟨he, rfl⟩
    · exact (hidle.calls _ _ _ hplace).elim
  have hbegun : Warming S (S.move (.act (.spawn (.warm asked)))) [.act (.spawn (.warm asked))] roles₁
      S.loop.promises.size asked := by
    have hcold : Cold S S [] := ⟨rfl, rfl, fun _ => Constructed.nil⟩
    refine .begun (place?_spawned S _) (fun t point on hp => (hplaces hp).1)
      (@Cold.stays S S _ roles roles₁ (.act (.spawn (.warm asked))) [] n hcold rfl rfl hp hp₁ rfl rfl) ?_
    rintro op ⟨before, after, he, point, on, hplace, rfl⟩
    rcases List.append_eq_cons_iff.1 he.symm with ⟨rfl, -⟩ | ⟨before', rfl, he'⟩
    · exact hidle.calls _ _ _ hplace
    · obtain ⟨rfl, rfl⟩ := List.append_eq_nil_iff.1 he'.symm
      cases (hplaces hplace).2
  have hrun := exists_course (s := S.move (.act (.spawn (.warm asked)))) (A := fun _ mv => mv.isQuiet = true)
    (I := fun ms s roles => Tranquil n s roles ∧ s.config = S.config ∧
      Warming S s (.act (.spawn (.warm asked)) :: ms) roles S.loop.promises.size asked)
    ho₁ ⟨hp₁, rfl, hbegun⟩ ?_ rest (along_of_split fun before mv after he =>
      hquiet mv (he ▸ List.mem_append_right _ List.mem_cons_self))
  · obtain ⟨roles', ho', hp', hconfig, hwarming⟩ := hrun
    exact ⟨roles', ho', hp', hconfig, hwarming⟩
  · rintro ms roles roles' mv ho ho' hmv ⟨hp, hconfig, hwarming⟩ hst
    have hp' := hp.step ho hst (Move.spares_of_isQuiet hmv) fun _ => Move.not_cancels_of_isQuiet hmv
    exact ⟨hp', (hst.engine_named ho).1.trans hconfig,
      hwarming.step ho hst hmv hp hp' rfl rfl hconfig hnd⟩

/-! ## The law -/

/-- What has become of a language is told by the pool. -/
theorem Fate.contains_iff (h : Fate S s ms (.str name) o) : s.pool.contains name = true ↔
    S.pool.contains name = true ∨ Constructed S ms name := by
  have hleft : LeftAlone S s ms name → (s.pool.contains name = true ↔
      S.pool.contains name = true ∨ Constructed S ms name) := fun hs => by
    rw [contains_congr hs.pool]
    exact ⟨.inl, fun h => h.resolve_right hs.made⟩
  cases h with
  | found hc hs => exact hleft hs
  | made hn hc hm => exact iff_of_true hc (.inr hm)
  | refused hv hs => exact hleft (hs name rfl)
  | unloaded hn hs hk hf hbegun hout => exact hleft hs
  | unbound hn hs hk he hb => exact hleft hs

/-- A parser that is in the pool stays there. -/
theorem Fate.get?_of_some (h : Fate S s ms (.str name) o) {pooled : Pooled}
    (hget : S.pool.get? name = some pooled) : s.pool.get? name = some pooled := by
  have hleft : LeftAlone S s ms name → s.pool.get? name = some pooled := fun hs => hs.pool.trans hget
  cases h with
  | found hc hs => exact hleft hs
  | made hn hc hm => cases hn.symm.trans (contains_of_get? hget)
  | refused hv hs => exact hleft (hs name rfl)
  | unloaded hn hs hk hf hbegun hout => exact hleft hs
  | unbound hn hs hk he hb => exact hleft hs

/-- What the answer of a warm-up means that was the only call since the service was the first one. -/
structure WarmedUp (S : Service) (ms : List Service.Move) (languages : List Json) (b : Bool) : Prop where
  /-- It answers true if and only if the engine is ready and all languages are in the pool. -/
  answer : b = true ↔ (S.moves ms).phase = .ready ∧
    ∀ l ∈ languages, ∃ name, l = .str name ∧ (S.moves ms).pool.contains name = true
  /-- The engine is ready unless the boot has failed. -/
  phase : (S.moves ms).phase = .ready ↔ ¬ BootFailed S ms
  /-- If the boot has failed neither cache has changed. -/
  unbooted : BootFailed S ms → (S.moves ms).grammars = S.grammars ∧ (S.moves ms).pool = S.pool
  /-- What was in the pool is there, as it was. -/
  stays : ∀ {name pooled}, S.pool.get? name = some pooled → (S.moves ms).pool.get? name = some pooled
  /-- Otherwise the pool has gained the languages that were asked for, have a locator and a grammar, and
      whose parser has been constructed; and no others. -/
  gained : ¬ BootFailed S ms → ∀ name, (S.moves ms).pool.contains name = true ↔
    S.pool.contains name = true ∨ Json.str name ∈ languages ∧ S.config.hasLocator name = true ∧
      (∃ g, Grammars.kept? (S.moves ms) name = some g) ∧ Constructed S ms name
  /-- What has become of a language is told by what has happened to it, not to others. -/
  fates : ¬ BootFailed S ms → ∀ l ∈ languages, ∃ t o, CameTo (· = .start (.getParser l)) S ms t ∧
    (S.moves ms).loop.outcome? t = some o ∧ Fate S (S.moves ms) ms l o

/-- A warm-up whose boot has failed answers false. -/
theorem WarmedUp.of_unbooted (hphase : (S.moves ms).phase ≠ .ready) (hb : BootFailed S ms)
    (hs : Cold S (S.moves ms) ms) : WarmedUp S ms languages false where
  answer := iff_of_false nofun fun h => hphase h.1
  phase := iff_of_false hphase (not_not_intro hb)
  unbooted _ := ⟨hs.grammars, hs.pool⟩
  stays hget := by rwa [hs.pool]
  gained h := absurd hb h
  fates h := absurd hb h

/-- A warm-up that has gone over the languages answers whether all are in the pool. -/
theorem Warmed.warmedUp {b : Bool} (h : Warmed S (S.moves ms) ms languages b)
    (hp : Tranquil n (S.moves ms) roles) (hconfig : (S.moves ms).config = S.config) :
    WarmedUp S ms languages b where
  answer := h.answer.trans (and_iff_right h.phase).symm
  phase := iff_of_true h.phase h.booted.not_bootFailed
  unbooted hb := absurd hb h.booted.not_bootFailed
  stays {name pooled} hget := by
    by_cases hm : Json.str name ∈ languages
    · obtain ⟨t, o, -, -, hf⟩ := h.fates _ hm
      exact hf.get?_of_some hget
    · exact (h.others name hm).pool.trans hget
  gained _ name := by
    by_cases hm : Json.str name ∈ languages
    · obtain ⟨t, o, -, -, hf⟩ := h.fates _ hm
      refine ⟨fun hc => (hf.contains_iff.1 hc).imp_right fun hmade => ?_, fun hor =>
        hf.contains_iff.2 (hor.imp_right fun ⟨_, _, _, hmade⟩ => hmade)⟩
      obtain ⟨hlocated, hkept⟩ := hp.of_pooled hc
      exact ⟨hm, hconfig ▸ hlocated, hkept, hmade⟩
    · rw [contains_congr (h.others name hm).pool]
      exact ⟨.inl, fun hor => hor.resolve_right fun ⟨hm', _⟩ => hm hm'⟩
  fates _ := h.fates

/-- **What the answer of a warm-up means**: where nobody is at work a warm-up is begun for languages of which
    none is named twice, whatever fails on the way.  If it returns it returns whether the engine is ready and
    all languages are in the pool; a boot that has failed leaves both caches as they were, and otherwise the
    pool has gained the languages whose own load and construction have succeeded. -/
theorem warms_up (config : Config) {world : World} (hr : world.RaisesWell) (hf : world.FetchesWell)
    (eager : Bool) (stuck : Option Fault) (log : List LogLine) {past ms : List Service.Move}
    (hsp : Along SparesOperations (opened config world eager stuck log) past)
    (hidle : ((opened config world eager stuck log).moves past).Idle)
    (hnd : (((opened config world eager stuck log).moves past).requested asked).Nodup)
    (hlone : Lone (.warm asked) ms) {v : Reply}
    (hout : (((opened config world eager stuck log).moves past).moves ms).loop.outcome?
      ((opened config world eager stuck log).moves past).loop.promises.size = some (.value v)) :
    ∃ b, v = .flag b ∧ WarmedUp ((opened config world eager stuck log).moves past) ms
      (((opened config world eager stuck log).moves past).requested asked) b := by
  obtain ⟨roles, ho, -, hs, hp⟩ := exists_along (A := SparesOperations)
    (I := fun s roles => Steady s roles ∧ Pooling world.parsers.length s)
    (fun ho _ hsp h hst => ⟨h.1.step ho hst hsp, h.2.step h.1.loaded ho hst⟩) past (Ordered.opened ..).rest
    hsp ⟨.opened hr hf .., .opened ..⟩
  obtain ⟨roles', ho', hp', hconfig, hwarming⟩ := Warming.moves ho (.of_idle hs hp hidle) hidle hnd hlone
  have hplaced : ∀ {point on}, (((opened config world eager stuck log).moves past).moves ms).loop.place?
      ((opened config world eager stuck log).moves past).loop.promises.size ≠ some (point, on) := by
    intro point on hplace
    rw [outcome?_of_isPending (ho'.isPending_of_place? hplace)] at hout
    cases hout
  cases hwarming with
  | begun hplace hw hs hb => exact absurd hplace hplaced
  | booting hplace hq hw hs hready hbegun hb => exact absurd hplace hplaced
  | gathering hplace hg hready hb hw hasked hsought hothers => exact absurd hplace hplaced
  | ended hout' hw h =>
    obtain ⟨o, ho, h⟩ : ∃ o, o = .value v ∧ WarmEnded _ _ ms _ o :=
      ⟨_, Option.some.inj (hout'.symm.trans hout), h⟩
    cases h with
    | @unavailable f before after he hf =>
      rw [Program.ended] at ho
      split at ho <;> cases ho
    | unbooted hphase hb hs =>
      cases ho
      exact ⟨false, rfl, .of_unbooted hphase hb hs⟩
    | warmed h =>
      cases ho
      exact ⟨_, rfl, h.warmedUp hp' hconfig⟩

/-- An engine that cannot make its second parser, and modules for three grammars. -/
def unevenEngine : World where
  modules := .ofList [
    ("tree_sitter",
      { members := (Keyed.empty.put makerName
          (.maker ⟨[.parser, .fault (.plain .running "not yet"), .parser]⟩ .parser)).put compilerName
            (.compiler ⟨[]⟩) }),
    ("tree_sitter_python", { members := Keyed.empty.put "language" (.pointer (.str "python")) }),
    ("tree_sitter_java", { members := Keyed.empty.put "language" (.pointer (.str "java")) }),
    ("tree_sitter_javascript", { members := Keyed.empty.put "language" (.pointer (.str "javascript")) })]

/-- The parser for one language has been asked for. -/
def pythonPooled : List Service.Move :=
  .act (.spawn (.getParser (.str "python"))) :: List.replicate 13 (.serve 0)

/-- A language whose parser is in the pool, one for which none can be made, one whose grammar is not
    installed, one that is new, one that has no locator, and something that is no language. -/
def unevenLanguages : List Json :=
  [.str "python", .str "java", .str "typescript", .str "javascript", .str "cobol", .null]

/-- The service is warmed up for these languages. -/
def unevenWarmUp : List Service.Move :=
  .act (.spawn (.warm (some unevenLanguages))) :: List.replicate 32 (.serve 0)

/-- The parser in the pool stays, and of all other languages one comes into the pool; the answer is false. -/
theorem warms_up_unevenly :
    unevenEngine.RaisesWell ∧ unevenEngine.FetchesWell ∧
      Along SparesOperations (opened {} unevenEngine true none []) pythonPooled ∧
      ((opened {} unevenEngine true none []).moves pythonPooled).Idle ∧ unevenLanguages.Nodup ∧
      Lone (.warm (some unevenLanguages)) unevenWarmUp ∧
      ((opened {} unevenEngine true none []).moves pythonPooled).pool.keys = ["python"] ∧
      WarmedUp ((opened {} unevenEngine true none []).moves pythonPooled) unevenWarmUp unevenLanguages false ∧
      (((opened {} unevenEngine true none []).moves pythonPooled).moves unevenWarmUp).grammars.keys =
        ["python", "java", "javascript"] ∧
      (((opened {} unevenEngine true none []).moves pythonPooled).moves unevenWarmUp).pool.keys =
        ["python", "javascript"] ∧
      Constructed ((opened {} unevenEngine true none []).moves pythonPooled) unevenWarmUp "javascript" := by
  have hparses : unevenEngine.parses.entries = [] := rfl
  have hr : unevenEngine.RaisesWell := .of_entries (by decide +kernel) (by simp [hparses])
  have hf : unevenEngine.FetchesWell := .of_entries (by decide +kernel)
  have hsp : Along SparesOperations (opened {} unevenEngine true none []) pythonPooled := by decide +kernel
  have hidle : ((opened {} unevenEngine true none []).moves pythonPooled).Idle :=
    .of_isEmpty (by decide +kernel) (by decide +kernel) (by decide +kernel)
  have hnd : unevenLanguages.Nodup := by simp [unevenLanguages]
  have hlone : Lone (.warm (some unevenLanguages)) unevenWarmUp := ⟨_, rfl, by decide +kernel⟩
  -- What can be seen of the service at the end is computed at once.
  obtain ⟨hreturns, hready, hgrammars, hpool, hnew, hjava, hjavascript⟩ :
      ((((opened {} unevenEngine true none []).moves pythonPooled).moves unevenWarmUp).loop.outcome?
        ((opened {} unevenEngine true none []).moves pythonPooled).loop.promises.size).map
          (·.result.isOk) = some true ∧
      (((opened {} unevenEngine true none []).moves pythonPooled).moves unevenWarmUp).phase = .ready ∧
      (((opened {} unevenEngine true none []).moves pythonPooled).moves unevenWarmUp).grammars.keys =
        ["python", "java", "javascript"] ∧
      (((opened {} unevenEngine true none []).moves pythonPooled).moves unevenWarmUp).pool.keys =
        ["python", "javascript"] ∧
      ¬ ((opened {} unevenEngine true none []).moves pythonPooled).pool.contains "javascript" = true ∧
      ¬ (((opened {} unevenEngine true none []).moves pythonPooled).moves unevenWarmUp).pool.contains
        "java" = true ∧
      (((opened {} unevenEngine true none []).moves pythonPooled).moves unevenWarmUp).pool.contains
        "javascript" = true := by
    decide +kernel
  obtain ⟨o, hout, hok⟩ := Option.map_eq_some_iff.1 hreturns
  obtain ⟨v, rfl⟩ : ∃ v, o = .value v := by
    cases o with
    | value v => exact ⟨v, rfl⟩
    | failed f => cases hok
    | cancelled => cases hok
  have hnd' : (((opened {} unevenEngine true none []).moves pythonPooled).requested
      (some unevenLanguages)).Nodup := hnd
  obtain ⟨b, -, hwarmed⟩ := warms_up {} hr hf true none [] hsp hidle hnd' hlone hout
  obtain ⟨-, -, -, hmade⟩ :=
    ((hwarmed.gained (hwarmed.phase.1 hready) "javascript").1 hjavascript).resolve_left hnew
  have hb : b = false := by
    rw [← Bool.not_eq_true, hwarmed.answer]
    rintro ⟨-, hall⟩
    obtain ⟨name, hname, hc⟩ := hall (.str "java") (by simp [unevenLanguages, requested])
    cases hname
    exact hjava hc
  exact ⟨hr, hf, hsp, hidle, hnd, hlone, by decide +kernel, hb ▸ hwarmed, hgrammars, hpool, hmade⟩

end SourceTrees.Service
