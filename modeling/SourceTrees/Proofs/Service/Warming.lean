import SourceTrees.Proofs.Service.Preloading

/-!
# Warming up

A service in which no call is in progress and no operation in flight is warmed up: the engine is booted,
and a parser is asked for, for every language, all at once.

## Protocol

* The warm-up is the only call from outside, and nobody is cancelled.  Errands are served in any order.
* No language is named twice.

## Results

* `Service.Warming` — how far the warm-up has come; `Service.Warming.step` — every quiet step keeps it.
* `Service.WarmedUp` — the law of a warm-up that has answered.
-/

set_option autoImplicit false

namespace SourceTrees.Service

open Loop

variable {S s s' s₁ : Service} {roles roles' : Roles Hook Job} {w : Woken} {m : Midst} {mv : Service.Move}
  {ms : List Service.Move} {name : String} {language : Json} {languages : List Json} {c t op q : PromiseId}
  {point : Stage} {on : Option PromiseId} {turn : Turn Stage Reply} {n : Nat} {o : Settled Reply}
  {task : Json → PromiseId} {asked : Option (List Json)}

/-! ## The turns of warm-ups -/

/-- A parser has been asked for, for every language, and nothing else has been done. -/
structure AsksAll (languages : List Json) (task : Json → PromiseId) (s s' : Service) : Prop where
  knows : Knows s s'
  pool : s'.pool = s.pool
  asked : ∀ l ∈ languages, s'.loop.place? (task l) = some (.start (.getParser l), none)
  came : ∀ {t point on}, s'.loop.place? t = some (point, on) → s.loop.place? t = some (point, on) ∨
    ∃ l ∈ languages, t = task l ∧ point = .start (.getParser l)

/-- What has merely happened to the loop since, with the tasks where they were, makes no difference. -/
theorem AsksAll.withTasks (h : AsksAll languages task s s') {l : Loop Reply Stage Hook}
    (hl : l.tasks = s'.loop.tasks) : AsksAll languages task s { s' with loop := l } where
  knows := h.knows.trans ⟨rfl, rfl, rfl, rfl, rfl⟩
  pool := h.pool
  asked language hm := (place?_congr hl).trans (h.asked language hm)
  came hp := h.came ((place?_congr hl).symm.trans hp)

/-- What the turn of a warm-up comes to in which it has a parser asked for, for every language. -/
inductive AllAsked (languages : List Json) (s : Service) : Turn WarmStage Bool → Service → Prop
  | nobody {s' : Service} (hl : languages = []) (hs : Knows s s') (hpool : s'.pool = s.pool)
      (htasks : s'.loop.tasks = s.loop.tasks) : AllAsked languages s (.finish (.ok true)) s'
  | everybody {g : PromiseId} {task : Json → PromiseId} {s' : Service} (h : AsksAll languages task s s')
      (hg : s'.loop.Gathers g (languages.map task)) :
      AllAsked languages s (.rest g (.gathering languages (languages.map task))) s'

/-- What the first turn of a warm-up comes to. -/
inductive WarmBegins (languages : List Json) (s : Service) : Turn WarmStage Bool → Service → Prop
  | unavailable {f : Fault} {s' : Service}
      (hf : ((Warmup.availability s.config.locators).run s.world).1 = .error f) (hs : Knows s s')
      (hpool : s'.pool = s.pool) (htasks : s'.loop.tasks = s.loop.tasks) :
      WarmBegins languages s (.finish (.error f)) s'
  | boots {p : PromiseId} {s' : Service} (hready : s.phase ≠ .ready) (hs : Knows s s')
      (hpool : s'.pool = s.pool) (hx : Starts (· = .boot .start) s s') :
      WarmBegins languages s (.rest p (.booting languages)) s'
  | asks {turn : Turn WarmStage Bool} {s' : Service} (hready : s.phase = .ready)
      (h : AllAsked languages s turn s') : WarmBegins languages s turn s'

/-- What has been done before makes no difference if it is forgotten. -/
theorem AllAsked.after {turn : Turn WarmStage Bool} (h : AllAsked languages s₁ turn s') (hs : Knows s s₁)
    (hpool : s₁.pool = s.pool) (htasks : s₁.loop.tasks = s.loop.tasks) : AllAsked languages s turn s' := by
  cases h with
  | nobody hl hs' hpool' htasks' =>
    exact .nobody hl (hs.trans hs') (hpool'.trans hpool) (htasks'.trans htasks)
  | everybody h hg =>
    exact .everybody ⟨hs.trans h.knows, h.pool.trans hpool, h.asked, fun hp =>
      (h.came hp).imp_left (place?_congr htasks.symm).trans⟩ hg

/-- Requests for the parsers are started, one after the other. -/
theorem leads_askAll : ∀ (languages : List Json), languages.Nodup → ∀ m : Midst,
    Leads w m (languages.mapM (fun l => Work.onLoop (·.spawn (.start (.getParser l)))) m.service)
      fun members m' => ∃ task, members = languages.map task ∧
        AsksAll languages task m.service m'.service := by
  intro languages
  induction languages with
  | nil => exact fun _ m => .pure ⟨fun _ => 0, rfl, .refl _, rfl, nofun, .inl⟩
  | cons l languages ih =>
    intro hnd m
    obtain ⟨hl, hnd⟩ := List.nodup_cons.1 hnd
    rw [List.mapM_cons]
    refine .of_inTurn fun ht => .bind (.stride (.spawned (.getParser l) ⟨l, rfl⟩) (.pure (.bind ?_)))
    refine .mono (ih hnd _).strides fun members m' hm => .pure ?_
    obtain ⟨⟨task, rfl, hasks⟩, hst⟩ := hm
    have hlt : m.service.loop.promises.size <
        (m.service.loop.spawn (.start (.getParser l))).2.promises.size := by
      rw [size_spawn]
      exact Nat.lt_succ_self _
    have hplace : m'.service.loop.place? m.service.loop.promises.size =
        some (.start (.getParser l), none) := by
      unfold Loop.place?
      rw [hst.get?_tasks hlt]
      exact place?_spawn.trans (if_pos rfl)
    classical
    -- The first language has the task that has been started first.
    let all : Json → PromiseId := fun l' => if l' = l then m.service.loop.promises.size else task l'
    have hfirst : all l = m.service.loop.promises.size := if_pos rfl
    have hrest : ∀ l' ∈ languages, all l' = task l' := fun l' hl' =>
      if_neg (by rintro rfl; exact hl hl')
    have hspawned : Knows m.service { m.service with
        loop := (m.service.loop.spawn (.start (.getParser l))).2 } := ⟨rfl, rfl, rfl, rfl, rfl⟩
    refine ⟨all, ?_, hspawned.trans hasks.knows, hasks.pool, fun l' hl' => ?_, fun {t point on} hp => ?_⟩
    · rw [List.map_cons, hfirst, List.map_congr_left hrest]
    · rcases List.mem_cons.1 hl' with rfl | hl'
      · rw [hfirst]
        exact hplace
      · rw [hrest l' hl']
        exact hasks.asked l' hl'
    · rcases hasks.came hp with hold | ⟨l', hl', ht, hpoint⟩
      · replace hold : (m.service.loop.spawn (.start (.getParser l))).2.place? t = some (point, on) := hold
        rw [place?_spawn] at hold
        split at hold
        · rename_i he
          cases hold
          exact .inr ⟨l, List.mem_cons_self, he.trans hfirst.symm, rfl⟩
        · exact .inl hold
      · exact .inr ⟨l', List.mem_cons_of_mem _ hl', ht.trans (hrest l' hl').symm, hpoint⟩

/-- All parsers are asked for at once, and the task waits until all requests have ended. -/
theorem leads_allAsked (hnd : languages.Nodup) : Leads w m (Warmup.gather languages m.service)
    fun turn m' => AllAsked languages m.service turn m'.service := by
  unfold Warmup.gather
  split
  · rename_i he
    exact .pure (.nobody (List.isEmpty_iff.1 he) (.refl _) rfl rfl)
  · refine .bind ((leads_askAll languages hnd m).mono fun members m' hm => .of_inTurn fun ht => ?_)
    obtain ⟨task, rfl, hasks⟩ := hm
    have hcall : ∀ t ∈ languages.map task, m'.roles t = .call := by
      intro t hmem
      obtain ⟨l, hl, rfl⟩ := List.mem_map.1 hmem
      exact (ht.ordered.placed (hasks.asked l hl)).role
    refine .bind (.stride (.grouped hcall) (.pure (.pure ?_)))
    exact .everybody (hasks.withTasks tasks_group) <| .group ht.ordered.sound.assigned fun t hmem =>
      ht.ordered.sound.assigned.lt_size (by rw [hcall t hmem]; simp)

/-- The languages that a warm-up is asked for: those that are named, or else the configured ones. -/
def requested (s : Service) (languages : Option (List Json)) : List Json :=
  languages.getD (s.config.preload.map .str)

/-- A warm-up fails to look for the grammars, or waits for the boot, or has all parsers asked for. -/
theorem leads_warmBegins (asked : Option (List Json)) (hnd : (m.service.requested asked).Nodup) :
    Leads w m (Warmup.request asked m.service)
      fun turn m' => WarmBegins (m.service.requested asked) m.service turn m'.service := by
  unfold Warmup.request
  refine .bind (.log _ (.bind (.pure (.bind ?_))))
  have hprobe : ∀ m₁ : Midst, Leads w m₁ (Work.attempt (Warmup.availability m.service.config.locators)
      m₁.service) fun r m₂ => r = ((Warmup.availability m.service.config.locators).run m₁.service.world).1 ∧
        Knows m₁.service m₂.service ∧ m₂.service.pool = m₁.service.pool ∧ m₂.service.loop = m₁.service.loop :=
    fun m₁ _ => ⟨_, .single (.probed m.service.config.locators), rfl, rfl, ⟨rfl, rfl, rfl, rfl, rfl⟩, rfl, rfl⟩
  refine (hprobe _).mono fun r m₁ hr => ?_
  obtain ⟨hr, hs₁, hpool₁, hloop₁⟩ := hr
  replace hs₁ : Knows m.service m₁.service :=
    ⟨hs₁.config, hs₁.workers, hs₁.phase, hs₁.engine, hs₁.grammars⟩
  replace hpool₁ : m₁.service.pool = m.service.pool := hpool₁
  replace hloop₁ : m₁.service.loop.tasks = m.service.loop.tasks := congrArg _ hloop₁
  cases r with
  | error f => exact .pure (.unavailable hr.symm hs₁ hpool₁ hloop₁)
  | ok found =>
    refine .bind (.log _ (.bind (leads_attachBoot.result.mono fun r m' hr => ?_)))
    obtain ⟨hr, hattach⟩ := hr
    have hlogged : Knows m.service { m₁.service with
        log := m₁.service.log ++ [Warmup.availabilityLine found] } :=
      hs₁.trans ⟨rfl, rfl, rfl, rfl, rfl⟩
    cases r with
    | none =>
      obtain ⟨rfl, hready⟩ := hr
      exact (leads_allAsked hnd).mono fun turn m' h =>
        .asks (hlogged.phase ▸ hready) (h.after hlogged hpool₁ hloop₁)
    | some p =>
      obtain ⟨hready, hs, hpool, -⟩ := knows_attachBoot hattach
      have hx := Boot.starts_attach (X := (· = .boot .start)) rfl { m₁.service with
        log := m₁.service.log ++ [Warmup.availabilityLine found] }
      rw [show Boot.attach _ = _ from hattach] at hx
      exact .pure (.boots (hlogged.phase ▸ hready) (hlogged.trans hs) (hpool.trans hpool₁)
        fun t point on hp => (hx t point on hp).imp_left (place?_congr (t := t) hloop₁).symm.trans)

/-- What a part of a warm-up comes to its turn comes to. -/
theorem HasTurn.of_warm (ht : HasTurn s roles w m turn) {f : Work (Turn WarmStage Bool)}
    (hf : Calls.resume w.stage w.given w.before =
      (do Calls.replying (← f) Stage.warm Reply.flag : Work (Turn Stage Reply)) w.before)
    {P : Turn WarmStage Bool → Service → Prop}
    (h : Leads w ⟨w.before, roles, w.stage.grip⟩ (f w.before) fun turn m' => P turn m'.service) :
    ∃ turn', turn = (Calls.replying turn' Stage.warm Reply.flag m.service).1 ∧ P turn' m.service := by
  obtain ⟨m', -, hs, hP⟩ := h ⟨ht.started, roles, .refl⟩
  have hres := ht.resumed
  rw [hf, Work.run_bind, ← hs] at hres
  have hsame : (Calls.replying (f w.before).1 Stage.warm Reply.flag m'.service).2 = m'.service := by
    cases (f w.before).1 <;> rfl
  have hservice : m'.service = m.service := hsame.symm.trans (congrArg Prod.snd hres)
  rw [hservice] at hres hP
  exact ⟨_, (congrArg Prod.fst hres).symm, hP⟩

/-! ## How far a warm-up has come -/

/-- Nothing has come of the warm-up: nothing has been cached, and no parser was constructed. -/
structure Cold (S s : Service) (ms : List Service.Move) : Prop where
  pool : s.pool = S.pool
  grammars : s.grammars = S.grammars
  made : ∀ name, ¬ Constructed S ms name

namespace Cold

theorem leftAlone (h : Cold S s ms) (name : String) : LeftAlone S s ms name := ⟨by rw [h.pool], h.made name⟩

/-- A step that leaves both caches alone keeps the service cold. -/
theorem stays (h : Cold S s ms) (hnow : S.moves ms = s) (hnext : S.moves (ms ++ [mv]) = s')
    (hp : Tranquil n s roles) (hp' : Tranquil n s' roles') (hpool : s'.pool = s.pool)
    (hgr : s'.grammars = s.grammars) : Cold S s' (ms ++ [mv]) :=
  ⟨hpool.trans h.pool, hgr.trans h.grammars, fun name =>
    ((h.leftAlone name).stays hnow hnext hp hp' hpool).made⟩

end Cold

/-- A boot was begun in the course of the run, and has failed. -/
def BootFailed (S : Service) (ms : List Service.Move) : Prop :=
  ∃ op f, CameTo (· = .boot .start) S ms op ∧ (S.moves ms).loop.outcome? op = some (.failed f)

/-- All boots that were begun in the course of the run have ended well. -/
def BootedWell (S s : Service) (ms : List Service.Move) : Prop :=
  ∀ op, CameTo (· = .boot .start) S ms op → ∃ v, s.loop.outcome? op = some (.value v)

theorem BootedWell.not_bootFailed (h : BootedWell S (S.moves ms) ms) : ¬ BootFailed S ms := by
  rintro ⟨op, f, hbegun, hf⟩
  obtain ⟨v, hv⟩ := h op hbegun
  cases hv.symm.trans hf

/-- Nobody boots a ready engine. -/
theorem BootedWell.step (h : BootedWell S s ms) (ho : AtRest s roles) (hst : Step s roles mv s' roles')
    (hp' : Tranquil n s' roles') (hnext : S.moves (ms ++ [mv]) = s') (hready : s'.phase = .ready) :
    BootedWell S s' (ms ++ [mv]) := by
  obtain ⟨ho', -⟩ := ho.step hst
  intro op hc
  rcases hc.of_snoc with hold | ⟨point, on, hp, rfl⟩
  · exact (h op hold).imp fun _ => hst.outcome?_of_some
  · rw [hnext] at hp
    exact absurd hready
      (hp'.loaded.engined.booting.not_ready (ho'.placed hp).role (ho'.isPending_of_place? hp))

/-- What has become of the languages for which parsers have been asked for. -/
structure Warmed (S s : Service) (ms : List Service.Move) (languages : List Json) (b : Bool) : Prop where
  phase : s.phase = .ready
  booted : BootedWell S s ms
  fates : ∀ l ∈ languages, ∃ t o, CameTo (· = .start (.getParser l)) S ms t ∧
    s.loop.outcome? t = some o ∧ Fate S s ms l o
  others : ∀ name, .str name ∉ languages → LeftAlone S s ms name
  answer : b = true ↔ ∀ l ∈ languages, ∃ name, l = .str name ∧ s.pool.contains name = true

/-- What a warm-up has come to. -/
inductive WarmEnded (S s : Service) (ms : List Service.Move) (languages : List Json) : Settled Reply → Prop
  | unavailable {f : Fault} {before after : List Service.Move} (he : ms = before ++ after)
      (hf : ((Warmup.availability S.config.locators).run (S.moves before).world).1 = .error f) :
      WarmEnded S s ms languages (Program.ended (.error f))
  | unbooted (hphase : s.phase ≠ .ready) (hb : BootFailed S ms) (hs : Cold S s ms) :
      WarmEnded S s ms languages (.value (.flag false))
  | warmed {b : Bool} (h : Warmed S s ms languages b) : WarmEnded S s ms languages (.value (.flag b))

/-- How far the warm-up has come that is the only call since the service was the first one. -/
inductive Warming (S s : Service) (ms : List Service.Move) (roles : Roles Hook Job) (c : PromiseId)
    (asked : Option (List Json)) : Prop
  | begun (hp : s.loop.place? c = some (.start (.warm asked), none)) (hw : s.AtWork (· = c))
      (hs : Cold S s ms) (hb : ∀ op, ¬ CameTo (· = .boot .start) S ms op)
  | booting {q op : PromiseId} (hp : s.loop.place? c = some (.warm (.booting (S.requested asked)), some q))
      (hq : roles q = .shield op) (hw : s.AtWork fun t => t = c ∨ t = op) (hs : Cold S s ms)
      (hready : s.phase = .ready → ∃ v, s.loop.outcome? op = some (.value v))
      (hbegun : CameTo (· = .boot .start) S ms op) (hb : ∀ op', CameTo (· = .boot .start) S ms op' → op' = op)
  | gathering {g : PromiseId} {task : Json → PromiseId}
      (hp : s.loop.place? c =
        some (.warm (.gathering (S.requested asked) ((S.requested asked).map task)), some g))
      (hg : s.loop.Gathers g ((S.requested asked).map task)) (hready : s.phase = .ready) (hb : BootedWell S s ms)
      (hw : ∀ {t point on}, s.loop.place? t = some (point, on) →
        t = c ∨ ∃ l ∈ S.requested asked, point.concerns l)
      (hasked : ∀ l ∈ S.requested asked, CameTo (· = .start (.getParser l)) S ms (task l))
      (hsought : ∀ l ∈ S.requested asked, Sought S s ms roles l (task l))
      (hothers : ∀ name, .str name ∉ S.requested asked → LeftAlone S s ms name)
  | ended {o : Settled Reply} (hout : s.loop.outcome? c = some o) (hw : s.AtWork fun _ => False)
      (h : WarmEnded S s ms (S.requested asked) o)

/-! ## Between turns -/

section

variable (ho : AtRest s roles) (hst : Step s roles mv s' roles') (hnone : s.turnOf? mv = none)
  (ha : Aside s roles s' roles') (hmv : mv.isQuiet = true) (hp : Tranquil n s roles)
  (hp' : Tranquil n s' roles') (hnow : S.moves ms = s) (hnext : S.moves (ms ++ [mv]) = s')

include hst hnone hmv hnow hnext in
/-- Between turns nobody comes to another stage. -/
theorem cameTo_of_aside {R : Stage → Prop} (h : CameTo R S (ms ++ [mv]) t) : CameTo R S ms t := by
  rcases h.of_snoc with hold | ⟨point, on, hplace, hR⟩
  · exact hold
  · rw [hnext] at hplace
    have hplace := hst.place?_of_aside hnone (Move.not_spawn_of_isQuiet hmv) hplace
    rw [← hnow] at hplace
    exact .now hplace hR

include ho hst hnone ha hmv hp hp' hnow hnext

theorem WarmEnded.aside (h : WarmEnded S s ms languages o) : WarmEnded S s' (ms ++ [mv]) languages o := by
  have hb : ∀ language, Bypasses S ms mv s s' roles language := fun _ =>
    ha.bypasses ho hst hnone (Move.not_spawn_of_isQuiet hmv) hnow
  cases h with
  | unavailable he hf => exact .unavailable (he ▸ List.append_assoc ..) hf
  | unbooted hphase hbf hs =>
    refine .unbooted (ha.phase ▸ hphase) ?_ (hs.stays hnow hnext hp hp' ha.pool ha.grammars)
    obtain ⟨op, f, hbegun, hf⟩ := hbf
    refine ⟨op, f, hbegun.append [mv], ?_⟩
    rw [hnow] at hf
    rw [hnext]
    exact hst.outcome?_of_some hf
  | warmed h =>
    refine .warmed {
      phase := ha.phase.trans h.phase
      booted := h.booted.step ho hst hp' hnext (ha.phase.trans h.phase)
      fates := fun l hl => ?_
      others := fun name hn => (h.others name hn).bypassed (hb _)
      answer := by rw [ha.pool]; exact h.answer }
    obtain ⟨t, o, hasked, hout, hf⟩ := h.fates l hl
    exact ⟨t, o, hasked.append [mv], hst.outcome?_of_some hout, hf.bypassed (hb l)⟩

/-- Between turns a warm-up stays where it is. -/
theorem Warming.aside (h : Warming S s ms roles c asked) : Warming S s' (ms ++ [mv]) roles' c asked := by
  obtain ⟨ho', hext⟩ := ho.step hst
  have hplace : ∀ {t point on}, s'.loop.place? t = some (point, on) → s.loop.place? t = some (point, on) :=
    hst.place?_of_aside hnone (Move.not_spawn_of_isQuiet hmv)
  have hwork : ∀ {X}, s.AtWork X → s'.AtWork X := fun hw t point on hp => hw t point on (hplace hp)
  have hb : ∀ language, Bypasses S ms mv s s' roles language := fun _ =>
    ha.bypasses ho hst hnone (Move.not_spawn_of_isQuiet hmv) hnow
  cases h with
  | begun hpc hw hs hbegun =>
    exact .begun (ha.stays hpc) (hwork hw) (hs.stays hnow hnext hp hp' ha.pool ha.grammars) fun op hc =>
      hbegun op (cameTo_of_aside hst hnone hmv hnow hnext hc)
  | booting hpc hq hw hs hready hbegun hboots =>
    have hrest := (ho.placed hpc).rest
    obtain ⟨_, op, he, hshield, hop⟩ := hrest
    cases he
    cases hq.symm.trans hshield
    obtain ⟨-, -, hout⟩ := ha.outcome?_operation ho hst (hext.eq hop (by simp))
    exact .booting (ha.stays hpc) (hext.eq hq (by simp)) (hwork hw)
      (hs.stays hnow hnext hp hp' ha.pool ha.grammars) (fun hr => hout ▸ hready (ha.phase ▸ hr))
      (hbegun.append [mv]) fun op' hc => hboots op' (cameTo_of_aside hst hnone hmv hnow hnext hc)
  | gathering hpc hg hready hbooted hw hasked hsought hothers =>
    have hrest := (ho.placed hpc).rest
    obtain ⟨_, he, hgroup⟩ := hrest
    cases he
    exact .gathering (ha.stays hpc) (Step.gathers ho hst hmv hgroup hg) (ha.phase.trans hready)
      (hbooted.step ho hst hp' hnext (ha.phase.trans hready)) (fun hp => hw (hplace hp))
      (fun l hl => (hasked l hl).append [mv]) (fun l hl => (hsought l hl).bypassed ho hst (hb l))
      fun name hn => (hothers name hn).bypassed (hb _)
  | ended hout hw h =>
    exact .ended (hst.outcome?_of_some hout) (hwork hw)
      (h.aside ho hst hnone ha hmv hp hp' hnow hnext)

end

/-! ## Turns -/

namespace Fate

/-- Whose request ends with a value is in the pool, and nobody else is. -/
theorem pooled_iff (h : Fate S s ms language o) (hp : Tranquil n s roles) (hconfig : s.config = S.config) :
    (∃ v, o = .value v) ↔ ∃ name, language = .str name ∧ s.pool.contains name = true := by
  cases h with
  | found hc hs => exact ⟨fun _ => ⟨_, rfl, (contains_congr hs.pool).trans hc⟩, fun _ => ⟨_, rfl⟩⟩
  | made hn hc hm => exact ⟨fun _ => ⟨_, rfl, hc⟩, fun _ => ⟨_, rfl⟩⟩
  | refused hv hs =>
    refine ⟨by rintro ⟨_, ⟨⟩⟩, ?_⟩
    rintro ⟨name, rfl, hc⟩
    obtain ⟨hlocated, -⟩ := hp.of_pooled hc
    rw [Service.validate, ← hconfig, if_pos hlocated] at hv
    cases hv
  | unloaded hn hs hk hf hbegun hout =>
    refine ⟨by rintro ⟨_, ⟨⟩⟩, ?_⟩
    rintro ⟨name, ⟨⟩, hc⟩
    cases hc.symm.trans ((contains_congr hs.pool).trans hn)
  | unbound hn hs hk he hb =>
    refine ⟨by rintro ⟨_, ⟨⟩⟩, ?_⟩
    rintro ⟨name, ⟨⟩, hc⟩
    cases hc.symm.trans ((contains_congr hs.pool).trans hn)

/-- A request has a value, or fails with a fault of the service. -/
theorem ended_cases (h : Fate S s ms language o) :
    (∃ v, o = .value v) ∨ ∃ f, o = .failed f ∧ f.kind.isOwn = true := by
  cases h with
  | found hc hs => exact .inl ⟨_, rfl⟩
  | made hn hc hm => exact .inl ⟨_, rfl⟩
  | refused hv hs => exact .inr ⟨_, rfl, by rw [validate_eq_error hv]; rfl⟩
  | unloaded hn hs hk hf hbegun hout => exact .inr ⟨_, rfl, by rw [hf]; rfl⟩
  | unbound hn hs hk he hb => exact .inr ⟨_, rfl, rfl⟩

end Fate

/-- The outcomes are gone over: if all faults are the service's own nothing but the log changes. -/
theorem review_eq (ends : List (Json × Except Fault Unit)) : ∀ (all : Bool) (s : Service),
    (∀ e ∈ ends, ∀ f, e.2 = .error f → f.kind.isOwn = true) →
    ∃ log, Warmup.review ends all s = (.finish (.ok (all && ends.all (·.2.isOk))), { s with log }) := by
  induction ends with
  | nil => exact fun all s _ => ⟨s.log, by simp [Warmup.review, Work.done]⟩
  | cons e ends ih =>
    intro all s hown
    obtain ⟨language, result⟩ := e
    have hrest := fun e' he' => hown e' (List.mem_cons_of_mem _ he')
    cases result with
    | ok u =>
      obtain ⟨log, he⟩ := ih all { s with
        log := s.log ++ [.info ("✓ Preloaded parser for " ++ language.display)] } hrest
      exact ⟨log, he.trans (by simp [Except.isOk, Except.toBool])⟩
    | error f =>
      obtain ⟨log, he⟩ := ih (all && false) { s with
        log := s.log ++ [.warning ("Could not preload " ++ language.display ++ ": " ++ f.message)] } hrest
      refine ⟨log, ?_⟩
      rw [Warmup.review, if_pos (hown _ List.mem_cons_self f rfl)]
      exact he.trans (by simp [Except.isOk, Except.toBool])

section

variable (ho : AtRest s roles) (ht : HasTurn s roles w m turn)
  (hst : Step s roles mv (m.after w.task turn) m.roles) (hp : Tranquil n s roles)
  (hp' : Tranquil n (m.after w.task turn) m.roles) (hnow : S.moves ms = s)
  (hnext : S.moves (ms ++ [mv]) = m.after w.task turn)

include ht in
/-- Who finishes, having started nobody, and nobody else being at work, leaves nobody at work. -/
theorem HasTurn.atWork_finish {result : Except Fault Reply} (hturn : turn = .finish result)
    (hx : m.service.loop.tasks = w.before.loop.tasks)
    (hw : ∀ {t point on}, s.loop.place? t = some (point, on) → t = w.task) :
    (m.after w.task turn).AtWork fun _ => False := by
  intro t point on hplace
  by_cases he : t = w.task
  · rw [he, hturn, place?_conclude, if_pos rfl] at hplace
    cases hplace
  · exact he (hw ((ht.place_cases (X := fun _ => False) (.of_tasks hx) he hplace).resolve_right And.right))

include ho ht hst hp hp' hnow hnext

/-- All parsers are asked for. -/
theorem Warming.of_allAsked (hw : s.AtWork (· = w.task)) (hs : Cold S s ms) (hready : s.phase = .ready)
    (hbooted : BootedWell S s ms) (hstage : ∀ l, w.stage ≠ .start (.getParser l))
    {turn' : Turn WarmStage Bool} (h : AllAsked (S.requested asked) w.before turn' m.service)
    (hturn : turn = (Calls.replying turn' Stage.warm Reply.flag m.service).1) :
    Warming S (m.after w.task turn) (ms ++ [mv]) m.roles w.task asked := by
  obtain ⟨hbefore, hpoolBefore, -, -, htasks⟩ := ht.knows_before
  obtain ⟨ho', -⟩ := ho.step hst
  have hcold : Knows w.before m.service → m.service.pool = w.before.pool →
      Cold S (m.after w.task turn) (ms ++ [mv]) := fun hs' hpool =>
    hs.stays hnow hnext hp hp' (hpool.trans hpoolBefore) (hs'.grammars.trans hbefore.grammars)
  have hphase : Knows w.before m.service → (m.after w.task turn).phase = .ready := fun hs' =>
    hs'.phase.trans (hbefore.phase.trans hready)
  obtain ⟨s', hs', h⟩ : ∃ s', m.service = s' ∧ AllAsked (S.requested asked) w.before turn' s' := ⟨_, rfl, h⟩
  cases h with
  | nobody hl hknows hpool hloop =>
    subst hs'
    replace hturn : turn = .finish (.ok (.flag true)) := hturn
    have hout := ht.outcome?_of_finish (congrArg Prod.fst ht.resumed |>.trans hturn)
    refine .ended hout (ht.atWork_finish hturn hloop fun hp => hw _ _ _ hp) (.warmed {
      phase := hphase hknows
      booted := hbooted.step ho hst hp' hnext (hphase hknows)
      fates := by rw [hl]; nofun
      others := fun name _ => (hcold hknows hpool).leftAlone name
      answer := by rw [hl]; simp })
  | @everybody g task _ h hg =>
    subst hs'
    replace hturn : turn = .rest g (.warm (.gathering (S.requested asked) ((S.requested asked).map task))) :=
      hturn
    have hplace : (m.after w.task turn).loop.place? w.task =
        some (.warm (.gathering (S.requested asked) ((S.requested asked).map task)), some g) := by
      rw [hturn, place?_conclude, if_pos rfl]
    have hrest := (ho'.placed hplace).rest
    obtain ⟨_, he, hgroup⟩ := hrest
    cases he
    -- The task itself rests in the middle of its turn where it did at its beginning.
    have hown : ∀ l ∈ S.requested asked, task l ≠ w.task := by
      intro l hl he
      obtain ⟨on, hplace⟩ := ht.place
      obtain ⟨_, given, hget, -⟩ := ht.started.woken
      have hasked := he ▸ h.asked l hl
      have hm := Strides.get?_tasks (t := w.task) ht.strides (ht.started.ordered.sound.known hget)
      rw [← place?_congr htasks] at hplace
      exact hstage l (Prod.mk.inj (Option.some.inj (hplace.symm.trans ((congrArg (Option.map _) hm).symm.trans
        hasked)))).1
    have hasked : ∀ l ∈ S.requested asked,
        (m.after w.task turn).loop.place? (task l) = some (.start (.getParser l), none) := by
      intro l hl
      rw [place?_conclude, if_neg (hown l hl)]
      exact h.asked l hl
    have hcame : ∀ {t point on}, (m.after w.task turn).loop.place? t = some (point, on) → t ≠ w.task →
        ∃ l ∈ S.requested asked, t = task l ∧ point = .start (.getParser l) := by
      intro t point on hp hne
      replace hp : (Program.conclude w.task turn m.service.loop).place? t = some (point, on) := hp
      rw [place?_conclude, if_neg hne] at hp
      refine (h.came hp).resolve_left fun hold => hne (hw _ point on ?_)
      rw [← place?_congr htasks]
      exact hold
    refine .gathering hplace (ht.gathers hgroup hg) (hphase h.knows)
      (hbooted.step ho hst hp' hnext (hphase h.knows)) (fun {t point on} hp => ?_)
      (fun l hl => .now (hnext ▸ hasked l hl) rfl) (fun l hl => ?_)
      fun name _ => (hcold h.knows h.pool).leftAlone name
    · by_cases hne : t = w.task
      · exact .inl hne
      · obtain ⟨l, hl, -, rfl⟩ := hcame hp hne
        exact .inr ⟨l, hl, rfl⟩
    · refine .begun (hasked l hl) (fun {t' point on} hp hc => ?_) fun name _ =>
        (hcold h.knows h.pool).leftAlone name
      by_cases hne : t' = w.task
      · rw [hne] at hp
        cases hplace.symm.trans hp
        exact hc.elim
      · obtain ⟨l', -, rfl, rfl⟩ := hcame hp hne
        exact congrArg task hc

/-- The warm-up begins. -/
theorem Warming.of_begun (hconfig : s.config = S.config) (hnd : (S.requested asked).Nodup)
    (hstage : w.stage = .start (.warm asked)) (hw : s.AtWork (· = w.task)) (hs : Cold S s ms)
    (hb : ∀ op, ¬ CameTo (· = .boot .start) S ms op) :
    Warming S (m.after w.task turn) (ms ++ [mv]) m.roles w.task asked := by
  obtain ⟨hbefore, hpoolBefore, hworld, -⟩ := ht.knows_before
  obtain ⟨ho', -⟩ := ho.step hst
  have hgiven : w.given = .ok default := ht.given_start (hp.undisturbed _) (by rw [hstage]; rfl)
  have hsame : w.before.requested asked = S.requested asked := by
    rw [requested, hbefore.config, hconfig, requested]
  obtain ⟨turn', hturn, h⟩ := ht.of_warm (f := Warmup.request asked) (by rw [hstage, hgiven]; rfl)
    (P := WarmBegins (w.before.requested asked) w.before) (leads_warmBegins asked (by rw [hsame]; exact hnd))
  rw [hsame] at h
  obtain ⟨s', hs', h⟩ : ∃ s', m.service = s' ∧ WarmBegins (S.requested asked) w.before turn' s' :=
    ⟨_, rfl, h⟩
  cases h with
  | @unavailable f _ hf hknows hpool hloop =>
    subst hs'
    replace hturn : turn = .finish (.error f) := hturn
    have hout := ht.outcome?_of_finish (congrArg Prod.fst ht.resumed |>.trans hturn)
    refine .ended hout (ht.atWork_finish hturn hloop fun hp => hw _ _ _ hp)
      (.unavailable rfl ?_)
    rw [hnow, ← hworld, ← hconfig, ← hbefore.config]
    exact hf
  | @boots p _ hready hknows hpool hx =>
    subst hs'
    replace hturn : turn = .rest p (.warm (.booting (S.requested asked))) := hturn
    have hnoboot : ∀ {t point on}, s.loop.place? t = some (point, on) → point.role ≠ .operation .boot := by
      intro t point on hplace hrole
      obtain rfl := hw _ _ _ hplace
      obtain ⟨_, hown⟩ := ht.place
      cases hown.symm.trans hplace
      rw [hstage] at hrole
      cases hrole
    obtain ⟨op, point, hshield, hop, hplace, rfl⟩ := ht.starts_operation ho hst hx hnoboot rfl hturn rfl
    have hown : (m.after w.task turn).loop.place? w.task =
        some (.warm (.booting (S.requested asked)), some p) := by
      rw [hturn, place?_conclude, if_pos rfl]
    -- Boots are at work one at a time.
    have hunique : ∀ {t on}, (m.after w.task turn).loop.place? t = some (.boot .start, on) → t = op :=
      fun hp => ho'.boot_unique (ho'.placed hp).role (ho'.isPending_of_place? hp) hop
        (ho'.isPending_of_place? hplace)
    refine .booting hown hshield (fun t point on hp => ?_) (hs.stays hnow hnext hp hp'
      (hpool.trans hpoolBefore) (hknows.grammars.trans hbefore.grammars)) (fun hr => ?_)
      (.now (hnext ▸ hplace) rfl) fun op' hc => ?_
    · by_cases he : t = w.task
      · exact .inl he
      · rcases ht.place_cases hx he hp with hold | ⟨-, rfl⟩
        · exact absurd (hw _ _ _ hold) he
        · exact .inr (hunique hp)
    · exact absurd (hknows.phase.symm.trans hr) hready
    · rcases hc.of_snoc with hold | ⟨point, on, hp, rfl⟩
      · exact absurd hold (hb op')
      · exact hunique (hnext ▸ hp)
  | asks hready h =>
    subst hs'
    exact .of_allAsked ho ht hst hp hp' hnow hnext hw hs (hbefore.phase.symm.trans hready)
      (fun op hc => absurd hc (hb op)) (by rw [hstage]; nofun) h hturn

end

end SourceTrees.Service
