import SourceTrees.Proofs.Service.Course
import SourceTrees.Proofs.Service.Loading

/-!
# A grammar is fetched once

However many calls ask for the grammar of a language, at whatever moment, one load at a time is at work
for all of them, and the first fetch that succeeds is the last.  That is so in every run in which engine
and grammars raise ordinary faults, no null grammar is compiled, and nobody but callers is cancelled.

## Protocol

* A **load** of a language is a task that runs in the place of the shared operation.
* A load becomes a **fetch** when it hands in its job, and rests with it until the job has ended.
* A load may also find the grammar kept, and then succeeds without a fetch.

## Results

* `Service.LoadsOnce` — the law for a run.
* **`Service.loads_once`** — every run of the kind obeys it.
-/

set_option autoImplicit false

namespace SourceTrees.Service

open Loop

variable {s s' : Service} {roles roles' : Roles Hook Job} {w : Woken} {m m' : Midst} {mv : Service.Move}
  {ms : List Service.Move} {t c : PromiseId} {turn : Turn Stage Reply} {language : String}

/-! ## The queue -/

/-- A load waits for every queued fetch. -/
def FetchesQueued (s : Service) : Prop :=
  ∀ {k engine locator}, k ∈ s.workers.queue → k.job = .grammar engine locator →
    s.loop.isPending k.promise = true ∧
      ∃ t language, s.loop.place? t = some (.fetch (.fetching language locator), some k.promise)

/-- Only a load that begins hands in a fetch. -/
theorem Strides.fetch_handed (hst : Strides w m m') {k : Ticket} {engine locator : String}
    (hk : k ∈ m'.service.workers.queue) (hj : k.job = .grammar engine locator) :
    k ∈ m.service.workers.queue ∨ ∃ language, w.stage = .fetch (.start language) := by
  induction hst with
  | refl => exact .inl hk
  | @tail m₁ m₂ _ hstep ih =>
    cases hstep with
    | @submitted crew job grip hc hg =>
      unfold Work.handedIn at hk
      split at hk
      · exact ih hk
      · rcases List.mem_append.1 hk with hk | hk
        · exact ih hk
        · cases List.mem_singleton.1 hk
          cases hj
          generalize m₁.grip = before at hg
          cases hg with
          | fetch hs _ _ => exact .inr ⟨_, hs⟩
    | dismissed =>
      rw [Work.dismiss_eq] at hk
      split at hk
      · exact ih hk
      · exact ih (List.mem_filter.1 hk).1
    | _ => exact ih hk

/-- A load that begins queues nothing, or it comes to rest with what it has queued. -/
theorem startFetch_queues (language : String) (s : Service) :
    (Grammars.startFetch language s).2.workers.queue = s.workers.queue ∨
      ∃ k engine locator, k.job = .grammar engine locator ∧
        (Grammars.startFetch language s).1 = .rest k.promise (.fetching language locator) ∧
        (Grammars.startFetch language s).2.workers.queue = s.workers.queue ++ [k] := by
  unfold Grammars.startFetch
  simp only [Work.run_bind, Work.run_get]
  cases hk : Grammars.kept? s language with
  | some x => exact .inl rfl
  | none =>
    dsimp only
    cases he : s.engine? with
    | error f => exact .inl rfl
    | ok engine =>
      dsimp only
      generalize (s.config.locators.get? language).getD "" = locator
      rw [Work.run_bind, Work.submit_eq]
      split
      · left
        show (Grammars.fetchFailed language locator .poolClosed s).2.workers.queue = _
        unfold Grammars.fetchFailed
        split <;> rfl
      · unfold Work.handedIn
        split
        · exact .inl rfl
        · exact .inr ⟨⟨s.setupCrew, .grammar engine locator, s.loop.promises.size⟩, engine, locator, rfl,
            rfl, rfl⟩

/-- What a load that has its turn does is what its code says. -/
theorem HasTurn.resumed_fetch {point : FetchStage} (ht : HasTurn s roles w m turn)
    (hs : w.stage = .fetch point) :
    m.service = (Grammars.resumeFetch point w.given w.before).2 ∧
      ∀ on point', turn = .rest on (.fetch point') ↔
        (Grammars.resumeFetch point w.given w.before).1 = .rest on point' := by
  have hres := ht.resumed
  rw [hs] at hres
  have heq : Calls.resume (.fetch point) w.given w.before =
      Calls.replying (Grammars.resumeFetch point w.given w.before).1 .fetch .grammar
        (Grammars.resumeFetch point w.given w.before).2 := rfl
  rw [heq] at hres
  generalize Grammars.resumeFetch point w.given w.before = r at hres
  obtain ⟨turn', s'⟩ := r
  cases turn' with
  | rest on point' =>
    cases hres
    exact ⟨rfl, fun _ _ => by simp⟩
  | giveWay point' =>
    obtain ⟨rfl, hm⟩ := Prod.mk.inj hres
    exact ⟨hm.symm, fun _ _ => by simp⟩
  | finish result =>
    obtain ⟨rfl, hm⟩ := Prod.mk.inj hres
    exact ⟨hm.symm, fun _ _ => by simp⟩

/-- The promise of a queued job of a shared operation stays open. -/
theorem Queued.isPending_shared (h : Queued s) (ho : AtRest s roles) (hst : Step s roles mv s' roles')
    (hsp : SparesOperations s mv) {k : Ticket} (hk : k ∈ s.workers.queue)
    (hj : k.job.isShared = true) (hp : s.loop.isPending k.promise = true) :
    s'.loop.isPending k.promise = true := by
  obtain ⟨ho', hext⟩ := ho.step hst
  have hrole := hext.eq (ho.queued hk) (by simp)
  rcases isPending_or_settled (ho'.sound.assigned.lt_size (p := k.promise) (by simp [hrole])) with
    hp' | ⟨o, ho''⟩
  · exact hp'
  · exfalso
    rcases hst.outcome?_cases ho (by rw [hrole]; rfl) ho'' with hout | hset
    · rw [isPending_of_outcome? hout] at hp
      cases hp
    · rcases Answered.settles_shared ho hst hsp (.inr ⟨k.job, hrole, hj⟩) hset with ⟨x, hm, _⟩ | ⟨ht, _⟩
      · exact h.undelivered hk x hm
      · rw [hrole] at ht
        cases ht

/-- A task stays where it rests until its promise is settled, unless it is marked. -/
theorem Step.place?_of_isPending (ho : AtRest s roles) (hst : Step s roles mv s' roles') {point : Stage}
    {p : PromiseId} (hplace : s.loop.place? t = some (point, some p)) (hp : s.loop.isPending p = true) :
    s'.loop.place? t = some (point, some p) := by
  rcases hst.stays_or_turn ho hplace with hs | ⟨w, m, turn, ht, rfl, _, _, _⟩
  · exact hs
  · exfalso
    obtain ⟨task, given, hget, _, _, hgives, _⟩ := ht.woken
    obtain ⟨task', hget', _, hon⟩ := place?_eq_some_iff.1 hplace
    cases hget.symm.trans hget'
    unfold Loop.Gives at hgives
    rw [hon] at hgives
    obtain ⟨o, hout, _⟩ := hgives
    rw [isPending_of_outcome? hout] at hp
    cases hp

/-- Every step that spares the operations keeps it. -/
theorem FetchesQueued.step (h : FetchesQueued s) (hq : Queued s) (ho : AtRest s roles)
    (hst : Step s roles mv s' roles') (hsp : SparesOperations s mv) : FetchesQueued s' := by
  intro k engine locator hk hj
  obtain ⟨ho', _⟩ := ho.step hst
  by_cases hold : k ∈ s.workers.queue
  · obtain ⟨hp, t, language, hplace⟩ := h hold hj
    exact ⟨hq.isPending_shared ho hst hsp hold (by rw [hj]; rfl) hp, t, language,
      hst.place?_of_isPending ho hplace hp⟩
  rcases hst.idles ho with ⟨i, k', hi, rfl⟩ | hi | ⟨w, m, turn, ht, rfl, rfl⟩
  · rw [Work.workOff_eq hi] at hk
    exact absurd (List.mem_of_mem_eraseIdx hk) hold
  · exact absurd (hi.queue ▸ hk) hold
  obtain ⟨i, hb⟩ := ht.before
  have hqueue : w.before.workers.queue = s.workers.queue := by rw [hb]
  rcases Strides.fetch_handed ht.strides hk hj with hk' | ⟨language, hs⟩
  · exact absurd (hqueue ▸ hk') hold
  obtain ⟨hm, hturn⟩ := ht.resumed_fetch hs
  have hk' : k ∈ m.service.workers.queue := hk
  rw [hm] at hk'
  cases hg : w.given with
  | error f =>
    rw [hg] at hk'
    exact absurd (hqueue ▸ hk') hold
  | ok r =>
    rw [hg] at hk' hturn
    rcases startFetch_queues language w.before with hsame | ⟨k₁, engine₁, locator₁, hj₁, hrest, hnew⟩
    · have hk'' : k ∈ (Grammars.startFetch language w.before).2.workers.queue := hk'
      rw [hsame, hqueue] at hk''
      exact absurd hk'' hold
    · have hk'' : k ∈ (Grammars.startFetch language w.before).2.workers.queue := hk'
      rw [hnew, hqueue] at hk''
      rcases List.mem_append.1 hk'' with hk'' | hk''
      · exact absurd hk'' hold
      cases List.mem_singleton.1 hk''
      cases hj.symm.trans hj₁
      obtain rfl := (hturn _ _).2 hrest
      have hrole := ho'.queued hk
      refine ⟨?_, w.task, language, ?_⟩
      · rcases isPending_or_settled (ho'.sound.assigned.lt_size (p := k.promise) (by simp [hrole])) with
          hp | ⟨o, hout⟩
        · exact hp
        · -- The promise is one that the turn has made.
          have hle : w.before.loop.promises.size ≤ k.promise := ht.ends.2.2.2.2.1
          have hout' := (ht.inTurn.outcome?_conclude (by rw [hrole]; rfl) _).symm.trans hout
          rw [Strides.outcome?_eq ht.started ht.strides (by simp [hrole])] at hout'
          exact absurd (outcome?_lt hout') (Nat.not_lt.2 hle)
      · show (Program.conclude w.task _ m.service.loop).place? w.task = _
        rw [place?_conclude, if_pos rfl]

/-! ## The law -/

/-- On the way, or at its end, the task rests in the course of a load of the language. -/
def Loads (s : Service) (ms : List Service.Move) (t : PromiseId) (language : String) : Prop :=
  CameTo (fun stage => stage.role = .operation (.grammar language)) s ms t

/-- On the way, or at its end, the task rests with a fetch of the language. -/
def Fetches (s : Service) (ms : List Service.Move) (t : PromiseId) (language : String) : Prop :=
  CameTo (fun stage => ∃ locator, stage = .fetch (.fetching language locator)) s ms t

/-- The law for the state that a run comes to. -/
structure LoadsOnce (s : Service) (ms : List Service.Move) : Prop where
  /-- A fetch is handed in only when the engine is ready. -/
  ready : ∀ {t language}, Fetches s ms t language → (s.moves ms).phase = .ready
  /-- One load of a language at most is unfinished. -/
  single : ∀ {t t' language}, Loads s ms t language → (s.moves ms).loop.isPending t = true →
    Loads s ms t' language → (s.moves ms).loop.isPending t' = true → t = t'
  /-- A fetch is at work, or it has ended with the kept grammar or with a fault of loading. -/
  fate : ∀ {t language}, Fetches s ms t language →
    (∃ locator p, (s.moves ms).loop.place? t = some (.fetch (.fetching language locator), some p)) ∨
      (∃ x, (s.moves ms).loop.outcome? t = some (.value (.grammar x)) ∧
        (s.moves ms).grammars.get? language = some x) ∨
      ∃ f, (s.moves ms).loop.outcome? t = some (.failed f) ∧ f.kind = .grammar
  /-- One fetch of a language at most has succeeded. -/
  once : ∀ {t t' v v' language}, Fetches s ms t language → Fetches s ms t' language →
    (s.moves ms).loop.outcome? t = some (.value v) → (s.moves ms).loop.outcome? t' = some (.value v') →
    t = t'
  /-- After a load that has succeeded no fetch is handed in. -/
  last : ∀ {before after t t' v language}, ms = before ++ after → Loads s before t language →
    (s.moves before).loop.outcome? t = some (.value v) → Fetches s ms t' language →
    Fetches s before t' language
  /-- A grammar is kept exactly when a load has succeeded with it. -/
  kept : ∀ {language x}, (s.moves ms).grammars.get? language = some x ↔
    ∃ t, Loads s ms t language ∧ (s.moves ms).loop.outcome? t = some (.value (.grammar x))
  /-- A grammar that was kept on the way is kept, and no other in its place. -/
  stays : ∀ {before after language x}, ms = before ++ after →
    (s.moves before).grammars.get? language = some x → (s.moves ms).grammars.get? language = some x
  /-- A request for a grammar that ends well is answered with the kept one. -/
  replied : ∀ {c v language}, Began s ms (.load language) c →
    (s.moves ms).loop.outcome? c = some (.value v) →
    ∃ name x, language = .str name ∧ v = .grammar x ∧ (s.moves ms).grammars.get? name = some x
  /-- As many grammars are counted as are kept. -/
  loaded : (s.moves ms).counts.grammars.loaded = (s.moves ms).grammars.size
  /-- As many failures are counted as loads have failed. -/
  failures : (s.moves ms).counts.grammars.failures =
    {t | ∃ language, Loads s ms t language ∧
      ∃ f, (s.moves ms).loop.outcome? t = some (.failed f)}.ncard
  /-- A fetch that waits for a worker is one on which an unfinished load rests. -/
  queued : ∀ {k engine locator}, k ∈ (s.moves ms).workers.queue → k.job = .grammar engine locator →
    ∃ t language, (s.moves ms).loop.place? t =
      some (.fetch (.fetching language locator), some k.promise)
  /-- No load waits for two fetches. -/
  apart : ∀ {k k' t point point'}, k ∈ (s.moves ms).workers.queue → k' ∈ (s.moves ms).workers.queue →
    (s.moves ms).loop.place? t = some (point, some k.promise) →
    (s.moves ms).loop.place? t = some (point', some k'.promise) → k = k'

/-! ## Requests for grammars -/

/-- A call for the grammar rests here. -/
def IsLoadCall (language : Json) (stage : Stage) : Prop :=
  stage = .start (.load language) ∨ ∃ point : GrammarStage, language = .str point.language ∧
    stage = .grammar point

/-- A request whose grammar is replied ends well with a grammar that it has seen. -/
theorem leads_goesLoad {language : Json} {f : Work (Turn GrammarStage Grammar)}
    (h : Leads w m (f m.service) (GrammarEnds w language)) :
    Leads w m ((do Calls.replying (← f) .grammar .grammar : Work (Turn Stage Reply)) m.service)
      fun turn m' => Goes (IsLoadCall language) (fun o => ∀ v, o = .value v → ∃ name x,
        language = .str name ∧ v = .grammar x ∧ w.SeesGrammar m'.service name x) turn := by
  refine .call h (fun on point m' hp => .inr ⟨point, hp.2, rfl⟩) fun result m' hg => .pure fun v hv => ?_
  cases result with
  | error f => cases Program.ended_eq_value.1 hv
  | ok x =>
    cases Program.ended_eq_value.1 hv
    obtain ⟨name, hname, hx⟩ := hg.2.1 x rfl
    exact ⟨name, x, hname, rfl, hx⟩

theorem leads_load {language : Json} (hs : IsLoadCall language w.stage) :
    Leads w ⟨w.before, roles, w.stage.grip⟩ (Calls.resume w.stage w.given w.before)
      fun turn m' => Goes (IsLoadCall language) (fun o => ∀ v, o = .value v → ∃ name x,
        language = .str name ∧ v = .grammar x ∧ w.SeesGrammar m'.service name x) turn := by
  rcases hs with hs | ⟨point, rfl, hs⟩
  · rw [hs]
    cases w.given with
    | error f => exact .pure fun v hv => by cases Program.ended_eq_value.1 hv
    | ok r => exact .bind (.pure (leads_goesLoad (leads_request language rfl)))
  · rw [hs]
    exact leads_goesLoad (leads_resume (by rw [hs]; rfl) rfl)

/-- The outcome is a value only if it is the grammar that is kept for the language. -/
def WellIfKept (language : Json) (s : Service) (o : Settled Reply) : Prop :=
  ∀ v, o = .value v →
    ∃ name x, language = .str name ∧ v = .grammar x ∧ s.grammars.get? name = some x

/-! ## Fetches -/

/-- A fetch that has its turn ends. -/
theorem goes_fetching (language locator : String) (given : Except Fault Reply) (s : Service) :
    Goes (fun _ => False) (fun _ => True)
      (Calls.resume (.fetch (.fetching language locator)) given s).1 := by
  cases given with
  | ok r => trivial
  | error f =>
    show Goes _ _ (Calls.replying (Grammars.fetchFailed language locator f s).1 .fetch .grammar
      (Grammars.fetchFailed language locator f s).2).1
    unfold Grammars.fetchFailed
    split <;> trivial

namespace Loaded

/-! ## Steps -/

/-- What is kept stays. -/
theorem get?_stays (h : Loaded s roles) (ho : AtRest s roles) (hst : Step s roles mv s' roles')
    (h' : Loaded s' roles') {x : Grammar} (hx : s.grammars.get? language = some x) :
    s'.grammars.get? language = some x :=
  h.loading.get?_stays h'.loading (ho.step hst).2 hst.outcome?_of_some hx

theorem goes_load (h : Loaded s roles) {language : Json} (ht : HasTurn s roles w m turn)
    (hs : IsLoadCall language w.stage) :
    Goes (IsLoadCall language) (WellIfKept language (m.after w.task turn)) turn := by
  obtain ⟨m', hst, hm, hgoes⟩ := ht.of_leads (leads_load hs)
  refine hgoes.mono (fun _ => id) fun o hwell v hv => ?_
  obtain ⟨name, x, hname, hvx, hsees⟩ := hwell v hv
  have hloading := h.loading.inTurn h.engined.booting ht (h.engined.bootsWell ht)
    (h.answered.loadsWell ht) hst
  have hx := hloading.get?_of_sees (ht.started.strides hst) hsees
  rw [hm] at hx
  exact ⟨name, x, hname, hvx, hx⟩

/-! ## Runs -/

/-- A run that spares the operations goes on so. -/
theorem along (h : Loaded s roles) (ho : AtRest s roles) (hsp : Along SparesOperations s ms) :
    ∃ roles', AtRest (s.moves ms) roles' ∧ Extends roles roles' ∧ Loaded (s.moves ms) roles' :=
  exists_along (fun ho _ hsp h hst => h.step ho hst hsp) ms ho hsp h

/-- What becomes of requests for a grammar. -/
theorem keeps_load (language : Json) :
    Keeps SparesOperations Loaded c (fun _ => IsLoadCall language) (WellIfKept language) where
  step ho _ hsp h hst := h.step ho hst hsp
  turn _ _ h ht _ _ hs := h.goes_load ht hs
  stay _ _ _ _ := id
  keep ho h hst h' hwell v hv := by
    obtain ⟨name, x, hname, hvx, hx⟩ := hwell v hv
    exact ⟨name, x, hname, hvx, h.get?_stays ho hst h' hx⟩

/-- Who rests with a fetch has nothing kept for the language, and the engine is ready. -/
theorem of_fetching (h : Loaded s roles) (ho : AtRest s roles) {t : PromiseId} {locator : String}
    {on : Option PromiseId} (hp : s.loop.place? t = some (.fetch (.fetching language locator), on)) :
    roles t = .operation (.grammar language) ∧ s.loop.isPending t = true ∧
      s.grammars.get? language = none ∧ s.phase = .ready := by
  have hr : roles t = .operation (.grammar language) := (ho.placed hp).role
  exact ⟨hr, ho.isPending_of_place? hp, h.loading.vacant (gripAt_of_place? hp), h.loading.begun hr⟩

/-- A fetch is at work or has ended. -/
theorem fate (h : Loaded s roles) (ho : AtRest s roles) (hsp : Along SparesOperations s ms)
    {t : PromiseId} (hf : Fetches s ms t language) :
    (∃ locator p, (s.moves ms).loop.place? t = some (.fetch (.fetching language locator), some p)) ∨
      (∃ x, (s.moves ms).loop.outcome? t = some (.value (.grammar x)) ∧
        (s.moves ms).grammars.get? language = some x) ∨
      ∃ f, (s.moves ms).loop.outcome? t = some (.failed f) ∧ f.kind = .grammar := by
  obtain ⟨before, after, rfl, point, on, hp, locator, rfl⟩ := hf
  obtain ⟨hbefore, hafter⟩ := (along_append before after).1 hsp
  obtain ⟨roles₁, ho₁, _, h₁⟩ := h.along ho hbefore
  have hkeeps : Keeps SparesOperations
      (fun s roles => Loaded s roles ∧ roles t = .operation (.grammar language)) t
      (fun _ stage => ∃ locator, stage = .fetch (.fetching language locator)) fun _ _ => True := by
    refine ⟨fun ho _ hsp ⟨h, hr⟩ hst => ⟨h.step ho hst hsp, (ho.step hst).2.eq hr (by simp)⟩,
      fun {s roles mv w m turn} _ _ _ ht _ _ hs => ?_, fun _ _ _ _ => id, fun _ _ _ _ => id⟩
    obtain ⟨locator, hs⟩ := hs
    have hgoes := goes_fetching language locator w.given w.before
    rw [← hs, ht.resumed] at hgoes
    exact hgoes.mono (fun _ hf => hf.elim) fun _ => id
  have hrests : Becomes (fun _ stage => ∃ locator, stage = .fetch (.fetching language locator))
      (fun _ _ => True) (s.moves before) t := .inl ⟨_, on, hp, locator, rfl⟩
  obtain ⟨roles', ho', ⟨h', hr⟩, hb⟩ := hrests.along hkeeps ho₁ hafter ⟨h₁, (h₁.of_fetching ho₁ hp).1⟩
  rw [moves_append]
  rcases hb with ⟨point, on, hp, locator, rfl⟩ | ⟨o, hout, _⟩
  · obtain ⟨p, _, rfl, _⟩ := (ho'.placed hp).rest
    exact .inl ⟨locator, p, hp⟩
  · rcases h'.loading.ended hr hout with ⟨x, rfl, hx⟩ | ⟨f, rfl, hf⟩
    · exact .inr (.inl ⟨x, hout, hx⟩)
    · exact .inr (.inr ⟨f, hout, hf⟩)

/-- What is kept stays, however the run goes on. -/
theorem stays (h : Loaded s roles) (ho : AtRest s roles) (hsp : Along SparesOperations s ms)
    {x : Grammar} (hx : s.grammars.get? language = some x) :
    (s.moves ms).grammars.get? language = some x := by
  obtain ⟨_, _, _, _, hx'⟩ := exists_along
    (I := fun now roles => Loaded now roles ∧ now.grammars.get? language = some x)
    (fun ho _ hsp ⟨h, hx⟩ hst =>
      ⟨h.step ho hst hsp, h.get?_stays ho hst (h.step ho hst hsp) hx⟩) ms ho hsp ⟨h, hx⟩
  exact hx'

/-- A load runs in the place of the operation. -/
theorem of_loads (h : Loaded s roles) (ho : AtRest s roles) (hsp : Along SparesOperations s ms)
    {t : PromiseId} (hl : Loads s ms t language) : ∃ roles', AtRest (s.moves ms) roles' ∧
      Loaded (s.moves ms) roles' ∧ roles' t = .operation (.grammar language) := by
  obtain ⟨before, after, rfl, point, on, hp, hrole⟩ := hl
  obtain ⟨hbefore, hafter⟩ := (along_append before after).1 hsp
  obtain ⟨roles₁, ho₁, _, h₁⟩ := h.along ho hbefore
  obtain ⟨roles₂, ho₂, hext, h₂⟩ := h₁.along ho₁ hafter
  rw [moves_append]
  exact ⟨roles₂, ho₂, h₂, hext.eq ((ho₁.placed hp).role.trans hrole) (by simp)⟩

/-- A load that succeeds leaves its grammar kept. -/
theorem get?_of_loads (h : Loaded s roles) (ho : AtRest s roles) (hsp : Along SparesOperations s ms)
    {t : PromiseId} {v : Reply} (hl : Loads s ms t language)
    (hv : (s.moves ms).loop.outcome? t = some (.value v)) :
    ∃ x, v = .grammar x ∧ (s.moves ms).grammars.get? language = some x := by
  obtain ⟨_, _, h', hr⟩ := h.of_loads ho hsp hl
  rcases h'.loading.ended hr hv with ⟨x, he, hx⟩ | ⟨f, he, _⟩
  · cases he
    exact ⟨x, rfl, hx⟩
  · cases he

/-- One load of a language at most is unfinished. -/
theorem single (h : Loaded s roles) (ho : AtRest s roles) (hsp : Along SparesOperations s ms)
    {t t' : PromiseId} (hl : Loads s ms t language) (hp : (s.moves ms).loop.isPending t = true)
    (hl' : Loads s ms t' language) (hp' : (s.moves ms).loop.isPending t' = true) : t = t' := by
  obtain ⟨roles₁, ho₁, _, hr⟩ := h.of_loads ho hsp hl
  obtain ⟨roles₂, ho₂, _, hr'⟩ := h.of_loads ho hsp hl'
  obtain ⟨point, on, hplace⟩ := ho₂.exists_place? (t := t') (by rw [hr']; rfl) hp'
  have hr'' := (ho₁.placed hplace).role.trans ((ho₂.placed hplace).role.symm.trans hr')
  exact ho₁.load.unique hr hp hr'' hp'

/-- Once a load has succeeded no fetch is handed in. -/
theorem last (h : Loaded s roles) (ho : AtRest s roles) {before after : List Service.Move}
    (hsp : Along SparesOperations s (before ++ after)) {t t' : PromiseId} {v : Reply}
    (hl : Loads s before t language) (hv : (s.moves before).loop.outcome? t = some (.value v))
    (hf : Fetches s (before ++ after) t' language) : Fetches s before t' language := by
  obtain ⟨before', after', he, point, on, hp, locator, rfl⟩ := hf
  rcases List.append_eq_append_iff.1 he with ⟨more, rfl, rfl⟩ | ⟨more, rfl, _⟩
  · -- The fetch would be at work when its grammar is kept already.
    exfalso
    obtain ⟨hbefore, hafter⟩ := (along_append before _).1 hsp
    obtain ⟨hmore, _⟩ := (along_append more after').1 hafter
    obtain ⟨x, _, hx⟩ := h.get?_of_loads ho hbefore hl hv
    obtain ⟨_, ho₁, _, h₁⟩ := h.along ho hbefore
    obtain ⟨_, ho₂, _, h₂⟩ := h₁.along ho₁ hmore
    rw [moves_append] at hp
    have hnone := (h₂.of_fetching ho₂ hp).2.2.1
    rw [h₁.stays ho₁ hmore hx] at hnone
    cases hnone
  · exact ⟨before', more, rfl, _, on, hp, locator, rfl⟩

/-- Of two fetches that succeed neither was handed in before the other. -/
theorem once (h : Loaded s roles) (ho : AtRest s roles) (hsp : Along SparesOperations s ms)
    {t t' : PromiseId} {v v' : Reply} (hf : Fetches s ms t language) (hf' : Fetches s ms t' language)
    (hv : (s.moves ms).loop.outcome? t = some (.value v))
    (hv' : (s.moves ms).loop.outcome? t' = some (.value v')) : t = t' := by
  have hlater : ∀ {t t' : PromiseId} {v : Reply} {before more after : List Service.Move} {l l' on on'},
      ms = before ++ (more ++ after) → (s.moves ms).loop.outcome? t = some (.value v) →
      (s.moves before).loop.place? t = some (.fetch (.fetching language l), on) →
      ((s.moves before).moves more).loop.place? t' = some (.fetch (.fetching language l'), on') →
      t = t' := by
    rintro t t' v before more after l l' on on' rfl hv hp hp'
    obtain ⟨hbefore, hafter⟩ := (along_append before _).1 hsp
    obtain ⟨hmore, hafter⟩ := (along_append more after).1 hafter
    obtain ⟨_, ho₁, _, h₁⟩ := h.along ho hbefore
    obtain ⟨_, ho₂, hext, h₂⟩ := h₁.along ho₁ hmore
    have hr := hext.eq (h₁.of_fetching ho₁ hp).1 (by simp)
    obtain ⟨hr', hpend', hnone, _⟩ := h₂.of_fetching ho₂ hp'
    rcases isPending_or_settled (ho₂.sound.assigned.lt_size (p := t) (by simp [hr])) with hpend | ⟨o, hout⟩
    · exact ho₂.load.unique hr hpend hr' hpend'
    · have hend := ho₂.outcome?_moves hout after
      rw [← moves_append, ← moves_append, hv] at hend
      cases hend
      rcases h₂.loading.ended hr hout with ⟨x, _, hx⟩ | ⟨f, he, _⟩
      · rw [hnone] at hx
        cases hx
      · cases he
  obtain ⟨before, after, rfl, point, on, hp, locator, rfl⟩ := hf
  obtain ⟨before', after', he, point', on', hp', locator', rfl⟩ := hf'
  rcases List.append_eq_append_iff.1 he with ⟨more, rfl, rfl⟩ | ⟨more, rfl, rfl⟩
  · rw [moves_append] at hp'
    exact hlater rfl hv hp hp'
  · rw [moves_append] at hp
    exact (hlater he hv' hp' hp).symm

end Loaded

/-- **A grammar is fetched once.**  In every run of a new service, on any configuration, the law of
    loading holds: whatever imports, pointers and compilers come to, provided that they raise ordinary
    faults only and no null grammar is compiled, and whatever is called and cancelled, provided that
    nobody but callers is. -/
theorem loads_once (config : Config) (world : World) (eager : Bool) (stuck : Option Fault)
    (log : List LogLine) (ms : List Service.Move) (hw : world.FetchesWell)
    (hsp : Along SparesOperations (opened config world eager stuck log) ms) :
    LoadsOnce (opened config world eager stuck log) ms := by
  have ho : AtRest (opened config world eager stuck log) fun _ => .unused :=
    (Ordered.opened config world eager stuck log).rest
  have h := Loaded.opened hw config eager stuck log
  have hempty : FetchesQueued (opened config world eager stuck log) := by
    intro k _ _ hk
    simp at hk
  obtain ⟨roles, ho', h', hq, hfq, hrec⟩ := exists_course
    (I := fun ms now roles => Loaded now roles ∧ Queued now ∧ FetchesQueued now ∧
      Recorded (opened config world eager stuck log) ms roles)
    ho ⟨h, .opened .., hempty, .opened config world eager stuck log⟩
    (fun ho _ hsp ⟨h, hq, hfq, hrec⟩ hst =>
      ⟨h.step ho hst hsp, hq.step ho hst, hfq.step hq ho hst hsp, hrec.step ho hst⟩) ms hsp
  generalize opened config world eager stuck log = s at *
  have hnot : ∀ {t result}, (s.moves ms).gripAt t ≠ .ended result := gripAt_ne_ended _ _ _
  refine ⟨fun {t language} hf => ?_, fun hl hp hl' hp' => h.single ho hsp hl hp hl' hp',
    fun hf => h.fate ho hsp hf, fun hf hf' hv hv' => h.once ho hsp hf hf' hv hv', ?_,
    fun {language x} => ⟨fun hx => ?_, ?_⟩, ?_,
    fun hc hv => outcome_of_began (Loaded.keeps_load _) (fun _ => .inl rfl) ho hsp h hc hv _ rfl,
    h'.loading.loaded, ?_, fun hk hj => (hfq hk hj).2, fun {k k' t point point'} hk hk' hp hp' => ?_⟩
  · obtain ⟨before, after, rfl, point, on, hp, locator, rfl⟩ := hf
    obtain ⟨hbefore, hafter⟩ := (along_append before after).1 hsp
    obtain ⟨_, ho₁, _, h₁⟩ := h.along ho hbefore
    rw [moves_append]
    exact (h₁.engined.kept ho₁ hafter (h₁.of_fetching ho₁ hp).2.2.2).phase
  · rintro before after t t' v language rfl hl hv hf
    exact h.last ho hsp hl hv hf
  · obtain ⟨_, t, hr, hout | he⟩ := h'.loading.kept hx
    · exact ⟨t, (hrec t _).1 hr, hout⟩
    · exact absurd he hnot
  · rintro ⟨t, hl, hv⟩
    rcases h'.loading.ended ((hrec t _).2 hl) hv with ⟨y, he, hy⟩ | ⟨f, he, _⟩
    · cases he
      exact hy
    · cases he
  · rintro before after language x rfl hx
    obtain ⟨hbefore, hafter⟩ := (along_append before after).1 hsp
    obtain ⟨_, ho₁, _, h₁⟩ := h.along ho hbefore
    rw [moves_append]
    exact h₁.stays ho₁ hafter hx
  · rw [h'.loading.failures]
    congr 1
    ext t
    constructor
    · rintro ⟨⟨language, hr⟩, hf | ⟨f, he⟩⟩
      · exact ⟨language, (hrec t _).1 hr, hf⟩
      · exact absurd he hnot
    · rintro ⟨language, hl, hf⟩
      exact ⟨⟨language, (hrec t _).2 hl⟩, .inl hf⟩
  · rw [hp] at hp'
    obtain ⟨_, he⟩ := Prod.mk.inj (Option.some.inj hp')
    exact hq.eq_of_promise hk hk' (Option.some.inj he)

/-- A world whose grammar cannot be imported at once. -/
def stumblingGrammar : World where
  modules :=
    (Keyed.empty.put "tree_sitter"
      { members := (Keyed.empty.put makerName (.maker ⟨[]⟩ .parser)).put compilerName
          (.compiler ⟨[]⟩) }).put "tree_sitter_python"
      { imports := ⟨[some (.plain .running "not yet"), none]⟩
        members := Keyed.empty.put "language" (.pointer (.str "python")) }

/-- Two calls ask for the grammar, of which one gives up, and then a third. -/
def thriceRequested : List Service.Move :=
  [.act (.spawn (.load (.str "python"))), .act (.spawn (.load (.str "python")))] ++
    List.replicate 9 (.serve 0) ++ .act (.cancel 0) :: List.replicate 9 (.serve 0) ++
    .act (.spawn (.load (.str "python"))) :: List.replicate 9 (.serve 0)

/-- The first fetch fails, the second one is the last. -/
theorem loads_once_stumbling :
    stumblingGrammar.FetchesWell ∧
      Along SparesOperations (opened {} stumblingGrammar true none []) thriceRequested ∧
      LoadsOnce (opened {} stumblingGrammar true none []) thriceRequested ∧
      ((opened {} stumblingGrammar true none []).moves thriceRequested).counts.grammars = ⟨1, 0, 1⟩ ∧
      ((opened {} stumblingGrammar true none []).moves thriceRequested).grammars.get? "python" =
        some (some 1) := by
  have hw : stumblingGrammar.FetchesWell := .of_entries (by decide +kernel)
  have hsp : Along SparesOperations (opened {} stumblingGrammar true none []) thriceRequested := by
    decide +kernel
  exact ⟨hw, hsp, loads_once {} stumblingGrammar true none [] thriceRequested hw hsp, by decide +kernel,
    by decide +kernel⟩

end SourceTrees.Service
