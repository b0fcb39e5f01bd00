import SourceTrees.Proofs.Service.Attending
import SourceTrees.Proofs.Service.Course

/-!
# The engine is booted once

However many calls need the engine, one boot at a time is at work for all of them.  A boot that fails
leaves the engine to be booted by a later one; one that succeeds is the last.  That is so in every run in
which the engine's imports raise ordinary faults and nobody but their callers are cancelled.

## Protocol

* A boot is **unfinished** as long as its task rests somewhere, and it has **begun** once the task has
  left its start.
* Nothing is assumed of what else is called, of the order in which errands are served and jobs done, nor
  of when the service is closed.

## Results

* `Service.BootsOnce` — the law for a run.
* **`Service.boots_once`** — every run of the kind obeys it.
-/

set_option autoImplicit false

namespace SourceTrees.Service

open Loop

variable {s s' : Service} {roles roles' : Roles Hook Job} {w : Woken} {m : Midst} {mv : Service.Move}
  {ms : List Service.Move} {c op : PromiseId} {turn : Turn Stage Reply}

/-- The law for the state that a run comes to. -/
structure BootsOnce (s : Service) (ms : List Service.Move) : Prop where
  /-- One boot at most is unfinished. -/
  single : ∀ {t t' point point' on on'}, (s.moves ms).loop.place? t = some (.boot point, on) →
    (s.moves ms).loop.place? t' = some (.boot point', on') → t = t'
  /-- The phase is initializing exactly while a boot has begun and is unfinished. -/
  initializing : (s.moves ms).phase = .initializing ↔
    ∃ t point on, (s.moves ms).loop.place? t = some (.boot point, on) ∧ point ≠ .start
  /-- An engine that has been ready on the way is ready and the same, and no import came after it. -/
  kept : ∀ {before after}, ms = before ++ after → (s.moves before).phase = .ready →
    EngineKept (s.moves before) (s.moves ms)
  /-- The engine is there exactly when it is ready. -/
  engine : (∃ name, (s.moves ms).engine? = .ok name) ↔ (s.moves ms).phase = .ready
  /-- Of the boots that were begun all have failed, but one that is at work or has succeeded. -/
  counted : (s.moves ms).counts.boot.operations = (s.moves ms).counts.boot.failures +
    if (s.moves ms).phase = .initializing ∨ (s.moves ms).phase = .ready then 1 else 0
  /-- A call for the boot alone has ended well only if the engine is ready. -/
  returned : ∀ {c v}, Began s ms .init c → (s.moves ms).loop.outcome? c = some (.value v) →
    (s.moves ms).phase = .ready
  /-- Any call that waits for the boot goes on only if the engine is ready. -/
  awaited : ∀ {before mv c point on}, ms = before ++ [mv] →
    (s.moves before).loop.place? c = some (point, on) → point.attends = true →
    ((∃ v, (s.moves ms).loop.outcome? c = some (.value v)) ∨ ∃ point' on',
      (s.moves ms).loop.place? c = some (point', on') ∧ (point', on') ≠ (point, on)) →
    (s.moves ms).phase = .ready
  /-- A boot that fails hands its fault on to every call that has waited for it and is not cancelled. -/
  shared : ∀ {before after c op}, ms = before ++ after → (s.moves before).Attends c op →
    Along (fun s mv => ¬ s.Cancels c mv) (s.moves before) after → (s.moves ms).Receives c op

/-! ## Calls for the boot alone -/

/-- A call for the boot alone rests here. -/
def IsInit (stage : Stage) : Prop := stage = .start .init ∨ stage = .init

/-- A call for the boot alone comes to wait for the boot, or ends.  It ends well if the engine is ready,
    or when it is given something while it waits. -/
theorem goes_init {stage : Stage} (hs : IsInit stage) (given : Except Fault Reply) (s : Service) :
    Goes IsInit (fun o => ∀ v, o = .value v → s.phase = .ready ∨ stage = .init ∧ ∃ r, given = .ok r)
      (Calls.resume stage given s).1 := by
  rcases hs with rfl | rfl
  · cases given with
    | error f => exact fun v hv => by cases Program.ended_eq_value.1 hv
    | ok r =>
      simp only [Calls.resume, Calls.start, Work.run_bind, Work.run_get, attach_boot_eq]
      split
      · rename_i hp
        exact fun _ _ => .inl hp
      · exact .inr rfl
  · cases given with
    | error f => exact fun v hv => by cases Program.ended_eq_value.1 hv
    | ok r => exact fun _ _ => .inr ⟨rfl, r, rfl⟩

/-- The outcome is no value unless the engine is ready. -/
def WellIfReady (s : Service) (o : Settled Reply) : Prop := ∀ v, o = .value v → s.phase = .ready

namespace Engined

theorem goes_init (h : Engined s roles) (ht : HasTurn s roles w m turn) (hs : IsInit w.stage) :
    Goes IsInit (WellIfReady (m.after w.task turn)) turn := by
  have hgoes := Service.goes_init hs w.given w.before
  rw [ht.resumed] at hgoes
  refine hgoes.mono (fun _ => id) fun o hwell v hv => ?_
  have hready : s.phase = .ready := by
    rcases hwell v hv with hp | ⟨hstage, r, hr⟩
    · obtain ⟨i, hb⟩ := ht.before
      rw [hb] at hp
      exact hp
    · exact h.booting.ready_of_given ht (by rw [hstage]; rfl) hr
  exact (EngineKept.of_hasTurn h.booting ht (h.bootsWell ht) hready).phase

/-! ## Runs -/

/-- A call that waits for the boot and is not cancelled follows it. -/
theorem follows (h : Engined s roles) (ho : AtRest s roles) (hsp : Along SparesOperations s ms)
    (hc : Along (fun s mv => ¬ s.Cancels c mv) s ms) (ha : s.Attends c op) :
    (s.moves ms).Receives c op := by
  obtain ⟨hop, hf⟩ := ha.follows ho
  obtain ⟨_, ho', _, ⟨h', hop', hf'⟩⟩ :=
    exists_along (A := fun s mv => SparesOperations s mv ∧ ¬ s.Cancels c mv)
      (I := fun now roles => Engined now roles ∧ roles op = .operation .boot ∧ Follows now roles c op)
      (fun ho _ hmv ⟨h, hop, hf⟩ hst => ⟨h.step ho hst hmv.1, (ho.step hst).2.eq hop (by simp),
        hf.step h.booting hop ho hst hmv.1 hmv.2⟩)
      ms ho (hsp.and hc) ⟨h, hop, hf⟩
  exact hf'.receives h'.booting hop' ho'

/-- What becomes of calls for the boot alone. -/
theorem keeps_init : Keeps SparesOperations Engined c (fun _ => IsInit) WellIfReady where
  step ho _ hsp h hst := h.step ho hst hsp
  turn _ _ h ht _ _ hs := h.goes_init ht hs
  stay _ _ _ _ := id
  keep ho h hst _ hwell v hv := (EngineKept.step h.booting ho h.bootsWell hst (hwell v hv)).phase

/-- A task rests in the course of a boot. -/
theorem of_place? (h : Engined s roles) (ho : AtRest s roles) {t : PromiseId} {point : BootStage}
    {on : Option PromiseId} (hp : s.loop.place? t = some (.boot point, on)) :
    roles t = .operation .boot ∧ s.loop.isPending t = true ∧ s.phase.Suits (Stage.boot point).grip := by
  have hr : roles t = .operation .boot := (ho.placed hp).role
  have hpend := ho.isPending_of_place? hp
  refine ⟨hr, hpend, ?_⟩
  rw [← gripAt_of_place? hp]
  exact h.booting.phase hr hpend

/-- The phase is initializing exactly while a boot has begun and is unfinished. -/
theorem initializing_iff (h : Engined s roles) (ho : AtRest s roles) :
    s.phase = .initializing ↔
      ∃ t point on, s.loop.place? t = some (.boot point, on) ∧ point ≠ .start := by
  constructor
  · intro hi
    obtain ⟨t, hg⟩ := h.booting.begun hi
    obtain ⟨point, on, hp, hpoint⟩ := exists_place?_of_gripAt (s := s) (t := t) (by simp [hg])
    obtain ⟨point, rfl⟩ := Stage.exists_of_role_boot
      ((ho.placed hp).role.symm.trans (h.booting.holder hg).1)
    refine ⟨t, point, on, hp, ?_⟩
    rintro rfl
    rw [hg] at hpoint
    cases hpoint
  · rintro ⟨t, point, on, hp, hne⟩
    have hsuits := (h.of_place? ho hp).2.2
    cases point with
    | start => exact absurd rfl hne
    | importing attempt => exact hsuits
    | pausing attempt timer => exact hsuits

/-- The engine is there exactly when it is ready. -/
theorem engine?_iff (h : Engined s roles) : (∃ name, s.engine? = .ok name) ↔ s.phase = .ready := by
  unfold Service.engine?
  constructor
  · rintro ⟨name, hn⟩
    split at hn
    · assumption
    · cases hn
  · intro hp
    obtain ⟨name, hname⟩ := Option.isSome_iff_exists.1 (h.booting.engine hp)
    exact ⟨name, by rw [hp, hname]⟩

/-- Every run of the kind obeys the law. -/
theorem bootsOnce (h : Engined s roles) (ho : AtRest s roles) (hsp : Along SparesOperations s ms) :
    BootsOnce s ms := by
  obtain ⟨roles', ho', h'⟩ := h.along ho hsp
  refine ⟨fun hp hp' => ?_, h'.initializing_iff ho', ?_, h'.engine?_iff, ?_,
    fun hc hv => outcome_of_began keeps_init (fun _ => .inl rfl) ho hsp h hc hv _ rfl, ?_, ?_⟩
  · obtain ⟨hr, hpend, _⟩ := h'.of_place? ho' hp
    obtain ⟨hr', hpend', _⟩ := h'.of_place? ho' hp'
    exact ho'.boot_unique hr hpend hr' hpend'
  · rintro before after rfl hready
    obtain ⟨hbefore, hafter⟩ := (along_append before after).1 hsp
    obtain ⟨_, ho₁, h₁⟩ := h.along ho hbefore
    rw [moves_append]
    exact h₁.kept ho₁ hafter hready
  · rw [h'.booting.counted]
    cases (s.moves ms).phase <;> rfl
  · rintro before mv c point on rfl hp ha hgo
    obtain ⟨hbefore, hspares, _⟩ := (along_append before [mv]).1 hsp
    obtain ⟨_, ho₁, h₁⟩ := h.along ho hbefore
    obtain ⟨_, hst⟩ := exists_step ho₁ mv
    rw [moves_append] at hgo ⊢
    exact h₁.ready_of_goes ho₁ hst hp ha hgo
  · rintro before after c op rfl ha hc
    obtain ⟨hbefore, hafter⟩ := (along_append before after).1 hsp
    obtain ⟨_, ho₁, h₁⟩ := h.along ho hbefore
    rw [moves_append]
    exact h₁.follows ho₁ hafter hc ha

end Engined

/-- **The engine is booted once.**  In every run of a new service, on any configuration, the law of
    booting holds: whatever the engine's imports come to, provided that they raise ordinary faults only,
    and whatever is called and cancelled, provided that nobody but callers is. -/
theorem boots_once (config : Config) (world : World) (eager : Bool) (stuck : Option Fault)
    (log : List LogLine) (ms : List Service.Move) (hw : world.ImportsWell config.engineModule)
    (hsp : Along SparesOperations (opened config world eager stuck log) ms) :
    BootsOnce (opened config world eager stuck log) ms :=
  (Engined.opened hw eager stuck log).bootsOnce (Ordered.opened ..).rest hsp

/-- A world whose engine cannot be imported at once. -/
def stumbling : World where
  modules := Keyed.empty.put "tree_sitter"
    { imports := ⟨[some (.plain .running "not yet"), none]⟩
      members := (Keyed.empty.put makerName (.maker ⟨[]⟩ .parser)).put compilerName (.compiler ⟨[]⟩) }

/-- The engine is booted for two calls, of which one gives up, and then for a third. -/
def thriceAsked : List Service.Move :=
  [.act (.spawn .init), .act (.spawn .init), .serve 0, .serve 0, .act (.cancel 0)] ++
    List.replicate 9 (.serve 0) ++ .act (.spawn .init) :: List.replicate 7 (.serve 0)

/-- The first boot fails, the second one is the last. -/
theorem boots_once_stumbling :
    stumbling.ImportsWell (Config.engineModule {}) ∧
      Along SparesOperations (opened {} stumbling true none []) thriceAsked ∧
      BootsOnce (opened {} stumbling true none []) thriceAsked ∧
      ((opened {} stumbling true none []).moves thriceAsked).counts.boot = ⟨2, 2, 1⟩ ∧
      ((opened {} stumbling true none []).moves thriceAsked).phase = .ready := by
  have hw : stumbling.ImportsWell (Config.engineModule {}) := .of_entries (by decide +kernel)
  have hsp : Along SparesOperations (opened {} stumbling true none []) thriceAsked := by
    decide +kernel
  exact ⟨hw, hsp, boots_once {} stumbling true none [] thriceAsked hw hsp, by decide +kernel,
    by decide +kernel⟩

end SourceTrees.Service
