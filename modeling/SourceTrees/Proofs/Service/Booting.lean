import SourceTrees.Proofs.Engine.Worlds
import SourceTrees.Proofs.Service.Operations

/-!
# Booting

The phase tells how far the boot is: it is **initializing** while the boot operation is at work, and
**ready** when one has succeeded.  An operation that has been started and not yet begun leaves the phase
alone, and none is started once the engine is ready.

## Results

* `Service.Booting` — the invariant, given what every task has in its hands.
* `Service.Booting.step` — every step keeps it in which no fault but an ordinary one comes to the boot.
* `Service.EngineKept.step` — such a step leaves a ready engine as it is.
* `Service.Engined.step` — where the engine raises ordinary faults only, every step that spares the
  operations is one.
-/

set_option autoImplicit false

namespace SourceTrees

/-- The outcome of importing the engine is the engine or an ordinary fault. -/
def Job.BootsWell (engine : String) : Job → Except Fault Reply → Prop
  | boot name, x => name = engine → ∀ f, x = .error f → f.kind.isOrdinary = true
  | _, _ => True

/-- The phase that goes with what an unfinished boot has in its hands. -/
def Phase.Suits (phase : Phase) : Grip → Prop
  | .boot => phase = initializing
  | .ended _ => phase ≠ initializing
  | _ => phase = uninitialized

/-- What is in hand is neither the boot nor a result. -/
def Grip.IsPlain : Grip → Prop
  | boot | ended _ => False
  | _ => True

theorem Phase.suits_of_isPlain {phase : Phase} {g : Grip} (h : g.IsPlain) :
    phase.Suits g ↔ phase = uninitialized := by
  cases g <;> first | exact Iff.rfl | exact h.elim

namespace Service

open Loop

variable {s s' : Service} {roles roles' : Roles Hook Job} {g g' : PromiseId → Grip} {w : Woken}
  {m m' : Midst} {mv : Service.Move} {t : PromiseId} {turn : Turn Stage Reply} {ms : List Service.Move}

/-- A boot that has its turn meets no fault but an ordinary one of its import. -/
def Woken.BootsWell (w : Woken) : Prop :=
  ∀ point f, w.stage = .boot point → w.given = .error f →
    (∃ attempt, point = .importing attempt) ∧ f.kind.isOrdinary = true

/-- A stride starts a boot, none being unfinished, or it starts none. -/
theorem Stride.boot_cases (ht : InTurn w m) (hst : Stride w m m') :
    ((∀ t, m.roles t = .operation .boot → m.service.loop.isPending t = false) ∧
      (∀ t, m'.roles t = .operation .boot →
        t = m.service.loop.promises.size ∨ m.roles t = .operation .boot) ∧
      m.service.phase ≠ .ready ∧ m'.grip = m.grip ∧ m'.service.phase = m.service.phase ∧
      m'.service.counts = m.service.counts) ∨
    ∀ t, m'.roles t = .operation .boot ↔ m.roles t = .operation .boot := by
  have hext := hst.extends ht
  have hiff : (∀ t, m'.roles t = .operation .boot → m.roles t = .operation .boot) →
      ∀ t, m'.roles t = .operation .boot ↔ m.roles t = .operation .boot :=
    fun h t => ⟨h t, fun hr => hext.eq hr (by simp)⟩
  rcases hst.operation_cases ht with ⟨hook, _, hnone, hall, hg, hp, _, hc, _, hready⟩ | hold
  · cases hook with
    | boot => exact .inl ⟨hnone, fun t hr => (hall t _ hr).imp_left And.left, hready, hg, hp, hc⟩
    | grammar language =>
      refine .inr (hiff fun t hr => ?_)
      rcases hall t _ hr with ⟨_, hk⟩ | hr
      · cases hk
      · exact hr
  · exact .inr (hiff fun t => hold t _)

/-- The boot is as the phase says. -/
structure Booting (s : Service) (roles : Roles Hook Job) (g : PromiseId → Grip) : Prop where
  holder : ∀ {t}, g t = .boot → roles t = .operation .boot ∧ s.loop.isPending t = true
  phase : ∀ {t}, roles t = .operation .boot → s.loop.isPending t = true → s.phase.Suits (g t)
  begun : s.phase = .initializing → ∃ t, g t = .boot
  counted : s.counts.boot.operations =
    s.counts.boot.failures + if s.phase = .uninitialized then 0 else 1
  engine : s.phase = .ready → s.engine.isSome = true
  ended : ∀ {t o}, roles t = .operation .boot → s.loop.outcome? t = some o →
    (∃ v, o = .value v) ∧ s.phase = .ready ∨ ∃ f, o = .failed f ∧ f.kind = .boot
  ending : ∀ {t result}, roles t = .operation .boot → g t = .ended result →
    (∃ v, result = .ok v) ∧ s.phase = .ready ∨ ∃ f, result = .error f ∧ f.kind = .boot

namespace Booting

theorem opened (config : Config) (world : World) (eager : Bool) (stuck : Option Fault)
    (log : List LogLine) :
    Booting (Service.opened config world eager stuck log) (fun _ => .unused) fun _ => .free := by
  refine ⟨fun h => ?_, fun h => ?_, fun h => ?_, ?_, fun h => ?_, fun h => ?_, fun h => ?_⟩
  · cases h
  · cases h
  · simp at h
  · simp
  · simp at h
  · cases h
  · cases h

/-- The boots, the phase and the counters are as before; what tasks have in their hands says the same
    about boots. -/
theorem next (h : Booting s roles g) (hp : s'.phase = s.phase) (he : s'.engine = s.engine)
    (hc : s'.counts.boot.operations = s.counts.boot.operations ∧
      s'.counts.boot.failures = s.counts.boot.failures)
    (hroles : ∀ t, roles' t = .operation .boot ↔ roles t = .operation .boot)
    (hout : ∀ t, roles t = .operation .boot → s'.loop.isPending t = s.loop.isPending t ∧
      s'.loop.outcome? t = s.loop.outcome? t)
    (hg : ∀ t, g' t = .boot ↔ g t = .boot)
    (hsuits : ∀ t, roles t = .operation .boot → s.loop.isPending t = true →
      s.phase.Suits (g t) → s.phase.Suits (g' t))
    (hended : ∀ t result, roles t = .operation .boot → g' t = .ended result → g t = .ended result) :
    Booting s' roles' g' := by
  refine ⟨fun {t} ht => ?_, fun {t} hr ho => ?_, fun hi => ?_, ?_, fun hi => ?_, fun {t o} hr ho => ?_,
    fun {t result} hr ht => ?_⟩
  · obtain ⟨hr, ho⟩ := h.holder ((hg t).1 ht)
    exact ⟨(hroles t).2 hr, (hout t hr).1.trans ho⟩
  · have hr' := (hroles t).1 hr
    have ho' := (hout t hr').1.symm.trans ho
    rw [hp]
    exact hsuits t hr' ho' (h.phase hr' ho')
  · obtain ⟨t, ht⟩ := h.begun (hp ▸ hi)
    exact ⟨t, (hg t).2 ht⟩
  · rw [hc.1, hc.2, hp]
    exact h.counted
  · rw [he]
    exact h.engine (hp ▸ hi)
  · have hr' := (hroles t).1 hr
    rw [hp]
    exact h.ended hr' ((hout t hr').2.symm.trans ho)
  · have hr' := (hroles t).1 hr
    rw [hp]
    exact h.ending hr' (hended t result hr' ht)

/-! ## Strides -/

/-- The boot that has its turn is under way, so that the engine is not ready. -/
theorem phase_ne_ready (h : Booting m.service m.roles (w.grips m.grip)) (ht : InTurn w m)
    (hrole : m.roles w.task = .operation .boot) (hg : ∀ result, m.grip ≠ .ended result) :
    m.service.phase ≠ .ready := by
  have hsuits := h.phase hrole ht.unfinished.2
  rw [grips_self] at hsuits
  intro hr
  cases hm : m.grip with
  | ended result => exact hg result hm
  | boot =>
    rw [hm, hr] at hsuits
    cases hsuits
  | _ =>
    rw [hm, hr] at hsuits
    cases hsuits

/-- The stride is not about boots. -/
theorem calm (h : Booting m.service m.roles (w.grips m.grip)) (ht : InTurn w m)
    (hroles : ∀ t, m'.roles t = .operation .boot ↔ m.roles t = .operation .boot)
    (hout : ∀ t, m.roles t = .operation .boot →
      m'.service.loop.isPending t = m.service.loop.isPending t ∧
      m'.service.loop.outcome? t = m.service.loop.outcome? t)
    (hp : m'.service.phase = m.service.phase) (he : m'.service.engine = m.service.engine)
    (hc : m'.service.counts.boot.operations = m.service.counts.boot.operations ∧
      m'.service.counts.boot.failures = m.service.counts.boot.failures)
    (hg : m'.grip = m.grip ∨ m.grip.IsPlain ∧ (m'.grip.IsPlain ∨
      m'.grip ≠ .boot ∧ w.stage.role ≠ .operation .boot)) :
    Booting m'.service m'.roles (w.grips m'.grip) := by
  rcases hg with hg | ⟨hplain, hg⟩
  · rw [hg]
    exact h.next hp he hc hroles hout (fun _ => Iff.rfl) (fun _ _ _ => id) fun _ _ _ => id
  · have hne : m.grip ≠ .boot ∧ m'.grip ≠ .boot := by
      refine ⟨fun hm => ?_, fun hm => ?_⟩
      · rw [hm] at hplain
        exact hplain
      · rcases hg with hg | hg
        · rw [hm] at hg
          exact hg
        · exact hg.1 hm
    have hother : ∀ {t}, t ≠ w.task → w.grips m'.grip t = w.grips m.grip t := fun he =>
      (grips_of_ne he).trans (grips_of_ne he).symm
    refine h.next hp he hc hroles hout (fun t => ?_) (fun t hr _ hsuits => ?_) fun t result hr ht' => ?_
    · by_cases heq : t = w.task
      · subst heq
        rw [grips_self, grips_self]
        exact ⟨fun hm => absurd hm hne.2, fun hm => absurd hm hne.1⟩
      · rw [hother heq]
    · by_cases heq : t = w.task
      · subst heq
        rw [grips_self] at hsuits ⊢
        rcases hg with hg | hg
        · exact (Phase.suits_of_isPlain hg).2 ((Phase.suits_of_isPlain hplain).1 hsuits)
        · exact absurd (ht.unfinished.1.symm.trans hr) hg.2
      · rw [hother heq]
        exact hsuits
    · by_cases heq : t = w.task
      · subst heq
        rw [grips_self] at ht'
        rcases hg with hg | hg
        · rw [ht'] at hg
          exact hg.elim
        · exact absurd (ht.unfinished.1.symm.trans hr) hg.2
      · rw [hother heq] at ht'
        exact ht'

/-- The boot that has its turn goes on to another phase. -/
theorem turned (h : Booting m.service m.roles (w.grips m.grip)) (ht : InTurn w m)
    (hrole : m.roles w.task = .operation .boot) (hg : ∀ result, m.grip ≠ .ended result)
    (hr : m'.roles = m.roles) (hl : m'.service.loop = m.service.loop)
    (hsuits : m'.service.phase.Suits m'.grip)
    (hbegun : m'.service.phase = .initializing → m'.grip = .boot)
    (hcounted : m'.service.counts.boot.operations =
      m'.service.counts.boot.failures + if m'.service.phase = .uninitialized then 0 else 1)
    (hengine : m'.service.phase = .ready → m'.service.engine.isSome = true)
    (hending : ∀ result, m'.grip = .ended result → (∃ v, result = .ok v) ∧ m'.service.phase = .ready ∨
      ∃ f, result = .error f ∧ f.kind = .boot) :
    Booting m'.service m'.roles (w.grips m'.grip) := by
  have hp := ht.unfinished.2
  have honly : ∀ {t}, m.roles t = .operation .boot → m.service.loop.isPending t = true →
      t = w.task := fun hr' hp' => ht.ordered.boot_unique hr' hp' hrole hp
  refine ⟨fun {t} hb => ?_, fun {t} hr' hp' => ?_, fun hi => ⟨w.task, ?_⟩, hcounted, hengine,
    fun {t o} hr' ho => ?_, fun {t result} _ he => ?_⟩
  · rw [hr, hl]
    by_cases heq : t = w.task
    · exact heq ▸ ⟨hrole, hp⟩
    · rw [grips_of_ne heq] at hb
      exact h.holder ((grips_of_ne heq).trans hb)
  · rw [hr] at hr'
    rw [hl] at hp'
    obtain rfl := honly hr' hp'
    rw [grips_self]
    exact hsuits
  · rw [grips_self]
    exact hbegun hi
  · rw [hr] at hr'
    rw [hl] at ho
    rcases h.ended hr' ho with ⟨_, hready⟩ | hf
    · exact absurd hready (h.phase_ne_ready ht hrole hg)
    · exact .inr hf
  · by_cases heq : t = w.task
    · subst heq
      rw [grips_self] at he
      exact hending result he
    · rw [grips_of_ne heq] at he
      exact absurd he (gripAt_ne_ended _ _ _)

/-- A boot is started, there being none. -/
theorem launched (h : Booting m.service m.roles (w.grips m.grip)) (ht : InTurn w m)
    (hst : Stride w m m') (hnone : ∀ t, m.roles t = .operation .boot → m.service.loop.isPending t = false)
    (hroles : ∀ t, m'.roles t = .operation .boot →
      t = m.service.loop.promises.size ∨ m.roles t = .operation .boot)
    (hready : m.service.phase ≠ .ready) (hg : m'.grip = m.grip)
    (hp : m'.service.phase = m.service.phase) (hc : m'.service.counts = m.service.counts) :
    Booting m'.service m'.roles (w.grips m'.grip) := by
  have hext := hst.extends ht
  have hnot : ∀ {t}, w.grips m.grip t ≠ .boot := by
    intro t hb
    obtain ⟨hr, hpend⟩ := h.holder hb
    rw [hnone t hr] at hpend
    cases hpend
  have hun : m.service.phase = .uninitialized := by
    cases hphase : m.service.phase with
    | uninitialized => rfl
    | initializing =>
      obtain ⟨t, hb⟩ := h.begun hphase
      exact absurd hb hnot
    | ready => exact absurd hphase hready
  rw [hg]
  refine ⟨fun hb => absurd hb hnot, fun {t} hr hpend => ?_, fun hi => ?_, ?_, fun hi => ?_,
    fun {t o} hr ho => ?_, fun {t result} hr he => ?_⟩
  · rcases hroles t hr with rfl | hr
    · have hne : m.service.loop.promises.size ≠ w.task := (Nat.ne_of_lt ht.task_lt).symm
      rw [grips_of_ne hne, hp, hun]
      cases hgrip : w.before.gripAt m.service.loop.promises.size with
      | boot => exact absurd ((grips_of_ne hne).trans hgrip) hnot
      | ended result => exact absurd hgrip (gripAt_ne_ended _ _ _)
      | _ => rfl
    · rw [Stride.isPending_operation ht hst hr, hnone t hr] at hpend
      cases hpend
  · rw [hp, hun] at hi
    cases hi
  · rw [hc, hp]
    exact h.counted
  · rw [hp, hun] at hi
    cases hi
  · have ho' : m.service.loop.outcome? t = some o := by
      rw [hst.outcome?_eq ht fun language hl => ?_] at ho
      · exact ho
      · rw [hext.eq hl (by simp)] at hr
        cases hr
    have hr' : m.roles t = .operation .boot := by
      rw [← hext t (ht.ordered.sound.assigned.role_ne_unused (outcome?_lt ho')), hr]
    rw [hp]
    exact h.ended hr' ho'
  · by_cases heq : t = w.task
    · subst heq
      have hrole : m.roles w.task = .operation .boot := by
        rw [← hext w.task (ht.ordered.sound.assigned.role_ne_unused ht.task_lt), hr]
      have hpend := ht.unfinished.2
      rw [hnone _ hrole] at hpend
      cases hpend
    · rw [grips_of_ne heq] at he
      exact absurd he (gripAt_ne_ended _ _ _)

/-- Every stride of a turn in which no fault but an ordinary one comes to the boot keeps it. -/
theorem stride (h : Booting m.service m.roles (w.grips m.grip)) (ht : InTurn w m)
    (hw : w.BootsWell) (hst : Stride w m m') :
    Booting m'.service m'.roles (w.grips m'.grip) := by
  rcases hst.boot_cases ht with ⟨hnone, hroles, hready, hg, hp, hc⟩ | hroles
  · exact h.launched ht hst hnone hroles hready hg hp hc
  have hout : ∀ t, m.roles t = .operation .boot →
      m'.service.loop.isPending t = m.service.loop.isPending t ∧
      m'.service.loop.outcome? t = m.service.loop.outcome? t := fun t hr =>
    ⟨hst.isPending_operation ht hr, hst.outcome?_eq ht (by simp [hr])⟩
  have hboot : ∀ {point}, w.stage = .boot point → m.roles w.task = .operation .boot := by
    intro point hs
    rw [ht.unfinished.1, hs]
    rfl
  have hfetch : ∀ {point}, w.stage = .fetch point → w.stage.role ≠ .operation .boot := by
    rintro (_ | _) hs <;> simp [hs, Stage.role]
  have hheld : m.grip = .boot →
      m.roles w.task = .operation .boot ∧ m.service.phase = .initializing := by
    intro hg
    have hr := (h.holder (grips_self.trans hg)).1
    have hsuits := h.phase hr ht.unfinished.2
    rw [grips_self, hg] at hsuits
    exact ⟨hr, hsuits⟩
  cases hst with
  | counted n => cases n <;> exact h.calm ht hroles hout rfl rfl ⟨rfl, rfl⟩ (.inl rfl)
  | submitted crew hc hg =>
    obtain ⟨_, hp, he, _, hcounts⟩ := @Work.known_handedIn m.service crew _
    refine h.calm ht hroles hout hp he (by rw [hcounts]; exact ⟨rfl, rfl⟩) ?_
    generalize m.grip = before at hg ⊢
    cases hg with
    | boot => exact .inl rfl
    | fetch hs hk he => exact .inr ⟨trivial, .inl trivial⟩
    | parse language source => exact .inr ⟨trivial, .inl trivial⟩
    | copy language source root => exact .inl rfl
  | dismissed =>
    obtain ⟨_, hp, he, _, hcounts⟩ := Work.known_dismiss (s := m.service)
    exact h.calm ht hroles hout hp he (by rw [hcounts]; exact ⟨rfl, rfl⟩) (.inl rfl)
  | bootBegun hs hg =>
    have hsuits := h.phase (hboot hs) ht.unfinished.2
    rw [grips_self, hg] at hsuits
    refine h.turned ht (hboot hs) (by simp [hg]) rfl rfl rfl (fun _ => rfl) ?_ (by simp) (by simp)
    have hcounted := h.counted
    rw [show m.service.phase = .uninitialized from hsuits] at hcounted
    simpa using hcounted
  | @bootFailed f hf hg =>
    obtain ⟨hr, hphase⟩ := hheld hg
    have hf' : f.kind.isOrdinary = true := by
      rcases hf with hf | rfl
      · obtain ⟨point, hs⟩ := Stage.exists_of_role_boot (ht.unfinished.1.symm.trans hr)
        exact (hw point f hs hf).2
      · rfl
    refine h.turned ht hr (by simp [hg]) rfl rfl (by simp [Phase.Suits]) (by simp) ?_ (by simp)
      fun result he => ?_
    · have hcounted := h.counted
      rw [hphase] at hcounted
      show (m.service.counts.bootFailed f).boot.operations =
        (m.service.counts.bootFailed f).boot.failures + 0
      rw [Counts.bootFailed, if_pos hf']
      simpa using hcounted
    · cases he
      exact .inr ⟨_, rfl, Boot.kind_raised hf'⟩
  | bootReady hs hr hg =>
    have hcounted := h.counted
    rw [(hheld hg).2] at hcounted
    refine h.turned ht (hboot hs) (by simp [hg]) rfl rfl (by simp [Phase.Suits]) (by simp) hcounted
      (fun _ => rfl) fun result he => ?_
    cases he
    exact .inl ⟨⟨_, rfl⟩, rfl⟩
  | bootAbandoned hs hf hg =>
    obtain ⟨⟨attempt, hpoint⟩, _⟩ := hw _ _ hs hf
    cases hpoint
  | fetchKept hs hk hg =>
    exact h.calm ht hroles hout rfl rfl ⟨rfl, rfl⟩ (.inr ⟨hg ▸ trivial, .inr ⟨by simp, hfetch hs⟩⟩)
  | fetchRefused hs he hg =>
    exact h.calm ht hroles hout rfl rfl ⟨rfl, rfl⟩ (.inr ⟨hg ▸ trivial, .inr ⟨by simp, hfetch hs⟩⟩)
  | fetchAbandoned hs hf hg =>
    exact h.calm ht hroles hout rfl rfl ⟨rfl, rfl⟩ (.inr ⟨hg ▸ trivial, .inr ⟨by simp, hfetch hs⟩⟩)
  | fetched hs hr hg =>
    exact h.calm ht hroles hout rfl rfl ⟨rfl, rfl⟩ (.inr ⟨hg ▸ trivial, .inr ⟨by simp, hfetch hs⟩⟩)
  | @fetchFailed language locator f hs =>
    refine h.calm ht hroles hout rfl rfl ?_ (.inr ?_)
    · show (m.service.counts.loadFailed f).boot.operations = _ ∧ _
      unfold Counts.loadFailed
      split <;> exact ⟨rfl, rfl⟩
    · rcases hs with ⟨hs, _, hg⟩ | ⟨hs, _, hg⟩
      · exact ⟨hg ▸ trivial, .inr ⟨by simp, hfetch hs⟩⟩
      · exact ⟨hg ▸ trivial, .inr ⟨by simp, hfetch hs⟩⟩
  | taken hg hp hheld hall =>
    exact h.calm ht hroles hout rfl rfl ⟨rfl, rfl⟩ (.inr ⟨hg ▸ trivial, .inl trivial⟩)
  | admitted hg hp =>
    exact h.calm ht hroles hout rfl rfl ⟨rfl, rfl⟩ (.inr ⟨hg ▸ trivial, .inl trivial⟩)
  | drawn hg hp =>
    exact h.calm ht hroles hout rfl rfl ⟨rfl, rfl⟩ (.inr ⟨hg ▸ trivial, .inl trivial⟩)
  | withdrawn hs hg hp =>
    refine h.calm ht hroles hout rfl rfl ⟨rfl, rfl⟩ (.inr ⟨hg ▸ trivial, .inl ?_⟩)
    cases w.given <;> trivial
  | released hp hg =>
    refine h.calm ht hroles hout rfl rfl ⟨rfl, rfl⟩ (.inr ⟨?_, .inl trivial⟩)
    rcases hg with hg | ⟨job, hg, _⟩ <;> exact hg ▸ trivial
  | _ => exact h.calm ht hroles hout rfl rfl ⟨rfl, rfl⟩ (.inl rfl)

theorem strides (h : Booting m.service m.roles (w.grips m.grip)) (ht : InTurn w m)
    (hw : w.BootsWell) (hst : Strides w m m') :
    Booting m'.service m'.roles (w.grips m'.grip) := by
  induction hst with
  | refl => exact h
  | tail hst hstep ih => exact ih.stride (ht.strides hst) hw hstep

/-! ## Steps -/

/-- The end of a turn keeps it. -/
theorem conclude (h : Booting m.service m.roles (w.grips m.grip)) (ht : HasTurn s roles w m turn)
    (ho' : AtRest { m.service with loop := Program.conclude w.task turn m.service.loop } m.roles) :
    Booting { m.service with loop := Program.conclude w.task turn m.service.loop } m.roles
      (w.gripsAfter m.grip turn) := by
  have hgrips : ∀ {t}, (Program.conclude w.task turn m.service.loop).isPending t = true →
      w.gripsAfter m.grip turn t = w.grips m.grip t := by
    intro t hp
    by_cases he : t = w.task
    · subst he
      cases turn with
      | rest on point => rfl
      | giveWay point => rfl
      | finish result =>
        rw [isPending_of_outcome? (outcome?_finish ht.inTurn.unfinished.2 result)] at hp
        cases hp
    · rw [gripsAfter_of_ne he, grips_of_ne he]
  have hpending : ∀ {t}, (Program.conclude w.task turn m.service.loop).isPending t = true →
      m.roles t = .operation .boot → m.service.loop.isPending t = true := by
    intro t hp hr
    by_contra hne
    rw [(Later.conclude w.task turn).isPending_eq_false
      (ht.inTurn.ordered.sound.assigned.lt_size (by simp [hr])) (by simpa using hne)] at hp
    cases hp
  refine ⟨fun {t} hb => ?_, fun {t} hr hp => ?_, fun hi => ?_, h.counted, h.engine,
    fun {t o} hr ho => ?_, fun {t result} hr he => ?_⟩
  · refine ⟨(h.holder (grips_of_gripsAfter hb (by simp))).1, ?_⟩
    rw [← ht.gripAt_conclude] at hb
    obtain ⟨point, on, hplace, _⟩ := exists_place?_of_gripAt (t := t) (by rw [hb]; simp)
    exact ho'.isPending_of_place? hplace
  · rw [hgrips hp]
    exact h.phase hr (hpending hp hr)
  · obtain ⟨t, hb⟩ := h.begun hi
    exact ⟨t, ht.ends.gripsAfter_eq hb (by simp) (by simp)⟩
  · rcases ht.outcome?_operation hr ho with ho | ⟨rfl, result, rfl, rfl, hg⟩
    · exact h.ended hr ho
    · rcases h.ending hr (grips_self.trans hg) with ⟨⟨v, rfl⟩, hphase⟩ | ⟨f, rfl, hf⟩
      · exact .inl ⟨⟨v, rfl⟩, hphase⟩
      · exact .inr ⟨f, by simp [Program.ended, hf], hf⟩
  · rw [← ht.gripAt_conclude] at he
    exact absurd he (gripAt_ne_ended _ _ _)

/-- What happens between turns keeps it. -/
theorem aside (h : Booting s roles s.gripAt) (ha : Aside s roles s' roles') (ho : AtRest s roles)
    (hst : Step s roles mv s' roles') : Booting s' roles' s'.gripAt := by
  have hext := (ho.step hst).2
  rw [ha.gripAt_eq]
  refine h.next ha.phase ha.engine (by rw [ha.counts]; exact ⟨rfl, rfl⟩)
    (fun t => ⟨fun hr => (ha.outcome?_operation ho hst hr).1, fun hr => hext.eq hr (by simp)⟩)
    (fun t hr => (ha.outcome?_operation ho hst (hext.eq hr (by simp))).2) (fun _ => Iff.rfl)
    (fun _ _ _ => id) fun _ _ _ => id

/-- A task takes its turn. -/
theorem takeUp (h : Booting s roles s.gripAt) (ht : HasTurn s roles w m turn) :
    Booting w.before roles (w.grips w.stage.grip) := by
  obtain ⟨i, hb⟩ := ht.before
  rw [ht.grips_eq, hb]
  exact h.next rfl rfl ⟨rfl, rfl⟩ (fun _ => Iff.rfl) (fun _ _ => ⟨rfl, rfl⟩) (fun _ => Iff.rfl)
    (fun _ _ _ => id) fun _ _ _ => id

/-- Every step in which no fault but an ordinary one comes to the boot keeps it. -/
theorem step (h : Booting s roles s.gripAt) (ho : AtRest s roles)
    (hw : ∀ {w m turn}, HasTurn s roles w m turn → w.BootsWell)
    (hst : Step s roles mv s' roles') : Booting s' roles' s'.gripAt := by
  rcases hst.aside_or_turn ho with ha | ⟨w, m, turn, ht, rfl, rfl⟩
  · exact h.aside ha ho hst
  · rw [ht.gripAt_conclude]
    refine conclude ?_ ht (ho.step hst).1
    exact strides (m := ⟨w.before, roles, w.stage.grip⟩) (h.takeUp ht) ht.started (hw ht) ht.strides

end Booting

/-- A task that is given something by the boot is given it by a boot that has succeeded. -/
theorem Booting.ready_of_given (h : Booting s roles s.gripAt) (ht : HasTurn s roles w m turn)
    (hs : w.stage.rest = .shield .boot) {r : Reply} (hr : w.given = .ok r) : s.phase = .ready := by
  obtain ⟨i, hb⟩ := ht.before
  obtain ⟨op, hop, ho⟩ := ht.started.shielded hs hr
  have ho' : w.before.loop.outcome? op = some (.value r) := ho
  rw [hb] at ho'
  rcases h.ended hop ho' with ⟨_, hready⟩ | ⟨f, he, _⟩
  · exact hready
  · cases he

/-! ## The engine -/

/-- The engine stays ready and as it is, and nobody imports another. -/
structure EngineKept (s s' : Service) : Prop where
  phase : s'.phase = .ready
  engine : s'.engine = s.engine
  counts : s'.counts.boot = s.counts.boot
  queue : ∀ k ∈ s'.workers.queue, k ∈ s.workers.queue ∨ ∀ name, k.job ≠ .boot name

namespace EngineKept

theorem of_queue (hp : s.phase = .ready) (hp' : s'.phase = s.phase) (he : s'.engine = s.engine)
    (hc : s'.counts.boot = s.counts.boot)
    (hq : ∀ k ∈ s'.workers.queue, k ∈ s.workers.queue) : EngineKept s s' :=
  ⟨hp'.trans hp, he, hc, fun k hk => .inl (hq k hk)⟩

theorem refl (h : s.phase = .ready) : EngineKept s s := .of_queue h rfl rfl rfl fun _ => id

theorem trans {s'' : Service} (h : EngineKept s s') (h' : EngineKept s' s'') : EngineKept s s'' := by
  refine ⟨h'.phase, h'.engine.trans h.engine, h'.counts.trans h.counts, fun k hk => ?_⟩
  rcases h'.queue k hk with hk | hk
  · exact h.queue k hk
  · exact .inr hk

/-- A stride from a ready engine on: the task that makes it has no boot in its hands. -/
theorem stride (h : Booting m.service m.roles (w.grips m.grip)) (ht : InTurn w m)
    (hst : Stride w m m') (hready : m.service.phase = .ready) : EngineKept m.service m'.service := by
  have hidle : m.grip ≠ .boot := by
    intro hg
    have hr := (h.holder (grips_self.trans hg)).1
    exact h.phase_ne_ready ht hr (by simp [hg]) hready
  cases hst with
  | counted n => cases n <;> exact .of_queue hready rfl rfl rfl fun _ => id
  | @submitted crew job grip hc hg =>
    obtain ⟨_, hp, he, _, hcounts⟩ := @Work.known_handedIn m.service crew job
    refine ⟨hp.trans hready, he, by rw [hcounts], fun k hk => ?_⟩
    unfold Work.handedIn at hk
    split at hk
    · exact .inl hk
    rcases List.mem_append.1 hk with hk | hk
    · exact .inl hk
    · rw [List.mem_singleton.1 hk]
      generalize m.grip = before at hg hidle
      cases hg with
      | boot => exact absurd rfl hidle
      | _ => exact .inr nofun
  | dismissed =>
    obtain ⟨_, hp, he, _, hcounts⟩ := Work.known_dismiss (s := m.service)
    refine .of_queue hready hp he (by rw [hcounts]) fun k hk => ?_
    rw [Work.dismiss_eq] at hk
    split at hk
    · exact hk
    · exact (List.mem_filter.1 hk).1
  | bootBegun hs hg =>
    have hr : m.roles w.task = .operation .boot := by
      rw [ht.unfinished.1, hs]
      rfl
    exact absurd hready (h.phase_ne_ready ht hr (by simp [hg]))
  | bootTried hg => exact absurd hg hidle
  | bootFailed hf hg => exact absurd hg hidle
  | bootReady hs hr hg => exact absurd hg hidle
  | @fetchFailed language locator f hs =>
    refine .of_queue hready rfl rfl ?_ fun _ => id
    show (m.service.counts.loadFailed f).boot = _
    unfold Counts.loadFailed
    split <;> rfl
  | _ => exact .of_queue hready rfl rfl rfl fun _ => id

theorem strides (h : Booting m.service m.roles (w.grips m.grip)) (ht : InTurn w m)
    (hw : w.BootsWell) (hst : Strides w m m') (hready : m.service.phase = .ready) :
    EngineKept m.service m'.service := by
  induction hst with
  | refl => exact .refl hready
  | tail hst hstep ih => exact ih.trans (stride (h.strides ht hw hst) (ht.strides hst) hstep ih.phase)

theorem of_hasTurn (h : Booting s roles s.gripAt) (ht : HasTurn s roles w m turn) (hw : w.BootsWell)
    (hready : s.phase = .ready) :
    EngineKept s { m.service with loop := Program.conclude w.task turn m.service.loop } := by
  obtain ⟨i, hb⟩ := ht.before
  have hk := strides (m := ⟨w.before, roles, w.stage.grip⟩) (h.takeUp ht) ht.started hw ht.strides
    (by rw [hb]; exact hready)
  rw [hb] at hk
  exact ⟨hk.phase, hk.engine, hk.counts, hk.queue⟩

/-- Every step leaves a ready engine as it is. -/
theorem step (h : Booting s roles s.gripAt) (ho : AtRest s roles)
    (hw : ∀ {w m turn}, HasTurn s roles w m turn → w.BootsWell)
    (hst : Step s roles mv s' roles') (hready : s.phase = .ready) : EngineKept s s' := by
  rcases hst.idles ho with ⟨i, k, hi, rfl⟩ | hi | ⟨w, m, turn, ht, rfl, _⟩
  · rw [Work.workOff_eq hi]
    exact .of_queue hready rfl rfl rfl fun _ hk => List.mem_of_mem_eraseIdx hk
  · rcases hst.aside_or_turn ho with ha | ⟨w, m, turn, ht, rfl, _⟩
    · exact .of_queue hready ha.phase ha.engine (by rw [ha.counts]) fun _ hk => hi.queue ▸ hk
    · exact of_hasTurn h ht (hw ht) hready
  · exact of_hasTurn h ht (hw ht) hready

end EngineKept

/-! ## Worlds that import well -/

theorem sure_bootsWell (engine : String) :
    Sure (World.ImportsWell engine) fun _ => Job.BootsWell engine where
  kept := ⟨_, _, World.ImportsWell.kept engine⟩
  lasting _ := id
  run job w hw := by
    cases job with
    | boot name =>
      rintro rfl f hf
      have hm := World.ImportsWell.loadEngine name w hw
      replace hf : Work.reply (fun _ => .engine name) ((Attempt.loadEngine name).run w).1 =
        .error f := hf
      cases hr : (Attempt.loadEngine name).run w with
      | mk r w' =>
        rw [hr] at hf hm
        cases r with
        | ok a => cases hf
        | error g =>
          cases hf
          exact hm.1
    | _ => trivial

/-- The boot meets no fault but an ordinary one of its import. -/
theorem Answered.bootsWell (h : Answered (fun _ => Job.BootsWell s.config.engineModule) s roles)
    (ht : HasTurn s roles w m turn) : w.BootsWell := by
  intro point f hs hf
  have hg := h.given ht (by rw [hs]; simp [Stage.role])
  rw [hs, hf] at hg
  cases point with
  | importing attempt => exact ⟨⟨attempt, rfl⟩, hg rfl f rfl⟩
  | start => cases hg
  | pausing attempt timer => cases hg

/-- The boot is as the phase says, and goes on so: the engine raises ordinary faults only. -/
structure Engined (s : Service) (roles : Roles Hook Job) : Prop where
  world : s.world.ImportsWell s.config.engineModule
  answered : Answered (fun _ => Job.BootsWell s.config.engineModule) s roles
  booting : Booting s roles s.gripAt

namespace Engined

theorem opened {config : Config} {world : World} (hw : world.ImportsWell config.engineModule)
    (eager : Bool) (stuck : Option Fault) (log : List LogLine) :
    Engined (Service.opened config world eager stuck log) fun _ => .unused := by
  refine ⟨?_, .opened .., ?_⟩
  · rw [config_opened, world_opened]
    exact hw
  · rw [gripAt_opened]
    exact .opened ..

theorem bootsWell (h : Engined s roles) (ht : HasTurn s roles w m turn) : w.BootsWell :=
  h.answered.bootsWell ht

/-- Every step that spares the operations keeps it. -/
theorem step (h : Engined s roles) (ho : AtRest s roles) (hst : Step s roles mv s' roles')
    (hsp : SparesOperations s mv) : Engined s' roles' := by
  have hc := (hst.engine_named ho).1
  refine ⟨?_, ?_, h.booting.step ho h.bootsWell hst⟩
  · rw [hc]
    exact hst.keeps (World.ImportsWell.kept _) h.world
  · rw [hc]
    exact h.answered.step (sure_bootsWell _) ho hst hsp h.world

/-- A run that spares the operations goes on so. -/
theorem along (h : Engined s roles) (ho : AtRest s roles) (hsp : Along SparesOperations s ms) :
    ∃ roles', AtRest (s.moves ms) roles' ∧ Engined (s.moves ms) roles' := by
  obtain ⟨roles', ho', _, h'⟩ :=
    exists_along (I := Engined) (fun ho _ hsp h hst => h.step ho hst hsp) ms ho hsp h
  exact ⟨roles', ho', h'⟩

/-- In a run from a ready engine the engine stays as it is. -/
theorem kept (h : Engined s roles) (ho : AtRest s roles) (hsp : Along SparesOperations s ms)
    (hready : s.phase = .ready) : EngineKept s (s.moves ms) := by
  obtain ⟨_, _, _, _, hk⟩ :=
    exists_along (I := fun now roles => Engined now roles ∧ EngineKept s now)
      (fun ho _ hsp ⟨h, hk⟩ hst =>
        ⟨h.step ho hst hsp, hk.trans (.step h.booting ho h.bootsWell hst hk.phase)⟩)
      ms ho hsp ⟨h, .refl hready⟩
  exact hk

end Engined

end Service

end SourceTrees
