import Mathlib.Data.Set.Card
import SourceTrees.Proofs.Service.Booting

/-!
# Loading

A grammar is kept by the load that has fetched it.  A load that finds one kept does not fetch, so that
the table of a language is empty as long as a fetch is at work for it, and what has been kept stays.

## Results

* `Service.Loading` — the invariant, given what every task has in its hands.
* `Service.Loading.step` — every step keeps it in which a load meets no fault but an ordinary one, and no
  null grammar.
* `Service.Loaded.step` — where engine and grammars raise ordinary faults only and no null grammar is
  compiled, every step that spares the operations is one.
-/

set_option autoImplicit false

namespace SourceTrees

/-- The outcome of fetching a grammar is one that is not null, or an ordinary fault. -/
def Job.LoadsWell : Job → Except Fault Reply → Prop
  | grammar .., .ok r => r.toGrammar.isSome = true
  | grammar .., .error f => f.kind.isOrdinary = true
  | _, _ => True

namespace Service

open Loop

variable {s s' : Service} {roles roles' : Roles Hook Job} {g g' : PromiseId → Grip} {w : Woken}
  {m m' : Midst} {mv : Service.Move} {t : PromiseId} {turn : Turn Stage Reply} {language : String}

theorem get?_of_kept? {x : Grammar} (h : Grammars.kept? s language = some x) :
    s.grammars.get? language = some x := (Option.filter_eq_some_iff.1 h).1

/-- A load that has its turn meets no fault but an ordinary one of its fetch, and no null grammar. -/
structure Woken.LoadsWell (w : Woken) : Prop where
  fault : ∀ {point f}, w.stage = .fetch point → w.given = .error f →
    (∃ language locator, point = .fetching language locator) ∧ f.kind.isOrdinary = true
  grammar : ∀ {language locator r}, w.stage = .fetch (.fetching language locator) →
    w.given = .ok r → r.toGrammar.isSome = true

/-- A stride leaves the kept grammars, or it keeps the one that has been fetched. -/
theorem Stride.grammars_cases (hst : Stride w m m') :
    m'.service.grammars = m.service.grammars ∨ ∃ language locator r,
      w.stage = .fetch (.fetching language locator) ∧ w.given = .ok r ∧ m.grip = .fetch language ∧
        m'.service.grammars = m.service.grammars.put language r.toGrammar := by
  cases hst with
  | submitted crew hc hg => exact .inl Work.known_handedIn.2.2.2.1
  | fetched hs hr hg => exact .inr ⟨_, _, _, hs, hr, hg, rfl⟩
  | dismissed => exact .inl Work.known_dismiss.2.2.2.1
  | _ => exact .inl rfl

/-- A grammar that comes to be kept in a turn has been fetched. -/
theorem Strides.get?_grammars (hst : Strides w m m') {x : Grammar}
    (hx : m'.service.grammars.get? language = some x) :
    m.service.grammars.get? language = some x ∨
      ∃ locator r, w.stage = .fetch (.fetching language locator) ∧ w.given = .ok r ∧
        x = r.toGrammar := by
  induction hst with
  | refl => exact .inl hx
  | tail _ hstep ih =>
    rcases hstep.grammars_cases with he | ⟨l, locator, r, hs, hr, _, he⟩
    · exact ih (he ▸ hx)
    · rw [he, Keyed.get?_put] at hx
      split at hx
      · rename_i hl
        cases hx
        exact .inr ⟨locator, r, hl ▸ hs, hr, rfl⟩
      · exact ih hx

/-- The loads that have failed, or are about to end with a fault. -/
def failedLoads (s : Service) (roles : Roles Hook Job) (g : PromiseId → Grip) : Set PromiseId :=
  {t | (∃ language, roles t = .operation (.grammar language)) ∧
    ((∃ f, s.loop.outcome? t = some (.failed f)) ∨ ∃ f, g t = .ended (.error f))}

/-- Grammars are kept as loads have ended. -/
structure Loading (s : Service) (roles : Roles Hook Job) (g : PromiseId → Grip) : Prop where
  holder : ∀ {t language}, g t = .fetch language →
    roles t = .operation (.grammar language) ∧ s.loop.isPending t = true
  vacant : ∀ {t language}, g t = .fetch language → s.grammars.get? language = none
  begun : ∀ {t language}, roles t = .operation (.grammar language) → s.phase = .ready
  kept : ∀ {language x}, s.grammars.get? language = some x → x.isSome = true ∧
    ∃ t, roles t = .operation (.grammar language) ∧
      (s.loop.outcome? t = some (.value (.grammar x)) ∨ g t = .ended (.ok (.grammar x)))
  ended : ∀ {t language o}, roles t = .operation (.grammar language) → s.loop.outcome? t = some o →
    (∃ x, o = .value (.grammar x) ∧ s.grammars.get? language = some x) ∨
      ∃ f, o = .failed f ∧ f.kind = .grammar
  ending : ∀ {t language result}, roles t = .operation (.grammar language) → g t = .ended result →
    (∃ x, result = .ok (.grammar x) ∧ s.grammars.get? language = some x) ∨
      ∃ f, result = .error f ∧ f.kind = .grammar
  loaded : s.counts.grammars.loaded = s.grammars.size
  failures : s.counts.grammars.failures = (failedLoads s roles g).ncard

namespace Loading

theorem opened (config : Config) (world : World) (eager : Bool) (stuck : Option Fault)
    (log : List LogLine) :
    Loading (Service.opened config world eager stuck log) (fun _ => .unused) fun _ => .free := by
  refine ⟨fun h => ?_, fun h => ?_, fun h => ?_, fun h => ?_, fun h => ?_, fun h => ?_, ?_, ?_⟩
  · cases h
  · cases h
  · cases h
  · simp at h
  · cases h
  · cases h
  · simp [Keyed.size, Keyed.empty]
  · simp [failedLoads]

/-- The kept grammars and the counters are as before, a new load is at its start, and what tasks have in
    their hands says the same about loads. -/
theorem next (h : Loading s roles g) (hp : s.phase = .ready → s'.phase = .ready)
    (hgr : s'.grammars = s.grammars)
    (hc : s'.counts.grammars.loaded = s.counts.grammars.loaded ∧
      s'.counts.grammars.failures = s.counts.grammars.failures)
    (hext : ∀ t language, roles t = .operation (.grammar language) →
      roles' t = .operation (.grammar language))
    (hroles : ∀ t language, roles' t = .operation (.grammar language) →
      roles t = .operation (.grammar language) ∨ s'.phase = .ready ∧ s'.loop.outcome? t = none ∧
        ∀ result, g' t ≠ .ended result)
    (hout : ∀ t language, roles t = .operation (.grammar language) →
      s'.loop.isPending t = s.loop.isPending t ∧ s'.loop.outcome? t = s.loop.outcome? t)
    (hg : ∀ t language, g' t = .fetch language → g t = .fetch language ∨
      roles t = .operation (.grammar language) ∧ s.loop.isPending t = true ∧
        s.grammars.get? language = none)
    (hended : ∀ t language result, roles t = .operation (.grammar language) →
      (g' t = .ended result ↔ g t = .ended result)) : Loading s' roles' g' := by
  refine ⟨fun {t language} ht => ?_, fun {t language} ht => ?_, fun {t language} hr => ?_,
    fun {language x} hx => ?_, fun {t language o} hr ho => ?_, fun {t language result} hr ht => ?_, ?_, ?_⟩
  · rcases hg t language ht with ht | ⟨hr, hpend, _⟩
    · obtain ⟨hr, hpend⟩ := h.holder ht
      exact ⟨hext t _ hr, (hout t _ hr).1.trans hpend⟩
    · exact ⟨hext t _ hr, (hout t _ hr).1.trans hpend⟩
  · rw [hgr]
    rcases hg t language ht with ht | ⟨_, _, hnone⟩
    · exact h.vacant ht
    · exact hnone
  · rcases hroles t language hr with hr | ⟨hready, _⟩
    · exact hp (h.begun hr)
    · exact hready
  · rw [hgr] at hx
    obtain ⟨hsome, t, hr, ht⟩ := h.kept hx
    refine ⟨hsome, t, hext t _ hr, ?_⟩
    rwa [(hout t _ hr).2, hended t _ _ hr]
  · rw [hgr]
    rcases hroles t language hr with hr | ⟨_, hnone, _⟩
    · exact h.ended hr ((hout t _ hr).2.symm.trans ho)
    · rw [hnone] at ho
      cases ho
  · rw [hgr]
    rcases hroles t language hr with hr | ⟨_, _, hne⟩
    · exact h.ending hr ((hended t _ _ hr).1 ht)
    · exact absurd ht (hne result)
  · rw [hc.1, hgr]
    exact h.loaded
  · rw [hc.2, h.failures]
    congr 1
    ext t
    constructor
    · rintro ⟨⟨language, hr⟩, hf⟩
      refine ⟨⟨language, hext t _ hr⟩, ?_⟩
      simpa only [(hout t _ hr).2, hended t _ _ hr] using hf
    · rintro ⟨⟨language, hr⟩, hf⟩
      rcases hroles t language hr with hr | ⟨_, hnone, hne⟩
      · refine ⟨⟨language, hr⟩, ?_⟩
        simpa only [(hout t _ hr).2, hended t _ _ hr] using hf
      · rcases hf with ⟨f, hf⟩ | ⟨f, hf⟩
        · rw [hnone] at hf
          cases hf
        · exact absurd hf (hne _)

/-! ## Strides -/

/-- The stride starts no load, and is not about the kept grammars. -/
theorem calm (h : Loading m.service m.roles (w.grips m.grip)) (ht : InTurn w m)
    (hst : Stride w m m') (hp : m.service.phase = .ready → m'.service.phase = .ready)
    (hroles : ∀ t language, m'.roles t = .operation (.grammar language) →
      m.roles t = .operation (.grammar language))
    (hgr : m'.service.grammars = m.service.grammars)
    (hc : m'.service.counts.grammars.loaded = m.service.counts.grammars.loaded ∧
      m'.service.counts.grammars.failures = m.service.counts.grammars.failures)
    (hg : ∀ language, m'.grip = .fetch language → m.grip = .fetch language ∨
      m.roles w.task = .operation (.grammar language) ∧ m.service.grammars.get? language = none)
    (hended : ∀ language result, m.roles w.task = .operation (.grammar language) →
      (m'.grip = .ended result ↔ m.grip = .ended result)) :
    Loading m'.service m'.roles (w.grips m'.grip) := by
  refine h.next hp hgr hc (fun t language hr => (hst.extends ht).eq hr (by simp))
    (fun t language hr => .inl (hroles t language hr))
    (fun t language hr => ⟨hst.isPending_operation ht hr, hst.outcome?_eq ht (by simp [hr])⟩)
    (fun t language ht' => ?_) fun t language result hr => ?_
  · by_cases he : t = w.task
    · subst he
      rw [grips_self] at ht' ⊢
      exact (hg language ht').imp id fun ⟨hr, hn⟩ => ⟨hr, ht.unfinished.2, hn⟩
    · rw [grips_of_ne he] at ht' ⊢
      exact .inl ht'
  · by_cases he : t = w.task
    · subst he
      rw [grips_self, grips_self]
      exact hended language result hr
    · rw [grips_of_ne he, grips_of_ne he]

/-- The load that has its turn comes to its end. -/
theorem finished (h : Loading m.service m.roles (w.grips m.grip)) (ht : InTurn w m)
    {result : Except Fault Reply} (hrole : m.roles w.task = .operation (.grammar language))
    (hbefore : ∀ result, m.grip ≠ .ended result) (hg : m'.grip = .ended result)
    (hr : m'.roles = m.roles) (hl : m'.service.loop = m.service.loop)
    (hp : m'.service.phase = m.service.phase)
    (hold : ∀ {language x}, m.service.grammars.get? language = some x →
      m'.service.grammars.get? language = some x)
    (hnew : ∀ {language' x}, m'.service.grammars.get? language' = some x →
      m.service.grammars.get? language' = some x ∨
        language' = language ∧ result = .ok (.grammar x) ∧ x.isSome = true)
    (hresult : (∃ x, result = .ok (.grammar x) ∧ m'.service.grammars.get? language = some x ∧
        m'.service.counts.grammars.failures = m.service.counts.grammars.failures) ∨
      ∃ f, result = .error f ∧ f.kind = .grammar ∧
        m'.service.counts.grammars.failures = m.service.counts.grammars.failures + 1)
    (hloaded : m'.service.counts.grammars.loaded = m'.service.grammars.size) :
    Loading m'.service m'.roles (w.grips m'.grip) := by
  have hpend := ht.unfinished.2
  have hnone : m.service.loop.outcome? w.task = none := outcome?_of_isPending hpend
  rw [hg, hr]
  refine ⟨fun {t l} ht' => ?_, fun {t l} ht' => ?_, fun {t l} hr' => ?_, fun {l x} hx => ?_,
    fun {t l o} hr' ho => ?_, fun {t l x} hr' ht' => ?_, hloaded, ?_⟩
  · rw [hl]
    by_cases he : t = w.task
    · subst he
      simp at ht'
    · exact h.holder ((grips_of_ne he).trans ((grips_of_ne he).symm.trans ht'))
  · by_cases he : t = w.task
    · subst he
      simp at ht'
    · have hfetch : w.grips m.grip t = .fetch l := (grips_of_ne he).trans ((grips_of_ne he).symm.trans ht')
      cases hx : m'.service.grammars.get? l with
      | none => rfl
      | some x =>
        rcases hnew hx with hx | ⟨rfl, _⟩
        · rw [h.vacant hfetch] at hx
          cases hx
        · obtain ⟨hr', hpend'⟩ := h.holder hfetch
          exact absurd (ht.ordered.load.unique hr' hpend' hrole hpend) he
  · rw [hp]
    exact h.begun hr'
  · rw [hl]
    rcases hnew hx with hx | ⟨rfl, hres, hsome⟩
    · obtain ⟨hsome, t, hr', ht'⟩ := h.kept hx
      refine ⟨hsome, t, hr', ?_⟩
      rcases ht' with ho | ht'
      · exact .inl ho
      · by_cases he : t = w.task
        · subst he
          exact absurd (grips_self.symm.trans ht') (hbefore _)
        · exact .inr ((grips_of_ne he).trans ((grips_of_ne he).symm.trans ht'))
    · exact ⟨hsome, w.task, hrole, .inr (grips_self.trans (hres ▸ rfl))⟩
  · rw [hl] at ho
    exact (h.ended hr' ho).imp_left fun ⟨x, he, hx⟩ => ⟨x, he, hold hx⟩
  · by_cases he : t = w.task
    · subst he
      rw [grips_self] at ht'
      cases ht'
      cases hrole.symm.trans hr'
      exact hresult.imp (fun ⟨x, he, hx, _⟩ => ⟨x, he, hx⟩) fun ⟨f, he, hf, _⟩ => ⟨f, he, hf⟩
    · rw [grips_of_ne he] at ht'
      exact absurd ht' (gripAt_ne_ended _ _ _)
  · have hother : ∀ t ≠ w.task, (t ∈ failedLoads m'.service m.roles (w.grips (.ended result)) ↔
        t ∈ failedLoads m.service m.roles (w.grips m.grip)) := by
      intro t he
      unfold failedLoads
      simp only [Set.mem_ofPred_eq, grips_of_ne he, hl]
    have hself : w.task ∉ failedLoads m.service m.roles (w.grips m.grip) := by
      rintro ⟨_, ⟨f, hf⟩ | ⟨f, hf⟩⟩
      · rw [hnone] at hf
        cases hf
      · exact hbefore _ (grips_self.symm.trans hf)
    rcases hresult with ⟨x, rfl, _, hfailures⟩ | ⟨f, rfl, _, hfailures⟩
    · rw [hfailures, h.failures]
      congr 1
      ext t
      by_cases he : t = w.task
      · subst he
        refine ⟨fun hf => absurd hf hself, ?_⟩
        rintro ⟨_, ⟨f, hf⟩ | ⟨f, hf⟩⟩
        · rw [hl, hnone] at hf
          cases hf
        · rw [grips_self] at hf
          cases hf
      · exact (hother t he).symm
    · have hins : failedLoads m'.service m.roles (w.grips (.ended (.error f))) =
          insert w.task (failedLoads m.service m.roles (w.grips m.grip)) := by
        ext t
        by_cases he : t = w.task
        · subst he
          exact ⟨fun _ => .inl rfl, fun _ => ⟨⟨language, hrole⟩, .inr ⟨f, grips_self⟩⟩⟩
        · rw [hother t he, Set.mem_insert_iff]
          simp [he]
      have hfin : (failedLoads m.service m.roles (w.grips m.grip)).Finite := by
        refine (Set.finite_lt_nat m.service.loop.promises.size).subset ?_
        rintro t ⟨⟨l, hr'⟩, _⟩
        exact ht.ordered.sound.assigned.lt_size (by simp [hr'])
      rw [hfailures, h.failures, hins, Set.ncard_insert_of_notMem hself hfin]

/-- A stride starts a load, the engine being ready, or it starts none. -/
theorem launched (h : Loading m.service m.roles (w.grips m.grip)) (ht : InTurn w m)
    (hst : Stride w m m') (hp : m.service.phase = .ready → m'.service.phase = .ready)
    (hall : ∀ t language, m'.roles t = .operation (.grammar language) →
      t = m.service.loop.promises.size ∧ m.service.phase = .ready ∨
        m.roles t = .operation (.grammar language))
    (hg : m'.grip = m.grip) (hc : m'.service.counts = m.service.counts)
    (hgr : m'.service.grammars = m.service.grammars) :
    Loading m'.service m'.roles (w.grips m'.grip) := by
  rw [hg]
  refine h.next hp hgr (by rw [hc]; exact ⟨rfl, rfl⟩)
    (fun t language hr => (hst.extends ht).eq hr (by simp)) (fun t language hr => ?_)
    (fun t language hr => ⟨hst.isPending_operation ht hr, hst.outcome?_eq ht (by simp [hr])⟩)
    (fun _ _ => .inl) fun _ _ _ _ => Iff.rfl
  rcases hall t language hr with ⟨rfl, hready⟩ | hr
  · have hunused := ht.ordered.sound.assigned.unused.2 (Nat.le_refl m.service.loop.promises.size)
    refine .inr ⟨hp hready, ?_, fun result hr => ?_⟩
    · rw [hst.outcome?_eq ht (by simp [hunused])]
      cases ho : m.service.loop.outcome? m.service.loop.promises.size with
      | none => rfl
      | some o => exact absurd (outcome?_lt ho) (Nat.lt_irrefl _)
    · rw [grips_of_ne (Nat.ne_of_lt ht.task_lt).symm] at hr
      exact gripAt_ne_ended _ _ _ hr
  · exact .inl hr

/-- Every stride keeps it of a turn in which a load meets no fault but an ordinary one, and no null
    grammar. -/
theorem stride (h : Loading m.service m.roles (w.grips m.grip))
    (hb : Booting m.service m.roles (w.grips m.grip)) (ht : InTurn w m) (hw : w.LoadsWell)
    (hsees : w.SeesReady m.service → m.service.phase = .ready) (hst : Stride w m m') :
    Loading m'.service m'.roles (w.grips m'.grip) := by
  have hp : m.service.phase = .ready → m'.service.phase = .ready :=
    fun hready => (EngineKept.stride hb ht hst hready).phase
  rcases hst.operation_cases ht with ⟨hook, _, _, hall, hg, _, _, hc, hgr, hready⟩ | hold
  · refine h.launched ht hst hp (fun t language hr => ?_) hg hc hgr
    rcases hall t _ hr with ⟨he, rfl⟩ | hr
    · exact .inl ⟨he, hsees hready⟩
    · exact .inr hr
  have hroles := fun t language => hold t (.grammar language)
  have hfetch : ∀ {point}, w.stage = .fetch point → m.roles w.task = (Stage.fetch point).role := by
    intro point hs
    rw [ht.unfinished.1, hs]
  have hboot : m.grip = .boot ∨ w.stage = .boot .start →
      ∀ language, m.roles w.task ≠ .operation (.grammar language) := by
    rintro (hg | hs) language hr
    · rw [(hb.holder (grips_self.trans hg)).1] at hr
      cases hr
    · rw [ht.unfinished.1, hs] at hr
      cases hr
  have hst' := hst
  cases hst with
  | counted n =>
    cases n <;> exact h.calm ht hst' hp hroles rfl ⟨rfl, rfl⟩ (fun _ => .inl) fun _ _ _ => Iff.rfl
  | @submitted crew job grip hc hg =>
    obtain ⟨_, _, _, hgr, hcounts⟩ := @Work.known_handedIn m.service crew job
    refine h.calm ht hst' hp hroles hgr (by rw [hcounts]; exact ⟨rfl, rfl⟩) (fun language hl => ?_)
      fun language result hr => ?_
    · generalize hbefore : m.grip = before at hg ⊢
      cases hg with
      | fetch hs hk he =>
        cases hl
        refine .inr ⟨hfetch hs, ?_⟩
        cases hx : m.service.grammars.get? language with
        | none => rfl
        | some x =>
          rw [Grammars.kept?, hx, Option.filter_some_eq_some.2 (h.kept hx).1] at hk
          cases hk
      | boot => cases hl
      | parse _ _ => cases hl
      | copy _ _ _ => cases hl
    · generalize m.grip = before at hg ⊢
      cases hg <;> simp
  | dismissed =>
    obtain ⟨_, _, _, hgr, hcounts⟩ := Work.known_dismiss (s := m.service)
    exact h.calm ht hst' hp hroles hgr (by rw [hcounts]; exact ⟨rfl, rfl⟩) (fun _ => .inl)
      fun _ _ _ => Iff.rfl
  | bootBegun hs hg =>
    exact h.calm ht hst' hp hroles rfl ⟨rfl, rfl⟩ (by simp)
      fun language _ hr => absurd hr (hboot (.inr hs) language)
  | @bootFailed f hf hg =>
    refine h.calm ht hst' hp hroles rfl ?_ (by simp)
      fun language _ hr => absurd hr (hboot (.inl hg) language)
    show (m.service.counts.bootFailed f).grammars.loaded = _ ∧ _
    unfold Counts.bootFailed
    split <;> exact ⟨rfl, rfl⟩
  | bootReady hs hr hg =>
    exact h.calm ht hst' hp hroles rfl ⟨rfl, rfl⟩ (by simp)
      fun language _ hr => absurd hr (hboot (.inl hg) language)
  | bootAbandoned hs hf hg =>
    exact h.calm ht hst' hp hroles rfl ⟨rfl, rfl⟩ (by simp)
      fun language _ hr => absurd hr (hboot (.inr hs) language)
  | @fetchKept language x hs hk hg =>
    refine h.finished ht (hfetch hs) (by simp [hg]) rfl rfl rfl rfl id .inl
      (.inl ⟨x, rfl, get?_of_kept? hk, rfl⟩) h.loaded
  | @fetchRefused language f hs he hg =>
    obtain ⟨name, hname⟩ := Option.isSome_iff_exists.1 (hb.engine (h.begun (hfetch hs)))
    unfold Service.engine? at he
    rw [h.begun (hfetch hs), hname] at he
    cases he
  | fetchAbandoned hs hf hg =>
    obtain ⟨⟨_, _, hpoint⟩, _⟩ := hw.fault hs hf
    cases hpoint
  | @fetched language locator r hs hr hg =>
    have hvacant := h.vacant (grips_self.trans hg)
    refine h.finished ht (hfetch hs) (by simp [hg]) rfl rfl rfl rfl (fun {l x} hx => ?_)
      (fun {l x} hx => ?_) (.inl ⟨_, rfl, by simp, rfl⟩) ?_
    · simp only [Keyed.get?_put]
      rw [if_neg]
      · exact hx
      · rintro rfl
        rw [hvacant] at hx
        cases hx
    · simp only [Keyed.get?_put] at hx
      split at hx
      · cases hx
        exact .inr ⟨‹_›, rfl, hw.grammar hs hr⟩
      · exact .inl hx
    · rw [Keyed.size_put, hvacant]
      exact congrArg (· + 1) h.loaded
  | @fetchFailed language locator f hs =>
    have hf : f.kind.isOrdinary = true := by
      rcases hs with ⟨hs, hf, _⟩ | ⟨_, rfl, _⟩
      · exact (hw.fault hs hf).2
      · rfl
    have hrole : m.roles w.task = .operation (.grammar language) := by
      rcases hs with ⟨hs, _⟩ | ⟨hs, _⟩ <;> exact hfetch hs
    have hcounts : m.service.counts.loadFailed f = { m.service.counts with
        grammars := { m.service.counts.grammars with
          failures := m.service.counts.grammars.failures + 1 } } := if_pos hf
    refine h.finished ht hrole ?_ rfl rfl rfl rfl id .inl
      (.inr ⟨_, rfl, Grammars.kind_raised hf, ?_⟩) ?_
    · rcases hs with ⟨_, _, hg⟩ | ⟨_, _, hg⟩ <;> simp [hg]
    · simp only [hcounts]
    · simp only [hcounts]
      exact h.loaded
  | taken hg hpool hheld hall =>
    exact h.calm ht hst' hp hroles rfl ⟨rfl, rfl⟩ (by simp) (by simp [hg])
  | admitted hg hpool =>
    exact h.calm ht hst' hp hroles rfl ⟨rfl, rfl⟩ (by simp) (by simp [hg])
  | drawn hg hpool =>
    exact h.calm ht hst' hp hroles rfl ⟨rfl, rfl⟩ (by simp) (by simp [hg])
  | withdrawn hs hg hpool =>
    refine h.calm ht hst' hp hroles rfl ⟨rfl, rfl⟩ (fun language => ?_) fun language result _ => ?_
    · cases w.given <;> simp
    · cases w.given <;> simp [hg]
  | released hpool hg =>
    refine h.calm ht hst' hp hroles rfl ⟨rfl, rfl⟩ (by simp) fun language result _ => ?_
    rcases hg with hg | ⟨job, hg, _⟩ <;> simp [hg]
  | _ => exact h.calm ht hst' hp hroles rfl ⟨rfl, rfl⟩ (fun _ => .inl) fun _ _ _ => Iff.rfl

/-- What is kept is not replaced. -/
theorem get?_stride (h : Loading m.service m.roles (w.grips m.grip)) (hst : Stride w m m') {x : Grammar}
    (hx : m.service.grammars.get? language = some x) : m'.service.grammars.get? language = some x := by
  rcases hst.grammars_cases with he | ⟨l, _, _, _, _, hg, he⟩
  · rw [he]
    exact hx
  · rw [he, Keyed.get?_put, if_neg]
    · exact hx
    · rintro rfl
      rw [h.vacant (grips_self.trans hg)] at hx
      cases hx

theorem strides {start : Midst} (ht : InTurn w start)
    (h : Loading start.service start.roles (w.grips start.grip))
    (hb : Booting start.service start.roles (w.grips start.grip))
    (hwb : w.BootsWell) (hw : w.LoadsWell)
    (hgiven : (w.stage.rest = .shield .boot ∧ ∃ r, w.given = .ok r) → start.service.phase = .ready)
    (hst : Strides w start m) : Loading m.service m.roles (w.grips m.grip) := by
  induction hst with
  | refl => exact h
  | tail hst hstep ih =>
    refine ih.stride (hb.strides ht hwb hst) (ht.strides hst) hw (fun hsees => ?_) hstep
    rcases hsees with hready | hgave
    · exact hready
    · exact (EngineKept.strides hb ht hwb hst (hgiven hgave)).phase

/-! ## Steps -/

/-- The end of a turn keeps it. -/
theorem conclude (h : Loading m.service m.roles (w.grips m.grip)) (ht : HasTurn s roles w m turn)
    (ho' : AtRest { m.service with loop := Program.conclude w.task turn m.service.loop } m.roles) :
    Loading { m.service with loop := Program.conclude w.task turn m.service.loop } m.roles
      (w.gripsAfter m.grip turn) := by
  have hpend := ht.inTurn.unfinished.2
  have hlater : ∀ {t o}, m.service.loop.outcome? t = some o →
      (Program.conclude w.task turn m.service.loop).outcome? t = some o :=
    (Later.conclude w.task turn).outcome
  -- Who has a result in its hands is the task that has its turn, and it ends with that.
  have hends : ∀ {t result}, w.grips m.grip t = .ended result → t = w.task ∧
      (Program.conclude w.task turn m.service.loop).outcome? w.task = some (Program.ended result) := by
    intro t result he
    by_cases ht' : t = w.task
    · subst ht'
      rw [grips_self] at he
      obtain rfl := ht.ends.finish_of_ended he
      exact ⟨rfl, outcome?_finish hpend result⟩
    · rw [grips_of_ne ht'] at he
      exact absurd he (gripAt_ne_ended _ _ _)
  have hnot : ∀ {t result}, w.gripsAfter m.grip turn t ≠ .ended result := by
    intro t result he
    rw [← ht.gripAt_conclude] at he
    exact gripAt_ne_ended _ _ _ he
  refine ⟨fun {t language} hf => ?_, fun {t language} hf => h.vacant (grips_of_gripsAfter hf (by simp)),
    h.begun, fun {language x} hx => ?_, fun {t language o} hr ho => ?_, fun _ he => absurd he hnot,
    h.loaded, ?_⟩
  · refine ⟨(h.holder (grips_of_gripsAfter hf (by simp))).1, ?_⟩
    rw [← ht.gripAt_conclude] at hf
    obtain ⟨point, on, hplace, _⟩ := exists_place?_of_gripAt (t := t) (by rw [hf]; simp)
    exact ho'.isPending_of_place? hplace
  · obtain ⟨hsome, t, hr, ho | he⟩ := h.kept hx
    · exact ⟨hsome, t, hr, .inl (hlater ho)⟩
    · obtain ⟨rfl, ho⟩ := hends he
      exact ⟨hsome, w.task, hr, .inl ho⟩
  · rcases ht.outcome?_operation hr ho with ho | ⟨rfl, result, rfl, rfl, hg⟩
    · exact h.ended hr ho
    · rcases h.ending hr (grips_self.trans hg) with ⟨x, rfl, hx⟩ | ⟨f, rfl, hf⟩
      · exact .inl ⟨x, rfl, hx⟩
      · exact .inr ⟨f, by simp [Program.ended, hf], hf⟩
  · rw [h.failures]
    congr 1
    ext t
    constructor
    · rintro ⟨⟨language, hr⟩, ⟨f, ho⟩ | ⟨f, he⟩⟩
      · exact ⟨⟨language, hr⟩, .inl ⟨f, hlater ho⟩⟩
      · obtain ⟨rfl, ho⟩ := hends he
        rcases h.ending hr he with ⟨x, hc, _⟩ | ⟨f', hf, hk⟩
        · cases hc
        · cases hf
          exact ⟨⟨language, hr⟩, .inl ⟨f, by rw [ho]; simp [Program.ended, hk]⟩⟩
    · rintro ⟨⟨language, hr⟩, ⟨f, ho⟩ | ⟨f, he⟩⟩
      · refine ⟨⟨language, hr⟩, ?_⟩
        rcases ht.outcome?_operation hr ho with ho | ⟨rfl, result, rfl, hended, hg⟩
        · exact .inl ⟨f, ho⟩
        · cases result with
          | ok v => cases hended
          | error f' => exact .inr ⟨f', grips_self.trans hg⟩
      · exact absurd he hnot

/-- What happens between turns keeps it. -/
theorem aside (h : Loading s roles s.gripAt) (ha : Aside s roles s' roles') (ho : AtRest s roles)
    (hst : Step s roles mv s' roles') : Loading s' roles' s'.gripAt := by
  have hext := (ho.step hst).2
  rw [ha.gripAt_eq]
  exact h.next (fun hp => ha.phase.trans hp) ha.grammars (by rw [ha.counts]; exact ⟨rfl, rfl⟩)
    (fun t language hr => hext.eq hr (by simp))
    (fun t language hr => .inl (ha.outcome?_operation ho hst hr).1)
    (fun t language hr => (ha.outcome?_operation ho hst (hext.eq hr (by simp))).2) (fun _ _ => .inl)
    fun _ _ _ _ => Iff.rfl

/-- A task takes its turn. -/
theorem takeUp (h : Loading s roles s.gripAt) (ht : HasTurn s roles w m turn) :
    Loading w.before roles (w.grips w.stage.grip) := by
  obtain ⟨i, hb⟩ := ht.before
  rw [ht.grips_eq, hb]
  exact h.next id rfl ⟨rfl, rfl⟩ (fun _ _ => id) (fun _ _ => .inl) (fun _ _ _ => ⟨rfl, rfl⟩)
    (fun _ _ => .inl) fun _ _ _ _ => Iff.rfl

/-- It holds all through a turn in which the boot meets no fault but an ordinary one, and a load neither
    any other nor a null grammar. -/
theorem inTurn (h : Loading s roles s.gripAt) (hb : Booting s roles s.gripAt)
    (ht : HasTurn s roles w m turn) (hwb : w.BootsWell) (hw : w.LoadsWell)
    (hst : Strides w ⟨w.before, roles, w.stage.grip⟩ m') :
    Loading m'.service m'.roles (w.grips m'.grip) := by
  refine strides ht.started (h.takeUp ht) (hb.takeUp ht) hwb hw (fun ⟨hs, r, hr⟩ => ?_) hst
  obtain ⟨i, hbefore⟩ := ht.before
  show w.before.phase = .ready
  rw [hbefore]
  exact hb.ready_of_given ht hs hr

/-- Every step keeps it whose turn is such a one. -/
theorem step (h : Loading s roles s.gripAt) (hb : Booting s roles s.gripAt) (ho : AtRest s roles)
    (hw : ∀ {w m turn}, HasTurn s roles w m turn → w.BootsWell ∧ w.LoadsWell)
    (hst : Step s roles mv s' roles') : Loading s' roles' s'.gripAt := by
  rcases hst.aside_or_turn ho with ha | ⟨w, m, turn, ht, rfl, rfl⟩
  · exact h.aside ha ho hst
  · rw [ht.gripAt_conclude]
    exact conclude (h.inTurn hb ht (hw ht).1 (hw ht).2 ht.strides) ht (ho.step hst).1

/-- What a task sees of a grammar is what is kept. -/
theorem get?_of_sees (h : Loading m.service m.roles g) (ht : InTurn w m) {x : Grammar}
    (hs : w.SeesGrammar m.service language x) : m.service.grammars.get? language = some x := by
  rcases hs with hk | ⟨hrest, r, hr, rfl⟩
  · exact get?_of_kept? hk
  · obtain ⟨op, hop, hout⟩ := ht.shielded hrest hr
    rcases h.ended hop hout with ⟨x, he, hx⟩ | ⟨f, he, _⟩
    · cases he
      exact hx
    · cases he

/-- What is kept stays. -/
theorem get?_stays (h : Loading s roles s.gripAt) (h' : Loading s' roles' g')
    (hext : Extends roles roles')
    (hout : ∀ {t o}, s.loop.outcome? t = some o → s'.loop.outcome? t = some o) {x : Grammar}
    (hx : s.grammars.get? language = some x) : s'.grammars.get? language = some x := by
  obtain ⟨_, t, hr, ho | he⟩ := h.kept hx
  · rcases h'.ended (hext.eq hr (by simp)) (hout ho) with ⟨y, hy, hget⟩ | ⟨f, hf, _⟩
    · cases hy
      exact hget
    · cases hf
  · exact absurd he (gripAt_ne_ended _ _ _)

end Loading

/-! ## Worlds that fetch well -/

theorem sure_loadsWell : Sure World.FetchesWell fun _ => Job.LoadsWell where
  kept := ⟨_, _, World.FetchesWell.kept⟩
  lasting _ := id
  run job w hw := by
    cases job with
    | grammar engine locator =>
      have hm := Attempt.meets_fetchGrammar World.FetchesWell.kept.toKeptByFetches engine locator w hw
      show Job.LoadsWell _ (Work.reply .grammar ((Attempt.fetchGrammar engine locator).run w).1)
      cases hr : (Attempt.fetchGrammar engine locator).run w with
      | mk r w' =>
        rw [hr] at hm
        cases r with
        | ok x => exact hm.1
        | error f => exact hm.1
    | _ => trivial

/-- A load meets no fault but an ordinary one of its fetch, and no null grammar. -/
theorem Answered.loadsWell (h : Answered (fun _ => Job.LoadsWell) s roles) (ht : HasTurn s roles w m turn) :
    w.LoadsWell := by
  refine ⟨fun {point f} hs hf => ?_, fun {language locator r} hs hr => ?_⟩
  · have hg := h.given ht (by rw [hs]; cases point <;> simp [Stage.role])
    rw [hs, hf] at hg
    cases point with
    | start language => cases hg
    | fetching language locator =>
      obtain ⟨_, engine, _, hg⟩ := hg
      exact ⟨⟨language, locator, rfl⟩, hg⟩
  · have hg := h.given ht (by rw [hs]; simp [Stage.role])
    rw [hs, hr] at hg
    obtain ⟨_, engine, _, hg⟩ := hg
    exact hg

/-- The boot and the loads are as they should be, and go on so: engine and grammars raise ordinary faults
    only, and no null grammar is compiled. -/
structure Loaded (s : Service) (roles : Roles Hook Job) : Prop where
  world : s.world.FetchesWell
  engined : Engined s roles
  answered : Answered (fun _ => Job.LoadsWell) s roles
  loading : Loading s roles s.gripAt

namespace Loaded

theorem opened {world : World} (hw : world.FetchesWell) (config : Config)
    (eager : Bool) (stuck : Option Fault) (log : List LogLine) :
    Loaded (Service.opened config world eager stuck log) fun _ => .unused := by
  refine ⟨?_, .opened ?_ .., .opened .., ?_⟩
  · rw [world_opened]
    exact hw
  · exact fun name m hm => ⟨fun _ => (hw name m hm).1 trivial, fun _ _ _ => trivial⟩
  · rw [gripAt_opened]
    exact .opened ..

/-- Every step that spares the operations keeps it. -/
theorem step (h : Loaded s roles) (ho : AtRest s roles) (hst : Step s roles mv s' roles')
    (hsp : SparesOperations s mv) : Loaded s' roles' where
  world := hst.keeps World.FetchesWell.kept h.world
  engined := h.engined.step ho hst hsp
  answered := h.answered.step sure_loadsWell ho hst hsp h.world
  loading := h.loading.step h.engined.booting ho
    (fun ht => ⟨h.engined.bootsWell ht, h.answered.loadsWell ht⟩) hst

end Loaded

end Service

end SourceTrees
