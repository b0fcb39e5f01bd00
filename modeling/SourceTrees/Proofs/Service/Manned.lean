import SourceTrees.Proofs.Service.Locks
import SourceTrees.Proofs.Service.Queue

/-!
# Jobs on parsers

A job on a parser is in the hands of the task that handed it in until it is settled, and it runs the
parser of the language on which the task holds the lock.  Different languages have different parsers.

## Results

* `Service.InTurn.isPending_of_seesDone` — a task that lets a job go knows that it is settled.
* `Service.Manned` — the invariant, kept by every stride and every step.
* `Service.Step.job_stays` — a task keeps its job until that is settled.
-/

set_option autoImplicit false

namespace SourceTrees.Service

open Loop

variable {s s' : Service} {roles roles' : Roles Hook Job} {w : Woken} {m m' : Midst} {mv : Service.Move}
  {g g' : PromiseId → Grip} {t : PromiseId} {language : String} {turn : Turn Stage Reply}

/-- The parser that is pooled for a language. -/
def parser? (s : Service) (language : String) : Option Nat := (s.pool.get? language).map (·.parser)

theorem parser?_of_get? {pooled : Pooled} (h : s.pool.get? language = some pooled) :
    s.parser? language = some pooled.parser := by
  rw [parser?, h]
  rfl

theorem parser?_congr (h : s'.pool = s.pool) : s'.parser? = s.parser? := by
  funext l
  rw [parser?, h, parser?]

/-- A change of a pooled parser that leaves the parser. -/
theorem parser?_put {pooled pooled' : Pooled} (h : s.pool.get? language = some pooled)
    (hs : s'.pool = s.pool.put language pooled') (hp : pooled'.parser = pooled.parser) :
    s'.parser? = s.parser? := by
  funext l
  unfold parser?
  rw [hs, Keyed.get?_put]
  split
  · rename_i he
    rw [he, h, Option.map_some, Option.map_some, hp]
  · rfl

theorem size_put_of_get? {pool : Keyed String Pooled} {pooled pooled' : Pooled}
    (h : pool.get? language = some pooled) : (pool.put language pooled').size = pool.size := by
  rw [Keyed.size_put, h]
  rfl

/-! ## Letting a job go -/

/-- A task that lets a job go knows that it is settled. -/
theorem InTurn.isPending_of_seesDone (h : InTurn w m) {job : PromiseId}
    (hd : w.SeesDone m.service language job) : m.service.loop.isPending job = false := by
  rcases hd with hd | ⟨⟨use, source, crew, hs⟩, hf⟩
  · exact hd
  · obtain ⟨task, given, hplaced, hgives, hmet⟩ := h.placed
    have hrest := hplaced.rest
    rw [hs] at hrest
    obtain ⟨q, parser, hon, hq, _⟩ := hrest
    unfold Loop.Gives at hgives
    rw [hon] at hgives
    obtain ⟨o, ho, rfl⟩ := hgives
    rcases h.ordered.sound.assigned.taken hq ho with rfl | ho'
    · -- The shield was cancelled: so is what the task meets.
      have hc : w.given = .error .cancellation := by
        rw [hmet]
        cases hm : task.marked <;> simp [Program.met, Settled.result, hm]
      exact absurd rfl (hf _ hc)
    · exact isPending_of_outcome? ho'

/-- A task keeps its job until that is settled. -/
theorem Stride.job_stays (h : InTurn w m) (hst : Stride w m m') {job : PromiseId}
    (hg : m.grip = .job language job) :
    m'.grip = .job language job ∨ m'.service.loop.isPending job = false := by
  cases hst with
  | @submitted crew j grip hc hsub =>
    rw [hg] at hsub
    cases hsub
  | bootBegun hs hg' => simp [hg] at hg'
  | bootFailed hf hg' => simp [hg] at hg'
  | bootReady hs hr hg' => simp [hg] at hg'
  | bootAbandoned hs hf hg' => simp [hg] at hg'
  | fetchKept hs hk hg' => simp [hg] at hg'
  | fetchRefused hs he hg' => simp [hg] at hg'
  | fetchAbandoned hs hf hg' => simp [hg] at hg'
  | fetched hs hr hg' => simp [hg] at hg'
  | fetchFailed hs =>
    rcases hs with ⟨_, _, hg'⟩ | ⟨_, _, hg'⟩
    · simp [hg] at hg'
    · simp [hg] at hg'
  | taken hg' hp hheld hall => simp [hg] at hg'
  | admitted hg' hp => simp [hg] at hg'
  | drawn hg' hp => simp [hg] at hg'
  | withdrawn hs hg' hp => simp [hg] at hg'
  | released hp hg' =>
    rcases hg' with hg' | ⟨job', hg', hd⟩
    · simp [hg] at hg'
    · cases hg.symm.trans hg'
      exact .inr (h.isPending_of_seesDone hd)
  | _ => exact .inl hg

theorem Strides.job_stays (h : InTurn w m) (hst : Strides w m m') {job : PromiseId}
    (hg : m.grip = .job language job) :
    m'.grip = .job language job ∨ m'.service.loop.isPending job = false := by
  induction hst with
  | refl => exact .inl hg
  | tail hst hstep ih =>
    have ht := h.strides hst
    rcases ih with ih | ih
    · exact hstep.job_stays ht ih
    · have hlt := Nat.lt_of_lt_of_le (h.job_lt hg) (Strides.later hst).size_le
      exact .inr (hstep.later.isPending_eq_false hlt ih)

/-- Between turns a task keeps its job, and in a turn until the job is settled. -/
theorem Step.job_stays (h : AtRest s roles) (hst : Step s roles mv s' roles') {job : PromiseId}
    (hg : s.gripAt t = .job language job) :
    s'.gripAt t = .job language job ∨ ∃ o, s'.loop.outcome? job = some o := by
  rcases hst.aside_or_turn h with ha | ⟨w, m, turn, ht, rfl, rfl⟩
  · exact .inl (ha.gripAt_eq ▸ hg)
  · have hkept : w.grips m.grip t = .job language job →
        ({ m.service with loop := Program.conclude w.task turn m.service.loop } : Service).gripAt t =
          .job language job := by
      intro hg
      rw [ht.gripAt_conclude]
      exact ht.ends.gripsAfter_eq hg (by simp) (by simp)
    rw [← ht.grips_eq] at hg
    by_cases he : t = w.task
    · subst he
      rw [grips_self] at hg
      rcases ht.strides.job_stays ht.started hg with hg' | hp
      · exact .inl (hkept (grips_self.trans hg'))
      · have hlt := Nat.lt_of_lt_of_le (ht.started.job_lt hg) ht.strides.later.size_le
        rcases isPending_or_settled hlt with hp' | ⟨o, hs⟩
        · rw [hp] at hp'
          cases hp'
        · exact .inr ⟨o, (Later.conclude w.task turn).outcome hs⟩
    · exact .inl (hkept ((Locked.grips_other he).trans hg))

/-! ## Different parsers -/

/-- Different languages have different parsers, all of which have been made. -/
structure Apart (s : Service) : Prop where
  distinct : ∀ {l l' p}, s.parser? l = some p → s.parser? l' = some p → l = l'
  known : ∀ {l p}, s.parser? l = some p → p ≤ s.world.parsers.length

/-- A stride leaves the parsers in the pool, or it puts one there that it has made for the language, bound
    to the grammar that it has seen. -/
theorem Stride.parser?_cases (hst : Stride w m m') :
    (m'.service.parser? = m.service.parser? ∧
      Attempt.BindsNone m.service.world.parsers m'.service.world ∧
      m'.service.pool.size = m.service.pool.size ∧
      m'.service.counts.parsers.created = m.service.counts.parsers.created) ∨
    ∃ l g, m.service.parser? l = none ∧ w.SeesGrammar m.service l g ∧
      m'.service.parser? =
        Function.update m.service.parser? l (some (m.service.world.parsers.length + 1)) ∧
      m'.service.world.parsers = m.service.world.parsers ++ [g] ∧
      m'.service.pool.size = m.service.pool.size + 1 ∧
      m'.service.counts.parsers.created = m.service.counts.parsers.created + 1 ∧
      ∃ engine parser, m.service.engine? = .ok engine ∧
        (Attempt.bindParser engine g).run m.service.world = (.ok parser, m'.service.world) := by
  have hsame := Attempt.keptByFetches_parsers (· = m.service.world.parsers)
  cases hst with
  | counted n => cases n <;> exact .inl ⟨rfl, .inl rfl, rfl, rfl⟩
  | probed table =>
    exact .inl ⟨rfl, .inl ((Attempt.keeps_availability hsame.toKeptByImports table).world rfl), rfl, rfl⟩
  | submitted crew hc hg =>
    refine .inl ⟨parser?_congr Work.pool_handedIn, .inl (Work.keeps_handedIn hsame rfl), ?_, ?_⟩
    · rw [Work.pool_handedIn]
    · rw [Work.known_handedIn.2.2.2.2]
  | @parserMade l engine g parser world hn he hb hk =>
    have hm := @Attempt.meets_bindParser engine g _ m.service.world rfl
    rw [hb] at hm
    obtain ⟨rfl, hparsers⟩ : Attempt.Binds _ g parser world := hm
    have hnone : m.service.pool.get? l = none := by
      cases hp : m.service.pool.get? l with
      | none => rfl
      | some pooled => simp [contains_of_get? hp] at hn
    refine .inr ⟨l, g, by rw [parser?, hnone]; rfl, hk, ?_, hparsers, ?_, rfl, engine, _, he, hb⟩
    · funext l'
      rw [Function.update_apply, parser?, Keyed.get?_put]
      split <;> rfl
    · rw [Keyed.size_put, hnone]
      rfl
  | @parserFailed engine g f world hb =>
    have hm := @Attempt.meets_bindParser engine g _ m.service.world rfl
    rw [hb] at hm
    exact .inl ⟨rfl, hm, rfl, rfl⟩
  | bootFailed hf hg =>
    refine .inl ⟨rfl, .inl rfl, rfl, ?_⟩
    show (m.service.counts.bootFailed _).parsers.created = _
    unfold Counts.bootFailed
    split <;> rfl
  | fetchFailed hs =>
    refine .inl ⟨rfl, .inl rfl, rfl, ?_⟩
    show (m.service.counts.loadFailed _).parsers.created = _
    unfold Counts.loadFailed
    split <;> rfl
  | taken hg hp hheld hall => exact .inl ⟨parser?_put hp rfl rfl, .inl rfl, size_put_of_get? hp, rfl⟩
  | admitted hg hp => exact .inl ⟨parser?_put hp rfl rfl, .inl rfl, size_put_of_get? hp, rfl⟩
  | drawn hg hp => exact .inl ⟨parser?_put hp rfl rfl, .inl rfl, size_put_of_get? hp, rfl⟩
  | withdrawn hs hg hp => exact .inl ⟨parser?_put hp rfl rfl, .inl rfl, size_put_of_get? hp, rfl⟩
  | released hp hg => exact .inl ⟨parser?_put hp rfl rfl, .inl rfl, size_put_of_get? hp, rfl⟩
  | dismissed =>
    refine .inl ⟨parser?_congr Work.pool_dismiss, .inl (Work.keeps_dismiss hsame rfl), ?_, ?_⟩
    · rw [Work.pool_dismiss]
    · rw [Work.known_dismiss.2.2.2.2]
  | _ => exact .inl ⟨rfl, .inl rfl, rfl, rfl⟩

/-- The parser of a language is never replaced. -/
theorem Stride.parser?_of_some (hst : Stride w m m') {p : Nat} (hp : m.service.parser? language = some p) :
    m'.service.parser? language = some p := by
  rcases hst.parser?_cases with ⟨he, _⟩ | ⟨l, _, hn, _, he, _⟩
  · rw [he]
    exact hp
  · rw [he, Function.update_of_ne]
    · exact hp
    · rintro rfl
      rw [hn] at hp
      cases hp

theorem Strides.parser?_of_some (hst : Strides w m m') {p : Nat}
    (hp : m.service.parser? language = some p) : m'.service.parser? language = some p := by
  induction hst with
  | refl => exact hp
  | tail _ hstep ih => exact hstep.parser?_of_some ih

/-- The parser that is pooled for a language stays. -/
theorem Step.parser?_of_some (ho : AtRest s roles) (hst : Step s roles mv s' roles') {p : Nat}
    (hp : s.parser? language = some p) : s'.parser? language = some p := by
  rcases hst.aside_or_turn ho with ha | ⟨w, m, turn, ht, rfl, rfl⟩
  · rw [parser?_congr ha.pool]
    exact hp
  · obtain ⟨i, hb⟩ := ht.before
    exact Strides.parser?_of_some (m := ⟨w.before, roles, w.stage.grip⟩) ht.strides (by rw [hb]; exact hp)

namespace Apart

theorem opened (config : Config) (world : World) (eager : Bool) (stuck : Option Fault)
    (log : List LogLine) : Apart (Service.opened config world eager stuck log) := by
  have hnone : ∀ l, (Service.opened config world eager stuck log).parser? l = none := by
    intro l
    simp [parser?]
  refine ⟨fun {l l' p} h => ?_, fun {l p} h => ?_⟩
  · rw [hnone] at h
    cases h
  · rw [hnone] at h
    cases h

theorem congr (h : Apart s) (hp : s'.parser? = s.parser?)
    (hw : s.world.parsers.length ≤ s'.world.parsers.length) : Apart s' := by
  refine ⟨fun {l l' p} hl hl' => ?_, fun {l p} hl => ?_⟩
  · rw [hp] at hl hl'
    exact h.distinct hl hl'
  · rw [hp] at hl
    exact Nat.le_trans (h.known hl) hw

theorem stride (h : Apart m.service) (hst : Stride w m m') : Apart m'.service := by
  rcases hst.parser?_cases with ⟨he, _⟩ | ⟨l, g, hn, _, he, hparsers, _⟩
  · exact h.congr he (hst.keeps (Attempt.keptByWork_parsers _) (List.prefix_refl _)).length_le
  · have hlen : m'.service.world.parsers.length = m.service.world.parsers.length + 1 := by
      rw [hparsers, List.length_append, List.length_singleton]
    have hcases : ∀ {l' p}, m'.service.parser? l' = some p →
        l' = l ∧ p = m.service.world.parsers.length + 1 ∨ m.service.parser? l' = some p := by
      intro l' p hp
      rw [he, Function.update_apply] at hp
      split at hp
      · exact .inl ⟨‹_›, (Option.some.inj hp).symm⟩
      · exact .inr hp
    refine ⟨fun {l₁ l₂ p} h₁ h₂ => ?_, fun {l' p} hp => ?_⟩
    · rcases hcases h₁ with ⟨rfl, rfl⟩ | h₁
      · rcases hcases h₂ with ⟨rfl, _⟩ | h₂
        · rfl
        · exact absurd (h.known h₂) (Nat.not_succ_le_self _)
      · rcases hcases h₂ with ⟨_, rfl⟩ | h₂
        · exact absurd (h.known h₁) (Nat.not_succ_le_self _)
        · exact h.distinct h₁ h₂
    · rw [hlen]
      rcases hcases hp with ⟨_, rfl⟩ | hp
      · exact Nat.le_refl _
      · exact Nat.le_succ_of_le (h.known hp)

theorem strides (h : Apart m.service) (hst : Strides w m m') : Apart m'.service := by
  induction hst with
  | refl => exact h
  | tail _ hstep ih => exact ih.stride hstep

theorem step (h : Apart s) (ho : AtRest s roles) (hst : Step s roles mv s' roles') : Apart s' := by
  have hlen := (hst.keeps (Attempt.keptByWork_parsers s.world.parsers) (List.prefix_refl _)).length_le
  rcases hst.aside_or_turn ho with ha | ⟨w, m, turn, ht, rfl, rfl⟩
  · exact h.congr (parser?_congr ha.pool) hlen
  · obtain ⟨i, hb⟩ := ht.before
    have hbefore : Apart w.before := by
      rw [hb]
      exact h.congr rfl (Nat.le_refl _)
    exact (strides (m := ⟨w.before, roles, w.stage.grip⟩) hbefore ht.strides).congr rfl (Nat.le_refl _)

end Apart

/-! ## Who has which job -/

/-- Jobs on parsers are in hand until they are settled, and run the parser of the language. -/
structure Manned (s : Service) (roles : Roles Hook Job) (g : PromiseId → Grip) : Prop where
  parser : ∀ {t l j}, g t = .job l j →
    ∃ p source, s.parser? l = some p ∧ roles j = .job (.parse p source)
  owner : ∀ {j p source}, roles j = .job (.parse p source) → s.loop.isPending j = true →
    ∃ t l, g t = .job l j

/-- A stride hands in a job for a parser, or no task gets such a job in hand. -/
theorem Stride.parse_cases (hst : Stride w m m') :
    (∃ l source, m.grip = .lease l ∧ m'.grip = .job l m.service.loop.promises.size ∧
      m'.roles = Function.update m.roles m.service.loop.promises.size
        (.job (.parse (Pool.parserOf m.service l) source))) ∨
    (∀ j p source, m'.roles j = .job (.parse p source) → m.roles j = .job (.parse p source)) ∧
      ∀ l j, m'.grip = .job l j → m.grip = .job l j := by
  have hnew : ∀ {role : Role Hook Job}, (∀ p source, role ≠ .job (.parse p source)) →
      ∀ j p source, Function.update m.roles m.service.loop.promises.size role j =
        .job (.parse p source) → m.roles j = .job (.parse p source) := by
    intro role hne j p source hj
    rw [Function.update_apply] at hj
    split at hj
    · exact absurd hj (hne p source)
    · exact hj
  have hlaunch : ∀ {hook : Hook} (j p source), Function.update
        (Function.update m.roles m.service.loop.promises.size (.operation hook))
        (m.service.loop.promises.size + 1) (.shield m.service.loop.promises.size) j =
        .job (.parse p source) → m.roles j = .job (.parse p source) := by
    intro hook j p source hj
    rw [Function.update_apply] at hj
    split at hj
    · cases hj
    · exact hnew (by simp) j p source hj
  cases hst with
  | bootJoined hb hr => exact .inr ⟨hnew (by simp), fun _ _ => id⟩
  | bootLaunched hb hn => exact .inr ⟨hlaunch, fun _ _ => id⟩
  | loadJoined l hb hr => exact .inr ⟨hnew (by simp), fun _ _ => id⟩
  | loadLaunched l hb hn => exact .inr ⟨hlaunch, fun _ _ => id⟩
  | @submitted crew job grip hc hsub =>
    generalize hgrip : m.grip = before at hsub
    cases hsub with
    | boot => exact .inr ⟨hnew (by simp), fun _ _ hg => hg⟩
    | fetch hs hk he =>
      refine .inr ⟨hnew (by simp), fun _ _ hg => ?_⟩
      cases hg
    | parse l source => exact .inl ⟨l, source, rfl, rfl, rfl⟩
    | copy l source root => exact .inr ⟨hnew (by simp), fun _ _ hg => hg⟩
  | guarded hg => exact .inr ⟨hnew (by simp), fun _ _ => id⟩
  | waited hg => exact .inr ⟨hnew (by simp), fun _ _ => id⟩
  | bootTimed seconds hg => exact .inr ⟨hnew (by simp), fun _ _ => id⟩
  | drawn hg hp => exact .inr ⟨hnew (by simp), fun _ _ hj => by cases hj⟩
  | withdrawn hs hg hp =>
    refine .inr ⟨fun _ _ _ => id, fun l j hj => ?_⟩
    cases hr : w.given with
    | ok r => simp [hr] at hj
    | error f => simp [hr] at hj
  | gateMade => exact .inr ⟨hnew (by simp), fun _ _ => id⟩
  | spawned call => exact .inr ⟨hnew (by simp), fun _ _ => id⟩
  | grouped hm => exact .inr ⟨hnew (by simp), fun _ _ => id⟩
  | bootBegun hs hg => exact .inr ⟨fun _ _ _ => id, fun _ _ hj => by cases hj⟩
  | bootFailed hf hg => exact .inr ⟨fun _ _ _ => id, fun _ _ hj => by cases hj⟩
  | bootReady hs hr hg => exact .inr ⟨fun _ _ _ => id, fun _ _ hj => by cases hj⟩
  | bootAbandoned hs hf hg => exact .inr ⟨fun _ _ _ => id, fun _ _ hj => by cases hj⟩
  | fetchKept hs hk hg => exact .inr ⟨fun _ _ _ => id, fun _ _ hj => by cases hj⟩
  | fetchRefused hs he hg => exact .inr ⟨fun _ _ _ => id, fun _ _ hj => by cases hj⟩
  | fetchAbandoned hs hf hg => exact .inr ⟨fun _ _ _ => id, fun _ _ hj => by cases hj⟩
  | fetched hs hr hg => exact .inr ⟨fun _ _ _ => id, fun _ _ hj => by cases hj⟩
  | fetchFailed hs => exact .inr ⟨fun _ _ _ => id, fun _ _ hj => by cases hj⟩
  | taken hg hp hheld hall => exact .inr ⟨fun _ _ _ => id, fun _ _ hj => by cases hj⟩
  | admitted hg hp => exact .inr ⟨fun _ _ _ => id, fun _ _ hj => by cases hj⟩
  | released hp hg => exact .inr ⟨fun _ _ _ => id, fun _ _ hj => by cases hj⟩
  | _ => exact .inr ⟨fun _ _ _ => id, fun _ _ => id⟩

namespace Manned

theorem opened (config : Config) (world : World) (eager : Bool) (stuck : Option Fault)
    (log : List LogLine) :
    Manned (Service.opened config world eager stuck log) (fun _ => .unused) fun _ => .free := by
  refine ⟨fun h => ?_, fun h => ?_⟩
  · cases h
  · cases h

/-- Nobody gets a job in hand, and who has one keeps it until it is settled. -/
theorem next (h : Manned s roles g) (hr : Extends roles roles')
    (hp : ∀ l p, s.parser? l = some p → s'.parser? l = some p)
    (hopen : ∀ j p source, roles' j = .job (.parse p source) → s'.loop.isPending j = true →
      roles j = .job (.parse p source) ∧ s.loop.isPending j = true)
    (hgot : ∀ t l j, g' t = .job l j → g t = .job l j)
    (hkept : ∀ t l j, g t = .job l j → g' t = .job l j ∨ s'.loop.isPending j = false) :
    Manned s' roles' g' := by
  refine ⟨fun {t l j} hg => ?_, fun {j p source} hj ho => ?_⟩
  · obtain ⟨p, source, hpl, hj⟩ := h.parser (hgot t l j hg)
    exact ⟨p, source, hp l p hpl, hr.eq hj (by simp)⟩
  · obtain ⟨hj', ho'⟩ := hopen j p source hj ho
    obtain ⟨t, l, hg⟩ := h.owner hj' ho'
    rcases hkept t l j hg with hg' | hs
    · exact ⟨t, l, hg'⟩
    · rw [hs] at ho
      cases ho

theorem stride (h : Manned m.service m.roles (w.grips m.grip)) (ht : InTurn w m)
    (hst : Stride w m m') : Manned m'.service m'.roles (w.grips m'.grip) := by
  have hlater := hst.later
  have hkept : ∀ t l j, w.grips m.grip t = .job l j →
      w.grips m'.grip t = .job l j ∨ m'.service.loop.isPending j = false := by
    intro t l j hg
    by_cases he : t = w.task
    · subst he
      rw [grips_self] at hg ⊢
      exact hst.job_stays ht hg
    · rw [grips_of_ne he] at hg ⊢
      exact .inl hg
  rcases hst.parse_cases with ⟨l, source, hg, hg', hroles⟩ | ⟨hroles, hgrip⟩
  · have hfits := ht.grip
    rw [hg] at hfits
    obtain ⟨pooled, hpooled⟩ := Option.isSome_iff_exists.1 hfits
    have hparser : m.service.parser? l = some (Pool.parserOf m.service l) := by
      rw [parser?, Pool.parserOf, hpooled]
      rfl
    have hext := hst.extends ht
    refine ⟨fun {t l' j} hg₁ => ?_, fun {j p source'} hj ho => ?_⟩
    · rcases Locked.grips_cases hg₁ with ⟨rfl, he⟩ | ⟨hne, he⟩
      · rw [hg'] at he
        cases he
        exact ⟨_, source, hst.parser?_of_some hparser, by rw [hroles]; exact Function.update_self ..⟩
      · obtain ⟨p, source', hp, hj⟩ := h.parser (t := t) (by rwa [grips_of_ne hne])
        exact ⟨p, source', hst.parser?_of_some hp, hext.eq hj (by simp)⟩
    · by_cases he : j = m.service.loop.promises.size
      · exact ⟨w.task, l, by rw [grips_self, hg', he]⟩
      · rw [hroles, Function.update_of_ne he] at hj
        obtain ⟨t, l', hown⟩ := h.owner hj
          (hlater.isPending (ht.ordered.sound.assigned.lt_size (by simp [hj])) ho)
        rcases hkept t l' j hown with hk | hs
        · exact ⟨t, l', hk⟩
        · rw [hs] at ho
          cases ho
  · refine h.next (hst.extends ht) (fun l p hp => hst.parser?_of_some hp) (fun j p source hj ho => ?_)
      (fun t l j hg => ?_) hkept
    · have hj' := hroles j p source hj
      exact ⟨hj', hlater.isPending (ht.ordered.sound.assigned.lt_size (by simp [hj'])) ho⟩
    · by_cases he : t = w.task
      · subst he
        rw [grips_self] at hg ⊢
        exact hgrip l j hg
      · rwa [grips_of_ne he] at hg ⊢

theorem strides (h : Manned m.service m.roles (w.grips m.grip)) (ht : InTurn w m)
    (hst : Strides w m m') : Manned m'.service m'.roles (w.grips m'.grip) := by
  induction hst with
  | refl => exact h
  | tail hst hstep ih => exact ih.stride (ht.strides hst) hstep

/-- Every step keeps jobs in hand. -/
theorem step (h : Manned s roles s.gripAt) (ho : AtRest s roles) (hst : Step s roles mv s' roles') :
    Manned s' roles' s'.gripAt := by
  obtain ⟨ho', hext⟩ := ho.step hst
  have hlater : ∀ j, j < s.loop.promises.size → s'.loop.isPending j = true →
      s.loop.isPending j = true := by
    intro j hlt hp
    rcases isPending_or_settled hlt with hp' | ⟨o, hs⟩
    · exact hp'
    · rw [isPending_of_outcome? (hst.outcome?_of_some hs)] at hp
      cases hp
  rcases hst.aside_or_turn ho with ha | ⟨w, m, turn, ht, rfl, rfl⟩
  · refine h.next hext (fun l p hp => (parser?_congr ha.pool).symm ▸ hp) (fun j p source hj hp => ?_)
      (fun t l j hg => ha.gripAt_eq ▸ hg)
      fun t l j hg => (hst.job_stays ho hg).imp id fun ⟨o, hs⟩ => isPending_of_outcome? hs
    have hj' := ha.role hj (by simp)
    exact ⟨hj', hlater j (ho.sound.assigned.lt_size (by simp [hj'])) hp⟩
  · have hb : Manned w.before roles (w.grips w.stage.grip) := by
      obtain ⟨i, hb⟩ := ht.before
      rw [ht.grips_eq, hb]
      exact ⟨h.parser, h.owner⟩
    have hm := strides (m := ⟨w.before, roles, w.stage.grip⟩) hb ht.started ht.strides
    refine hm.next (.refl _) (fun _ _ hp => hp) (fun j p source hj hp => ⟨hj, ?_⟩) (fun t l j hg => ?_)
      fun t l j hg => ?_
    · exact (Later.conclude w.task turn).isPending
        (ht.inTurn.ordered.sound.assigned.lt_size (by simp [hj])) hp
    · rw [ht.gripAt_conclude] at hg
      exact grips_of_gripsAfter hg (by simp)
    · refine .inl ?_
      rw [ht.gripAt_conclude]
      exact ht.ends.gripsAfter_eq hg (by simp) (by simp)

end Manned

end SourceTrees.Service
