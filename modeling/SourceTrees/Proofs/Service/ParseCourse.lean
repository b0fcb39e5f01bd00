import SourceTrees.Proofs.Service.Bindings
import SourceTrees.Proofs.Service.Undisturbed

/-!
# The course of a parse

From its beginning to its end a parse has one job, which it has handed in itself: on the parser of its
language, with its own source.  What it ends with is what that job has come to.

## Protocol

* The jobs of other tasks, cancellations and completions in any order come between its turns.
* A parse is **excused** if it has been cancelled, or if its job has not failed.

## Results

* `Service.OneOwner` — no job is handed in by two tasks.
* `Service.Step.undisturbed` — what can disturb a call that waits for a parser's job, cancellations of the
  shared operations included.
* `Service.Owns`, `Service.OnCourse` — the job of a parse and its course; `Service.OnCourse.step` — every
  move keeps a parse on its course.
-/

set_option autoImplicit false

namespace SourceTrees.Service

open Loop

variable {s s' : Service} {roles roles' : Roles Hook Job} {w : Woken} {m m' : Midst} {mv : Service.Move}
  {ms : List Service.Move} {c t t' job p q : PromiseId} {turn : Turn Stage Reply} {code : Code}
  {language : Json} {name : String} {source : List UInt8} {parser : Nat} {point : Stage}
  {on : Option PromiseId} {f : Fault}

/-! ## Whose job it is -/

theorem Strides.grip_job (hst : Strides w m m') {l : String} (hg : m'.grip = .job l job) :
    m.grip = .job l job ∨ m.service.loop.promises.size ≤ job := by
  induction hst with
  | refl => exact .inl hg
  | @tail m₁ m₂ hsts hstep ih =>
    rcases hstep.parse_cases with ⟨l', source, _, hg', _⟩ | ⟨_, hold⟩
    · cases hg'.symm.trans hg
      exact .inr (Strides.later hsts).size_le
    · exact ih (hold _ _ hg)

/-- A job that a task comes to have in hand has just been handed in. -/
theorem Step.gripAt_job (ho : AtRest s roles) (hst : Step s roles mv s' roles') {l : String}
    (hg : s'.gripAt t = .job l job) : s.gripAt t = .job l job ∨ s.loop.promises.size ≤ job := by
  rcases hst.aside_or_turn ho with ha | ⟨w, m, turn, ht, rfl, rfl⟩
  · rw [ha.gripAt_eq] at hg
    exact .inl hg
  rw [ht.gripAt_conclude] at hg
  replace hg := grips_of_gripsAfter hg (by simp)
  have hstart := ht.grips_eq
  by_cases he : t = w.task
  · subst he
    rw [grips_self] at hg
    rcases Strides.grip_job ht.strides hg with hg | hle
    · refine .inl ?_
      rw [← hstart, grips_self]
      exact hg
    · obtain ⟨i, hb⟩ := ht.before
      rw [hb] at hle
      exact .inr hle
  · rw [grips_of_ne he] at hg
    refine .inl ?_
    rw [← hstart, grips_of_ne he]
    exact hg

theorem handedIn_snoc {l : String} (h : HandedIn s (ms ++ [mv]) t l job) :
    HandedIn s ms t l job ∨ (s.moves (ms ++ [mv])).gripAt t = .job l job :=
  Sometime.of_snoc (P := fun s => s.gripAt t = .job l job) h

theorem HandedIn.now {l : String} (h : (s.moves ms).gripAt t = .job l job) : HandedIn s ms t l job :=
  Sometime.now (P := fun s => s.gripAt t = .job l job) h

theorem HandedIn.append {l : String} (h : HandedIn s ms t l job) (after : List Service.Move) :
    HandedIn s (ms ++ after) t l job :=
  Sometime.append (P := fun s => s.gripAt t = .job l job) h after

/-- A job is handed in by one task, for one language. -/
structure OneOwner (s : Service) (ms : List Service.Move) : Prop where
  known : ∀ {t l job}, HandedIn s ms t l job → t < (s.moves ms).loop.promises.size
  lt_size : ∀ {t l job}, HandedIn s ms t l job → job < (s.moves ms).loop.promises.size
  alone : ∀ {t t' l l' job}, HandedIn s ms t l job → HandedIn s ms t' l' job → t = t' ∧ l = l'

namespace OneOwner

theorem opened (config : Config) (world : World) (eager : Bool) (stuck : Option Fault)
    (log : List LogLine) : OneOwner (Service.opened config world eager stuck log) [] := by
  have hnone : ∀ {t l job}, ¬ HandedIn (Service.opened config world eager stuck log) [] t l job := by
    rintro t l job ⟨before, after, he, hg⟩
    cases (List.nil_eq_append_iff.1 he).1
    simp [moves] at hg
    rw [gripAt_opened] at hg
    cases hg
  exact ⟨fun h => (hnone h).elim, fun h => (hnone h).elim, fun h => (hnone h).elim⟩

theorem step (h : OneOwner s ms) (ho : AtRest (s.moves ms) roles)
    (hst : Step (s.moves ms) roles mv (s.moves (ms ++ [mv])) roles')
    (hl : Lending (s.moves (ms ++ [mv])) roles') : OneOwner s (ms ++ [mv]) := by
  obtain ⟨ho', _⟩ := ho.step hst
  -- What has just been handed in was not handed in before.
  have hnew : ∀ {t t' l l' job}, HandedIn s ms t l job → (s.moves (ms ++ [mv])).gripAt t' = .job l' job →
      t = t' ∧ l = l' := by
    intro t t' l l' job hold hg
    rcases hst.gripAt_job ho hg with hg | hle
    · exact h.alone hold (.now hg)
    · exact absurd (h.lt_size hold) (Nat.not_lt.2 hle)
  refine ⟨fun hj => ?_, fun hj => ?_, fun hj hj' => ?_⟩
  · rcases handedIn_snoc hj with hj | hg
    · exact Nat.lt_of_lt_of_le (h.known hj) (hst.size_le ho)
    · obtain ⟨point, on, hp, _⟩ := exists_place?_of_gripAt (by rw [hg]; exact nofun)
      obtain ⟨task, hget, _⟩ := place?_eq_some_iff.1 hp
      exact ho'.sound.tended.known hget
  · rcases handedIn_snoc hj with hj | hg
    · exact Nat.lt_of_lt_of_le (h.lt_size hj) (hst.size_le ho)
    · obtain ⟨_, _, _, hrole⟩ := hl.manned.parser hg
      exact ho'.sound.assigned.lt_size (by simp [hrole])
  · rcases handedIn_snoc hj with hj | hg
    · rcases handedIn_snoc hj' with hj' | hg'
      · exact h.alone hj hj'
      · exact hnew hj hg'
    · rcases handedIn_snoc hj' with hj' | hg'
      · obtain ⟨ht, hl⟩ := hnew hj' hg
        exact ⟨ht.symm, hl.symm⟩
      · obtain ⟨p, source, hp, hr⟩ := hl.manned.parser hg
        obtain ⟨p', source', hp', hr'⟩ := hl.manned.parser hg'
        cases hr.symm.trans hr'
        obtain rfl := hl.apart.distinct hp hp'
        exact ⟨(hl.single hg hg').1, rfl⟩

end OneOwner

/-! ## Cancellations -/

/-- An operation does not rest on a group. -/
theorem Ordered.not_grouped (h : AtRest s roles) {task : Task Stage} {g : PromiseId}
    (ht : s.loop.tasks.get? t = some task) (hr : roles t ≠ .call) (hon : task.restsOn = some g) :
    s.loop.groups.get? g = none := by
  have hplaced := h.placed (place?_of_get? ht)
  have hfits := hplaced.rest
  have hrole := hplaced.role
  rw [hon] at hfits
  cases hg : s.loop.groups.get? g with
  | none => rfl
  | some group =>
    have hgroup := h.sound.assigned.grouped (g := g) (by rw [hg]; rfl)
    have hno : ∀ {role : Role Hook Job}, role ≠ .group → roles g ≠ role := fun hne he =>
      hne (he.symm.trans hgroup)
    generalize task.point = point at hfits hrole
    cases point with
    | boot point =>
      cases point with
      | start => cases hfits
      | importing attempt =>
        obtain ⟨p, engine, he, hp⟩ := hfits
        cases he
        exact absurd hp (hno (by simp))
      | pausing attempt timer =>
        cases timer with
        | none => cases hfits
        | some p =>
          obtain ⟨he, hp⟩ := hfits
          cases he
          exact absurd hp (hno (by simp))
    | fetch point =>
      cases point with
      | start language => cases hfits
      | fetching language locator =>
        obtain ⟨p, engine, he, hp⟩ := hfits
        cases he
        exact absurd hp (hno (by simp))
    | _ => exact absurd hrole hr

/-- A cancellation that does not spare the operations strikes no call. -/
theorem Step.struck_of_not_spares (h : AtRest s roles) (hst : Step s roles mv s' roles')
    (hsp : ¬ SparesOperations s mv) : s.loop.Struck (fun t => roles t ≠ .call) s'.loop := by
  have hstrikes : ∀ {t}, roles t ≠ .call →
      s.loop.Struck (fun t => roles t ≠ .call) (s.loop.cancelTask t) := by
    intro t hr
    refine .cancelTask hr fun {task g group} hget hon hg => ?_
    rw [Ordered.not_grouped h hget hr hon] at hg
    cases hg
  cases hst with
  | idle => exact .refl _
  | cancelled t ha =>
    rcases ha with rfl | ⟨rfl, he⟩ | ⟨language, rfl, he⟩
    · refine hstrikes fun hr => hsp fun point on hp => ?_
      rw [← (h.placed hp).role, hr]
    · refine hstrikes ?_
      rw [(h.boot.entry he).1]
      exact nofun
    · refine hstrikes ?_
      rw [(h.load.entry he).1]
      exact nofun
  | _ => exact absurd trivial hsp

/-- A call that rests on the shield of a parser's job is disturbed only by being cancelled. -/
theorem Step.undisturbed (h : AtRest s roles) (hst : Step s roles mv s' roles')
    (hp : s.loop.place? c = some (point, some q)) (hp' : s'.loop.place? c = some (point, some q))
    (hcall : point.role = .call) (hq : roles q = .shield job)
    (hjob : s.loop.outcome? job ≠ some .cancelled) (hc : ¬ s.Cancels c mv)
    (hm : ∀ task, s.loop.tasks.get? c = some task → task.marked = false)
    (hout : s.loop.outcome? q ≠ some .cancelled) :
    (∀ task, s'.loop.tasks.get? c = some task → task.marked = false) ∧
      s'.loop.outcome? q ≠ some .cancelled := by
  obtain ⟨ho', hext⟩ := h.step hst
  have hlt : q < s.loop.promises.size := h.place?_lt hp
  have hq' : roles' q = .shield job := hext.eq hq (by simp)
  by_cases hsp : SparesOperations s mv
  · refine ⟨fun task hget => ?_, fun hcancelled => ?_⟩
    · rcases hst.task_cases h hget with ⟨before, hbefore, _, hmark⟩ | ⟨hm', _⟩
      · by_contra hne
        rcases hmark (by simpa using hne) with hmarked | hcalled
        · rw [hm before hbefore] at hmarked
          cases hmarked
        · exact hc (hcalled hsp).2
      · exact hm'
    · rcases hst.outcome?_cases h (by rw [hq']; rfl) hcancelled with ho | hs
      · exact hout ho
      · rcases hs with (⟨hr, ho⟩ | ⟨hr, _⟩ | ⟨hr, _⟩ | ⟨hr, _⟩ | @⟨x, _, hx⟩) | ⟨hr, _⟩ | ⟨hr, _⟩ |
          ⟨ht, hcalled, _⟩
        case errand.relayed =>
          cases hq'.symm.trans hr
          exact hjob ho
        case errand.delivered => cases x <;> cases hx
        case cancelled => exact hc (h.place?_alone ht hp ▸ (hcalled hsp).2)
        all_goals cases hq'.symm.trans hr
  · have hs := hst.struck_of_not_spares h hsp
    have hrole : roles c = .call := (h.placed hp).role.trans hcall
    refine ⟨fun task hget => ?_, fun hcancelled => ?_⟩
    · obtain ⟨before, hbefore, _, _, hmark⟩ := hs.task hget
      by_contra hne
      rcases hmark (by simpa using hne) with hmarked | hstruck
      · rw [hm before hbefore] at hmarked
        cases hmarked
      · exact hstruck hrole
    · rcases hs.outcome hcancelled with ho | ⟨_, t, task, hr, hget, hon⟩
      · exact hout ho
      · have ht := place?_of_get? hget
        rw [hon] at ht
        obtain rfl := h.place?_alone ht hp
        exact hr hrole

/-! ## The course of a parse -/

/-- The fault with which a parse ends whose job gives no tree or raises an ordinary fault. -/
def failure? (name : String) : Except Fault (Option Node) → Option Fault
  | .ok (some _) => none
  | .ok none => some (.noTree name)
  | .error f => if f.kind.isOrdinary then some (.parserRaised name f) else none

/-- A parse that has handed in no job yet. -/
def IsEarly (config : Config) (code : Code) (language : Json) (point : Stage) : Prop :=
  point = .start (.parse code language) ∨ ∃ name source, language = .str name ∧
    config.hasLocator name = true ∧ code.toSource = .ok source ∧
      (point = .parse .tree (.booting name source) ∨
        ∃ crew lease, point = .parse .tree (.leasing name source crew lease))

/-- What holds of every state of a run whose workers have not been dismissed. -/
structure Served (s : Service) (ms : List Service.Move) (roles : Roles Hook Job) : Prop where
  config : (s.moves ms).config = s.config
  performed : Performed s ms roles
  bound : Bound s ms roles
  lending : Lending (s.moves ms) roles
  owned : OneOwner s ms

/-- A parse has handed in its own job, on the parser of its language and with its own source. -/
structure Owns (s : Service) (ms : List Service.Move) (roles : Roles Hook Job) (c : PromiseId)
    (name : String) (source : List UInt8) (job : PromiseId) (parser : Nat) : Prop where
  handed : HandedIn s ms c name job
  only : ∀ {l j}, HandedIn s ms c l j → l = name ∧ j = job
  pooled : (s.moves ms).parser? name = some parser
  role : roles job = .job (.parse parser source)
  awaited : Awaited s ms job parser source

/-- A parse has been cancelled, or what its job has come to is no failure. -/
def Excused (s : Service) (ms : List Service.Move) (c : PromiseId) (name : String)
    (source : List UInt8) (job : PromiseId) (parser : Nat) : Prop :=
  CancelledIn s ms c ∨ ∃ x, Parsed s ms job parser source x ∧ failure? name x = none

/-- A parse that has handed in its job ends with its own tree, or with its own failure. -/
structure EndsOwn (s : Service) (ms : List Service.Move) (c : PromiseId) (name : String)
    (source : List UInt8) (job : PromiseId) (parser : Nat) (o : Settled Reply) : Prop where
  returned : ∀ {v}, o = .value v → ∃ root, Parsed s ms job parser source (.ok (some root)) ∧
    v = .tree (.ofEngine name source root)
  failed : Excused s ms c name source job parser ∨
    ∃ x f, Parsed s ms job parser source x ∧ failure? name x = some f ∧ o = .failed f

/-- The course of a parse. -/
inductive OnCourse (s : Service) (ms : List Service.Move) (roles : Roles Hook Job) (c : PromiseId)
    (code : Code) (language : Json) : Prop
  | early {point : Stage} {on : Option PromiseId}
      (hp : (s.moves ms).loop.place? c = some (point, on)) (he : IsEarly s.config code language point)
      (hj : ∀ l j, ¬ HandedIn s ms c l j)
  | running {name : String} {source : List UInt8} {crew : Crew} {job q : PromiseId} {parser : Nat}
      (hp : (s.moves ms).loop.place? c = some (.parse .tree (.running name source crew job), some q))
      (hl : language = .str name) (hc : code.toSource = .ok source)
      (hown : Owns s ms roles c name source job parser)
      (hspared : CancelledIn s ms c ∨
        (∀ task, (s.moves ms).loop.tasks.get? c = some task → task.marked = false) ∧
          (s.moves ms).loop.outcome? q ≠ some .cancelled)
  | draining {name : String} {source : List UInt8} {job waiter : PromiseId} {parser : Nat} {f : Fault}
      {on : Option PromiseId}
      (hp : (s.moves ms).loop.place? c = some (.parse .tree (.draining name job waiter f), on))
      (hl : language = .str name) (hc : code.toSource = .ok source)
      (hown : Owns s ms roles c name source job parser)
      (hx : Excused s ms c name source job parser)
  | copying {name : String} {source : List UInt8} {job q : PromiseId} {parser : Nat} {root : Node}
      (hp : (s.moves ms).loop.place? c = some (.parse .tree (.copying name), some q))
      (hl : language = .str name) (hc : code.toSource = .ok source)
      (hown : Owns s ms roles c name source job parser)
      (hx : Parsed s ms job parser source (.ok (some root)))
      (hcopy : CopyAwaited s ms q (.ofEngine name source root))
  | unowned {o : Settled Reply} (hout : (s.moves ms).loop.outcome? c = some o)
      (hj : ∀ l j, ¬ HandedIn s ms c l j) (hv : ∀ v, o ≠ .value v)
  | ended {name : String} {source : List UInt8} {job : PromiseId} {parser : Nat} {o : Settled Reply}
      (hout : (s.moves ms).loop.outcome? c = some o)
      (hl : language = .str name) (hc : code.toSource = .ok source)
      (hown : Owns s ms roles c name source job parser)
      (he : EndsOwn s ms c name source job parser o)

theorem CancelledIn.snoc (h : CancelledIn s ms c) : CancelledIn s (ms ++ [mv]) c := by
  obtain ⟨before, mv', after, rfl, h⟩ := h
  exact ⟨before, mv', after ++ [mv], by simp, h⟩

theorem CancelledIn.now (h : (s.moves ms).Cancels c mv) : CancelledIn s (ms ++ [mv]) c :=
  ⟨ms, mv, [], rfl, h⟩

theorem Excused.snoc (h : Excused s ms c name source job parser) :
    Excused s (ms ++ [mv]) c name source job parser := by
  rcases h with h | ⟨x, hx, hf⟩
  · exact .inl h.snoc
  · exact .inr ⟨x, hx.append [mv], hf⟩

theorem EndsOwn.snoc {o : Settled Reply} (h : EndsOwn s ms c name source job parser o) :
    EndsOwn s (ms ++ [mv]) c name source job parser o where
  returned hv := by
    obtain ⟨root, hx, hr⟩ := h.returned hv
    exact ⟨root, hx.append [mv], hr⟩
  failed := by
    rcases h.failed with h | ⟨x, f, hx, hf, ho⟩
    · exact .inl h.snoc
    · exact .inr ⟨x, f, hx.append [mv], hf, ho⟩

/-- A parse keeps its job, whatever happens. -/
theorem Owns.step (h : Owns s ms roles c name source job parser) (hs : Served s ms roles)
    (ho : AtRest (s.moves ms) roles)
    (hst : Step (s.moves ms) roles mv (s.moves (ms ++ [mv])) roles')
    (hd : (s.moves (ms ++ [mv])).workers.dismissed = false)
    (honly : ∀ l j, (s.moves (ms ++ [mv])).gripAt c = .job l j → l = name ∧ j = job) :
    Owns s (ms ++ [mv]) roles' c name source job parser where
  handed := h.handed.append [mv]
  only hj := (handedIn_snoc hj).elim h.only (honly _ _)
  pooled := hst.parser?_of_some ho h.pooled
  role := (ho.step hst).2.eq h.role (by simp)
  awaited := h.awaited.step hs.performed ho hst hd

/-- A task that has ended has nothing in hand. -/
theorem Ordered.gripAt_of_outcome? (h : AtRest s roles) {o : Settled Reply}
    (ho : s.loop.outcome? c = some o) : s.gripAt c = .free := by
  by_contra hne
  obtain ⟨point, on, hp, _⟩ := exists_place?_of_gripAt hne
  have hopen := h.isPending_of_place? hp
  rw [isPending_of_outcome? ho] at hopen
  cases hopen

theorem IsEarly.grip {config : Config} (h : IsEarly config code language point) (l : String) (j : PromiseId) :
    point.grip ≠ .job l j := by
  rcases h with rfl | ⟨name, source, _, _, _, rfl | ⟨crew, lease, rfl⟩⟩
  · exact nofun
  · exact nofun
  · cases lease <;> exact nofun

/-- A name that is valid is that of a language with a locator. -/
theorem hasLocator_of_validate (h : s.validate (.str name) = .ok name) :
    s.config.hasLocator name = true := by
  simp only [validate] at h
  split at h
  · assumption
  · cases h

namespace OnCourse

/-- Where a task without a job rests, it still has none. -/
theorem not_handedIn_snoc (hj : ∀ l j, ¬ HandedIn s ms c l j)
    (hg : ∀ l j, (s.moves (ms ++ [mv])).gripAt c ≠ .job l j) (l : String) (j : PromiseId) :
    ¬ HandedIn s (ms ++ [mv]) c l j := fun h =>
  (handedIn_snoc h).elim (hj l j) (hg l j)

/-- A parse that is not served stays as it is. -/
theorem stay (h : OnCourse s ms roles c code language) (hs : Served s ms roles)
    (ho : AtRest (s.moves ms) roles)
    (hst : Step (s.moves ms) roles mv (s.moves (ms ++ [mv])) roles')
    (hd : (s.moves (ms ++ [mv])).workers.dismissed = false)
    (hstay : ∀ point on, (s.moves ms).loop.place? c = some (point, on) →
      (s.moves (ms ++ [mv])).loop.place? c = some (point, on)) :
    OnCourse s (ms ++ [mv]) roles' c code language := by
  obtain ⟨ho', hext⟩ := ho.step hst
  cases h with
  | early hp he hj =>
    have hp' := hstay _ _ hp
    refine .early hp' he (not_handedIn_snoc hj ?_)
    rw [gripAt_of_place? hp']
    exact he.grip
  | @running name source crew job q parser hp hl hc hown hspared =>
    have hp' := hstay _ _ hp
    refine .running hp' hl hc (hown.step hs ho hst hd ?_) ?_
    · intro l j hg
      rw [gripAt_of_place? hp'] at hg
      cases hg
      exact ⟨rfl, rfl⟩
    · rcases hspared with hx | ⟨hm, hout⟩
      · exact .inl hx.snoc
      · by_cases hcancel : (s.moves ms).Cancels c mv
        · exact .inl (.now hcancel)
        · obtain ⟨q', _, he, hq, _⟩ := (ho.placed hp).rest
          cases he
          refine .inr (hst.undisturbed ho hp hp' rfl hq (fun hjob => ?_) hcancel hm hout)
          obtain ⟨x, _, hx⟩ := hs.performed.settled hown.role hjob
          cases x <;> cases hx
  | draining hp hl hc hown hx =>
    have hp' := hstay _ _ hp
    refine .draining hp' hl hc (hown.step hs ho hst hd ?_) hx.snoc
    intro l j hg
    rw [gripAt_of_place? hp'] at hg
    cases hg
    exact ⟨rfl, rfl⟩
  | copying hp hl hc hown hx hcopy =>
    have hp' := hstay _ _ hp
    refine .copying hp' hl hc (hown.step hs ho hst hd ?_) (hx.append [mv]) (hcopy.step ho hst hd)
    intro l j hg
    rw [gripAt_of_place? hp'] at hg
    cases hg
  | unowned hout hj hv =>
    have hout' := hst.outcome?_of_some hout
    refine .unowned hout' (not_handedIn_snoc hj ?_) hv
    rw [ho'.gripAt_of_outcome? hout']
    exact nofun
  | ended hout hl hc hown he =>
    have hout' := hst.outcome?_of_some hout
    refine .ended hout' hl hc (hown.step hs ho hst hd ?_) he.snoc
    rw [ho'.gripAt_of_outcome? hout']
    exact nofun

/-! ### Turns -/

section Turns

variable {turn' : Turn ParseStage Tree}

theorem after_rest {on : PromiseId} :
    (m.after c (.rest on point)).loop.place? c = some (point, some on) := by
  show (Program.conclude c _ m.service.loop).place? c = _
  rw [place?_conclude, if_pos rfl]

theorem after_finish (ht : HasTurn s roles w m turn) (result : Except Fault Reply) :
    (m.after w.task (.finish result)).loop.outcome? w.task = some (Program.ended result) :=
  outcome?_finish ht.inTurn.unfinished.2 result

/-- A parse without a job that ends with a fault. -/
theorem of_fault (ht : HasTurn (s.moves ms) roles w m (.finish (.error f)))
    (he : s.moves (ms ++ [mv]) = m.after w.task (.finish (.error f)))
    (ho' : AtRest (s.moves (ms ++ [mv])) m.roles) (hj : ∀ l j, ¬ HandedIn s ms w.task l j) :
    OnCourse s (ms ++ [mv]) m.roles w.task code language := by
  have hout : (s.moves (ms ++ [mv])).loop.outcome? w.task =
      some (Program.ended (.error f : Except Fault Reply)) := by
    rw [he]
    exact after_finish ht _
  refine .unowned hout (not_handedIn_snoc hj ?_) fun v hv => ?_
  · rw [ho'.gripAt_of_outcome? hout]
    exact nofun
  · cases Program.ended_eq_value.1 hv

/-- A parse without a job that comes to rest. -/
theorem of_rest {on : PromiseId} (he : s.moves (ms ++ [mv]) = m.after c (.rest on point))
    (hpoint : IsEarly s.config code language point) (hj : ∀ l j, ¬ HandedIn s ms c l j) :
    OnCourse s (ms ++ [mv]) m.roles c code language := by
  have hp : (s.moves (ms ++ [mv])).loop.place? c = some (point, some on) := by
    rw [he]
    exact after_rest
  refine .early hp hpoint (not_handedIn_snoc hj ?_)
  rw [gripAt_of_place? hp]
  exact hpoint.grip

/-- A parse that has handed in its job. -/
theorem of_running {crew : Crew} {pooled : Pooled} {s₂ : Service} {on : PromiseId}
    {came : Prop}
    (h : Leases w.before name came (.finish (.ok pooled.parser)) s₂)
    (hpool : s₂.pool.get? name = some pooled)
    (hon : on = (Work.handedIn s₂ crew (.parse pooled.parser source)).loop.promises.size)
    (hm : m.service = { Work.handedIn s₂ crew (.parse pooled.parser source) with
      loop := ((Work.handedIn s₂ crew (.parse pooled.parser source)).loop.shield
        w.before.loop.promises.size).2 })
    (ht : HasTurn (s.moves ms) roles w m
      (.rest on (.parse .tree (.running name source crew w.before.loop.promises.size))))
    (he : s.moves (ms ++ [mv]) = m.after w.task
      (.rest on (.parse .tree (.running name source crew w.before.loop.promises.size))))
    (hs : Served s ms roles) (hs' : Served s (ms ++ [mv]) m.roles)
    (ho' : AtRest (s.moves (ms ++ [mv])) m.roles) (hl : language = .str name)
    (hc : code.toSource = .ok source) (hj : ∀ l j, ¬ HandedIn s ms w.task l j) :
    OnCourse s (ms ++ [mv]) m.roles w.task code language := by
  obtain ⟨i, hbefore⟩ := ht.before
  have hsize : w.before.loop.promises.size = (s.moves ms).loop.promises.size := by
    rw [hbefore]
    rfl
  obtain ⟨_, htried, hloop⟩ := h.of_ok
  have hp : (s.moves (ms ++ [mv])).loop.place? w.task = some (.parse .tree (.running name source crew
      w.before.loop.promises.size), some on) := by
    rw [he]
    exact after_rest
  have hg : (s.moves (ms ++ [mv])).gripAt w.task = .job name w.before.loop.promises.size :=
    gripAt_of_place? hp
  -- The job is one on the parser that is pooled.
  obtain ⟨_, parser, hq, hshield, hrole⟩ := (ho'.placed hp).rest
  cases hq
  obtain ⟨parser', source', hpooled, hrole'⟩ := hs'.lending.manned.parser hg
  cases hrole.symm.trans hrole'
  have hpools : (s.moves (ms ++ [mv])).pool = s₂.pool := by
    rw [he]
    show m.service.pool = _
    rw [hm]
    exact Work.pool_handedIn
  have hparser : (s.moves (ms ++ [mv])).parser? name = some pooled.parser := by
    rw [parser?_congr hpools]
    exact parser?_of_get? hpool
  cases hpooled.symm.trans hparser
  have hawaited : Awaited s (ms ++ [mv]) w.before.loop.promises.size pooled.parser source := by
    rw [← hloop]
    have hend : (Work.handedIn s₂ crew (.parse pooled.parser source)).loop.Grows
        (s.moves (ms ++ [mv])).loop := by
      rw [he]
      refine Grows.trans ?_ (Grows.conclude w.task _)
      rw [hm]
      exact .shield _
    rcases inQueue_handedIn s₂ crew (.parse pooled.parser source) with ⟨k, hk, hk'⟩ | ⟨hworld, hput⟩
    · refine .inl ⟨k, ?_, hk'⟩
      rw [he]
      show k ∈ m.service.workers.queue
      rw [hm]
      exact hk
    · refine .inr ⟨((Attempt.parse pooled.parser source).run s₂.world).1,
        Parses.parsed ⟨⟨s₂.world, ?_, ?_⟩, ?_, fun y hy => ?_⟩⟩
      · rw [hbefore] at htried
        exact htried
      · rw [← move_eq, he]
        show _ = (_, m.service.world)
        rw [hm]
        exact Prod.ext rfl hworld.symm
      · rw [← move_eq]
        exact hend.mem hput
      · have hlt := hs.performed.worked.lt_size (.now hy)
        rw [hloop, hsize] at hlt
        exact Nat.lt_irrefl _ hlt
  refine .running hp hl hc ⟨.now hg, fun hj' => ?_, hparser, hrole, hawaited⟩ (.inr ⟨?_, ?_⟩)
  · rcases handedIn_snoc hj' with hj' | hg'
    · exact absurd hj' (hj _ _)
    · cases hg.symm.trans hg'
      exact ⟨rfl, rfl⟩
  · intro task hget
    rw [he] at hget
    cases get?_tasks_rest.symm.trans hget
    rfl
  · -- The shield has just been made.
    rw [he]
    show (Program.conclude w.task _ m.service.loop).outcome? on ≠ _
    rw [ht.inTurn.outcome?_conclude (by rw [hshield]; rfl), hm]
    intro hout
    replace hout := ((Still.shield _).outcome on).symm.trans hout
    rw [hon] at hout
    exact Nat.lt_irrefl _ (outcome?_lt hout)

/-- A parse that borrows its parser. -/
theorem of_borrows {came : Prop} (hb : Borrows w.before name source came turn' m.service)
    (ht : HasTurn (s.moves ms) roles w m (replyTree turn'))
    (he : s.moves (ms ++ [mv]) = m.after w.task (replyTree turn'))
    (hs : Served s ms roles) (hs' : Served s (ms ++ [mv]) m.roles)
    (ho' : AtRest (s.moves (ms ++ [mv])) m.roles)
    (hd : (s.moves ms).workers.dismissed = false) (hl : language = .str name)
    (hsup : s.config.hasLocator name = true) (hc : code.toSource = .ok source)
    (hj : ∀ l j, ¬ HandedIn s ms w.task l j) :
    OnCourse s (ms ++ [mv]) m.roles w.task code language := by
  obtain ⟨i, hbefore⟩ := ht.before
  generalize hm : m.service = s₁ at hb
  cases hb with
  | leasing h => exact of_rest he (.inr ⟨name, source, hl, hsup, hc, .inr ⟨_, _, rfl⟩⟩) hj
  | denied h => exact of_fault ht he ho' hj
  | refused hdismissed =>
    rw [hbefore] at hdismissed
    exact absurd (hd.symm.trans hdismissed) (by decide)
  | running h hpool => exact of_running h hpool rfl hm ht he hs hs' ho' hl hc hj

/-- A parse with a job that ends. -/
theorem of_end {result : Except Fault Reply} (ht : HasTurn (s.moves ms) roles w m (.finish result))
    (he : s.moves (ms ++ [mv]) = m.after w.task (.finish result)) (hs : Served s ms roles)
    (ho : AtRest (s.moves ms) roles)
    (hst : Step (s.moves ms) roles mv (s.moves (ms ++ [mv])) m.roles)
    (ho' : AtRest (s.moves (ms ++ [mv])) m.roles)
    (hd : (s.moves (ms ++ [mv])).workers.dismissed = false) (hl : language = .str name)
    (hc : code.toSource = .ok source) (hown : Owns s ms roles w.task name source job parser)
    (hend : EndsOwn s ms w.task name source job parser (Program.ended result)) :
    OnCourse s (ms ++ [mv]) m.roles w.task code language := by
  have hout : (s.moves (ms ++ [mv])).loop.outcome? w.task = some (Program.ended result) := by
    rw [he]
    exact after_finish ht _
  refine .ended hout hl hc (hown.step hs ho hst hd fun l j hg => ?_) hend.snoc
  rw [ho'.gripAt_of_outcome? hout] at hg
  cases hg

/-- A parse with a job that ends with a fault, excused. -/
theorem endsOwn_of_excused (f : Fault) (hx : Excused s ms c name source job parser) :
    EndsOwn s ms c name source job parser (Program.ended (.error f)) where
  returned hv := nomatch Program.ended_eq_value.1 hv
  failed := .inl hx

/-- A parse with a job that fails as the job has failed. -/
theorem endsOwn_of_failure {x : Except Fault (Option Node)}
    (hx : Parsed s ms job parser source x) (hf : failure? name x = some f) :
    EndsOwn s ms c name source job parser (Program.ended (.error f)) where
  returned hv := nomatch Program.ended_eq_value.1 hv
  failed := by
    refine .inr ⟨x, f, hx, hf, Program.ended_of_isDeclared ?_⟩
    cases x with
    | ok root =>
      cases root with
      | some root => cases hf
      | none =>
        cases hf
        rfl
    | error g =>
      simp only [failure?] at hf
      split at hf
      · cases hf
        rfl
      · cases hf

/-- What a parse is given that waits for its job: what the job has come to, unless it is cancelled. -/
theorem given_running {crew : Crew} (ht : HasTurn (s.moves ms) roles w m turn)
    (hs : Served s ms roles) (ho : AtRest (s.moves ms) roles)
    (hp : (s.moves ms).loop.place? w.task =
      some (.parse .tree (.running name source crew job), some q))
    (hown : Owns s ms roles w.task name source job parser)
    (hspared : CancelledIn s ms w.task ∨
      (∀ task, (s.moves ms).loop.tasks.get? w.task = some task → task.marked = false) ∧
        (s.moves ms).loop.outcome? q ≠ some .cancelled) :
    (CancelledIn s ms w.task ∧ ∃ f, w.given = .error f) ∨
      ∃ x, Parsed s ms job parser source x ∧ w.given = Work.reply .engineTree x := by
  obtain ⟨task, given, hget, hpoint, _, hgives, hmet⟩ := ht.woken
  have hon : task.restsOn = some q := by
    have hplace := (place?_of_get? hget).symm.trans hp
    exact (Prod.mk.inj (Option.some.inj hplace)).2
  unfold Loop.Gives at hgives
  rw [hon] at hgives
  obtain ⟨o, hout, rfl⟩ := hgives
  obtain ⟨_, _, he, hshield, _⟩ := (ho.placed hp).rest
  cases he
  -- What the shield has taken over is what the job has come to.
  have hjob : o ≠ .cancelled → ∃ x, Parsed s ms job parser source x ∧
      o.result = Work.reply .engineTree x := by
    intro hne
    have hout' := (ho.sound.assigned.taken hshield hout).resolve_left hne
    obtain ⟨y, hy, rfl⟩ := hs.performed.settled hown.role hout'
    obtain ⟨x, hx, rfl⟩ := hown.awaited.hasCome hs.performed.worked hy
    refine ⟨x, hx, ?_⟩
    cases x <;> rfl
  rcases hspared with hcancelled | ⟨hm, hne⟩
  · cases hg : w.given with
    | error f => exact .inl ⟨hcancelled, f, rfl⟩
    | ok r =>
      obtain ⟨_, hgiven⟩ := Program.met_eq_ok (hmet.symm.trans hg)
      have hne : o ≠ .cancelled := by
        rintro rfl
        cases hgiven
      obtain ⟨x, hx, hr⟩ := hjob hne
      exact .inr ⟨x, hx, hgiven.symm.trans hr⟩
  · rw [Program.met_of_not_marked (hm task hget)] at hmet
    obtain ⟨x, hx, hr⟩ := hjob fun he => hne (he ▸ hout)
    exact .inr ⟨x, hx, hmet.trans hr⟩

/-- The turn of a parse. -/
theorem resumed_parse {point : ParseStage} (ht : HasTurn s roles w m turn)
    (hs : w.stage = .parse .tree point) :
    turn = replyTree (Parsing.resume point w.given w.before).1 ∧
      m.service = (Parsing.resume point w.given w.before).2 := by
  have hres := ht.resumed
  rw [hs, resumeParse_eq] at hres
  obtain ⟨rfl, hm⟩ := Prod.mk.inj hres
  exact ⟨rfl, hm.symm⟩

/-- A parse that waits for its job goes on. -/
theorem serve_running {crew : Crew} (ht : HasTurn (s.moves ms) roles w m turn)
    (he : s.moves (ms ++ [mv]) = m.after w.task turn) (hs : Served s ms roles)
    (ho : AtRest (s.moves ms) roles)
    (hst : Step (s.moves ms) roles mv (s.moves (ms ++ [mv])) m.roles)
    (hd : (s.moves (ms ++ [mv])).workers.dismissed = false)
    (hstage : w.stage = .parse .tree (.running name source crew job))
    (hp : (s.moves ms).loop.place? w.task =
      some (.parse .tree (.running name source crew job), some q))
    (hl : language = .str name) (hc : code.toSource = .ok source)
    (hown : Owns s ms roles w.task name source job parser)
    (hspared : CancelledIn s ms w.task ∨
      (∀ task, (s.moves ms).loop.tasks.get? w.task = some task → task.marked = false) ∧
        (s.moves ms).loop.outcome? q ≠ some .cancelled) :
    OnCourse s (ms ++ [mv]) m.roles w.task code language := by
  obtain ⟨ho', _⟩ := ho.step hst
  obtain ⟨hturn, hm⟩ := resumed_parse ht hstage
  -- A fault that is excused has the parse wait its job out, or ends it.
  have hexcused : ∀ f, w.given = .error f → Excused s ms w.task name source job parser →
      OnCourse s (ms ++ [mv]) m.roles w.task code language := by
    intro f hg hx
    rw [hg] at hturn
    rcases resume_error job f with ⟨_, waiter, hrest⟩ | ⟨g, hend⟩
    · rw [hrest] at hturn
      subst hturn
      have hp' : (s.moves (ms ++ [mv])).loop.place? w.task =
          some (.parse .tree (.draining name job waiter f), some waiter) := by
        rw [he]
        exact after_rest
      refine .draining hp' hl hc (hown.step hs ho hst hd fun l j hg => ?_) hx.snoc
      rw [gripAt_of_place? hp'] at hg
      cases hg
      exact ⟨rfl, rfl⟩
    · rw [hend] at hturn
      subst hturn
      exact of_end ht he hs ho hst ho' hd hl hc hown (endsOwn_of_excused g hx)
  rcases given_running ht hs ho hp hown hspared with ⟨hx, f, hg⟩ | ⟨x, hx, hg⟩
  · exact hexcused f hg (.inl hx)
  cases x with
  | error f =>
    cases hf : f.kind.isOrdinary with
    | false =>
      refine hexcused f hg (.inr ⟨_, hx, ?_⟩)
      simp only [failure?, hf]
      rfl
    | true =>
      rw [hg, Work.reply, resume_raised hf] at hturn
      subst hturn
      refine of_end ht he hs ho hst ho' hd hl hc hown (endsOwn_of_failure hx ?_)
      simp only [failure?, hf, if_true]
  | ok root =>
    cases root with
    | none =>
      rw [hg, Work.reply, resume_none rfl] at hturn
      subst hturn
      exact of_end ht he hs ho hst ho' hd hl hc hown (endsOwn_of_failure hx rfl)
    | some root =>
      have hopen : ¬ (crew = .own ∧ w.before.workers.dismissed = true) := by
        rintro ⟨_, hdismissed⟩
        obtain ⟨i, hb⟩ := ht.before
        rw [hb] at hdismissed
        exact absurd (hd.symm.trans (hst.dismissed_stays hdismissed)) (by decide)
      rw [hg, Work.reply, resume_some rfl, if_neg hopen] at hturn hm
      subst hturn
      have hp' : (s.moves (ms ++ [mv])).loop.place? w.task = some (.parse .tree (.copying name),
          some (Pool.release name w.before).2.loop.promises.size) := by
        rw [he]
        exact after_rest
      refine .copying hp' hl hc (hown.step hs ho hst hd fun l j hg => ?_) (hx.append [mv]) ?_
      · rw [gripAt_of_place? hp'] at hg
        cases hg
      · -- The copy has just been handed in.
        rcases inQueue_handedIn (Pool.release name w.before).2 crew (.copy name source root) with
          ⟨k, hk, hk'⟩ | ⟨_, hput⟩
        · refine .inl ⟨name, source, root, rfl, k, ?_, hk'⟩
          rw [he]
          show k ∈ m.service.workers.queue
          rw [hm]
          exact hk
        · refine .inr (.now ?_)
          rw [he]
          refine (Grows.conclude w.task _).mem ?_
          rw [hm]
          exact hput

/-- A parse that waits its job out goes on. -/
theorem serve_draining {waiter : PromiseId} (ht : HasTurn (s.moves ms) roles w m turn)
    (he : s.moves (ms ++ [mv]) = m.after w.task turn) (hs : Served s ms roles)
    (ho : AtRest (s.moves ms) roles)
    (hst : Step (s.moves ms) roles mv (s.moves (ms ++ [mv])) m.roles)
    (hd : (s.moves (ms ++ [mv])).workers.dismissed = false)
    (hstage : w.stage = .parse .tree (.draining name job waiter f))
    (hl : language = .str name) (hc : code.toSource = .ok source)
    (hown : Owns s ms roles w.task name source job parser)
    (hx : Excused s ms w.task name source job parser) :
    OnCourse s (ms ++ [mv]) m.roles w.task code language := by
  obtain ⟨ho', _⟩ := ho.step hst
  obtain ⟨hturn, hm⟩ := resumed_parse ht hstage
  rcases resume_draining name job waiter f w.given w.before with ⟨waiter', hrest⟩ | hend
  · rw [hrest] at hturn
    subst hturn
    have hp' : (s.moves (ms ++ [mv])).loop.place? w.task =
        some (.parse .tree (.draining name job waiter' f), some waiter') := by
      rw [he]
      exact after_rest
    refine .draining hp' hl hc (hown.step hs ho hst hd fun l j hg => ?_) hx.snoc
    rw [gripAt_of_place? hp'] at hg
    cases hg
    exact ⟨rfl, rfl⟩
  · rw [hend] at hturn
    subst hturn
    exact of_end ht he hs ho hst ho' hd hl hc hown (endsOwn_of_excused f hx)

/-- What a parse is given that waits for its copy: the copy, unless it meets a fault. -/
theorem given_copying {root : Node} {r : Reply} (ht : HasTurn (s.moves ms) roles w m turn)
    (hs : Served s ms roles) (ho : AtRest (s.moves ms) roles)
    (hp : (s.moves ms).loop.place? w.task = some (.parse .tree (.copying name), some q))
    (hcopy : CopyAwaited s ms q (.ofEngine name source root)) (hg : w.given = .ok r) :
    r = .tree (.ofEngine name source root) := by
  obtain ⟨task, given, hget, hpoint, _, hgives, hmet⟩ := ht.woken
  have hon : task.restsOn = some q := by
    have hplace := (place?_of_get? hget).symm.trans hp
    exact (Prod.mk.inj (Option.some.inj hplace)).2
  unfold Loop.Gives at hgives
  rw [hon] at hgives
  obtain ⟨o, hout, rfl⟩ := hgives
  obtain ⟨_, hgiven⟩ := Program.met_eq_ok (hmet.symm.trans hg)
  have hvalue : o = .value r := by
    cases o <;> cases hgiven
    rfl
  subst hvalue
  obtain ⟨_, _, _, _, hq, hrole⟩ := (ho.placed hp).rest
  cases hq
  cases hcopy.hasCome hs.performed.worked (hs.performed.valued hrole hout)
  rfl

/-- A parse that waits for its copy ends. -/
theorem serve_copying {root : Node} (ht : HasTurn (s.moves ms) roles w m turn)
    (he : s.moves (ms ++ [mv]) = m.after w.task turn) (hs : Served s ms roles)
    (ho : AtRest (s.moves ms) roles)
    (hst : Step (s.moves ms) roles mv (s.moves (ms ++ [mv])) m.roles)
    (hd : (s.moves (ms ++ [mv])).workers.dismissed = false)
    (hstage : w.stage = .parse .tree (.copying name))
    (hp : (s.moves ms).loop.place? w.task = some (.parse .tree (.copying name), some q))
    (hl : language = .str name) (hc : code.toSource = .ok source)
    (hown : Owns s ms roles w.task name source job parser)
    (hx : Parsed s ms job parser source (.ok (some root)))
    (hcopy : CopyAwaited s ms q (.ofEngine name source root)) :
    OnCourse s (ms ++ [mv]) m.roles w.task code language := by
  obtain ⟨ho', _⟩ := ho.step hst
  obtain ⟨hturn, hm⟩ := resumed_parse ht hstage
  cases hg : w.given with
  | error f =>
    rw [hg] at hturn
    subst hturn
    exact of_end ht he hs ho hst ho' hd hl hc hown (endsOwn_of_excused f (.inr ⟨_, hx, rfl⟩))
  | ok r =>
    cases given_copying ht hs ho hp hcopy hg
    rw [hg] at hturn
    subst hturn
    refine of_end ht he hs ho hst ho' hd hl hc hown ⟨fun hv => ?_, .inl (.inr ⟨_, hx, rfl⟩)⟩
    cases hv
    exact ⟨root, hx, rfl⟩

/-- A parse without a job goes on. -/
theorem serve_early (ht : HasTurn (s.moves ms) roles w m turn)
    (he : s.moves (ms ++ [mv]) = m.after w.task turn) (hs : Served s ms roles)
    (hs' : Served s (ms ++ [mv]) m.roles) (ho : AtRest (s.moves ms) roles)
    (hst : Step (s.moves ms) roles mv (s.moves (ms ++ [mv])) m.roles)
    (hd : (s.moves ms).workers.dismissed = false)
    (hearly : IsEarly s.config code language w.stage)
    (hj : ∀ l j, ¬ HandedIn s ms w.task l j) :
    OnCourse s (ms ++ [mv]) m.roles w.task code language := by
  obtain ⟨ho', _⟩ := ho.step hst
  have hconfig : w.before.config = s.config := by
    obtain ⟨i, hb⟩ := ht.before
    rw [hb]
    exact hs.config
  have hvalid : ∀ {name}, s.config.hasLocator name = true → w.before.validate (.str name) = .ok name := by
    intro name hsup
    simp only [validate, hconfig, hsup, if_true]
  rcases hearly with hstage | ⟨name, source, hl, hsup, hc, hstage | ⟨crew, lease, hstage⟩⟩
  · have hres := ht.resumed
    rw [hstage] at hres
    cases hg : w.given with
    | error f =>
      rw [hg] at hres
      obtain ⟨rfl, _⟩ := Prod.mk.inj hres
      exact of_fault ht he ho' hj
    | ok r =>
      rw [hg, startParse_eq] at hres
      have hrefused : ∀ {f}, Parsing.request code language w.before = (.finish (.error f), w.before) →
          OnCourse s (ms ++ [mv]) m.roles w.task code language := by
        intro f hf
        rw [hf] at hres
        obtain ⟨rfl, _⟩ := Prod.mk.inj hres
        exact of_fault ht he ho' hj
      cases hv : w.before.validate language with
      | error f => exact hrefused (request_refused (.inl hv))
      | ok name =>
        obtain rfl := validate_eq_ok hv
        cases hc : code.toSource with
        | error f => exact hrefused (request_refused (.inr ⟨⟨name, hv⟩, hc⟩))
        | ok source =>
          have hsup : s.config.hasLocator name = true := by
            rw [← hconfig]
            exact hasLocator_of_validate hv
          rcases request_accepted hv hc with ⟨p, s₁, hrest, _⟩ | ⟨_, hborrow⟩
          · rw [hrest] at hres
            obtain ⟨rfl, _⟩ := Prod.mk.inj hres
            exact of_rest he (.inr ⟨name, source, rfl, hsup, hc, .inl rfl⟩) hj
          · rw [hborrow] at hres
            obtain ⟨rfl, hm⟩ := Prod.mk.inj hres
            have hborrows : Borrows w.before name source False _ m.service := hm ▸ borrows_borrow hv
            exact of_borrows hborrows ht he hs hs' ho' hd rfl hsup hc hj
  · obtain ⟨hturn, hm⟩ := resumed_parse ht hstage
    cases hg : w.given with
    | error f =>
      rw [hg] at hturn
      subst hturn
      exact of_fault ht he ho' hj
    | ok r =>
      rw [hg] at hturn hm
      subst hturn
      have hborrows : Borrows w.before name source False _ m.service :=
        hm ▸ borrows_borrow (hvalid hsup)
      exact of_borrows hborrows ht he hs hs' ho' hd hl hsup hc hj
  · obtain ⟨hturn, hm⟩ := resumed_parse ht hstage
    cases hg : w.given with
    | error f =>
      have hfault : (Parsing.resume (.leasing name source crew lease) (.error f) w.before).1 =
          .finish (.error f) := by
        simp only [Parsing.resume, Work.run_bind, resumeLease_error]
        rfl
      rw [hg, hfault] at hturn
      subst hturn
      exact of_fault ht he ho' hj
    | ok r =>
      rw [hg] at hturn hm
      subst hturn
      have hcoherent := ht.coherent
      have hgrip := ht.started.grip
      rw [hstage] at hcoherent hgrip
      have hborrows : Borrows w.before name source _
          (Parsing.resume (.leasing name source crew lease) (.ok r) w.before).1 m.service :=
        hm ▸ borrows_resume r hcoherent hgrip
      exact of_borrows hborrows ht he hs hs' ho' hd hl hsup hc hj

end Turns

/-- **Every move keeps a parse on its course.** -/
theorem step (h : OnCourse s ms roles c code language) (hs : Served s ms roles)
    (hs' : Served s (ms ++ [mv]) roles') (ho : AtRest (s.moves ms) roles)
    (hst : Step (s.moves ms) roles mv (s.moves (ms ++ [mv])) roles')
    (hd : (s.moves (ms ++ [mv])).workers.dismissed = false) :
    OnCourse s (ms ++ [mv]) roles' c code language := by
  have hd₀ : (s.moves ms).workers.dismissed = false := by
    rw [← Bool.not_eq_true] at hd ⊢
    exact fun hdismissed => hd (hst.dismissed_stays hdismissed)
  cases hplace : (s.moves ms).loop.place? c with
  | none =>
    refine h.stay hs ho hst hd fun _ _ hp => ?_
    cases hplace.symm.trans hp
  | some place =>
    obtain ⟨point, on⟩ := place
    rcases hst.stays_or_turn ho hplace with hp' | ⟨w, m, turn, ht, rfl, rfl, he, rfl⟩
    · refine h.stay hs ho hst hd fun _ _ hp => ?_
      cases hplace.symm.trans hp
      exact hp'
    · have hunfinished := ho.isPending_of_place? hplace
      have hstage : ∀ {point on}, (s.moves ms).loop.place? w.task = some (point, on) →
          w.stage = point := fun hp => (Prod.mk.inj (Option.some.inj (hplace.symm.trans hp))).1
      cases h with
      | early hp hearly hj =>
        cases hplace.symm.trans hp
        exact serve_early ht he hs hs' ho hst hd₀ hearly hj
      | running hp hl hc hown hspared =>
        exact serve_running ht he hs ho hst hd (hstage hp) hp hl hc hown hspared
      | draining hp hl hc hown hx => exact serve_draining ht he hs ho hst hd (hstage hp) hl hc hown hx
      | copying hp hl hc hown hx hcopy =>
        exact serve_copying ht he hs ho hst hd (hstage hp) hp hl hc hown hx hcopy
      | unowned hout hj hv =>
        rw [isPending_of_outcome? hout] at hunfinished
        cases hunfinished
      | ended hout hl hc hown hend =>
        rw [isPending_of_outcome? hout] at hunfinished
        cases hunfinished

end OnCourse

end SourceTrees.Service
