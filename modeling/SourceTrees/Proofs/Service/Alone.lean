import SourceTrees.Proofs.Service.Failing
import SourceTrees.Proofs.Service.Lifespan
import SourceTrees.Proofs.Service.Obliging
import SourceTrees.Proofs.Service.Progress
import SourceTrees.Proofs.Service.Starting

/-!
# A call that is alone

Where no call is in progress and no shared operation in flight, a call for a language is begun, and nothing
else is asked for.  It starts the operations that it needs, one after the other, and nobody else is at work.

## Protocol

* Nobody disturbs the call, and errands are served first come, first served.
* A call is **lucky** if every job that it needs ends well.  It is counted for lucky calls how many turns are
  left until they end.

## Results

* `Service.Steady`, `Service.Peaceful` — services in which everything is in order.
* `Service.Alone` — how far the call has come; `Service.Alone.aside` — between turns it stays where it is.
* `Service.Alone.of_gets` — where it is after a turn in which it has gone on.
-/

set_option autoImplicit false

namespace SourceTrees

open Loop

/-- How many turns a task has at most that rests so, with those that it will come to wait for, if all goes
    well. -/
def Rest.left : Rest → Nat
  | .bootJob | .grammarJob _ | .copyJob => 1
  | .parseJob .. => 2
  | .ticket .. => 3
  | .shield (.grammar _) => 4
  | .shield .boot => 7
  | _ => 0

@[inherit_doc Rest.left]
def Stage.left : Stage → Nat
  | .start _ => 10
  | .boot .start | .boot (.pausing ..) | .fetch (.start _) => 2
  | stage => stage.rest.left

namespace Service

variable {S s s' : Service} {roles roles' : Roles Hook Job} {w : Woken} {m : Midst} {mv : Service.Move}
  {c t op q : PromiseId} {call : Call} {name : String} {hook : Hook} {point : Stage} {on : Option PromiseId}
  {turn : Turn Stage Reply} {came : Prop} {language : Json} {f : Fault}

/-! ## Services in good order -/

/-- Everything is in order in a service whose operations are spared. -/
structure Steady (s : Service) (roles : Roles Hook Job) : Prop where
  loaded : Loaded s roles
  settled : EndsWell s roles
  locates : Answered (fun _ => Job.LocatesWell) s roles
  located : Located s
  named : Named s roles
  waiting : Waiting s roles
  hooks : s.loop.HooksFirst

/-- What has been answered stays so in another world. -/
theorem Answered.withWorld {C : Job → Except Fault Reply → Prop} (h : Answered (fun _ => C) s roles)
    (world : World) : Answered (fun _ => C) { s with world } roles :=
  ⟨⟨h.delivered⟩, h.settled, h.expired, h.unmarked, h.named⟩

namespace Steady

theorem opened {world : World} (hr : world.RaisesWell) (hf : world.FetchesWell) (config : Config)
    (eager : Bool) (stuck : Option Fault) (log : List LogLine) :
    Steady (Service.opened config world eager stuck log) fun _ => .unused where
  loaded := .opened hf config eager stuck log
  settled := .opened hr config eager stuck log
  locates := .opened config world eager stuck log
  located := .opened config world eager stuck log
  named := by
    rw [opened_eq]
    exact ⟨nofun, nofun⟩
  waiting := .opened config world eager stuck log
  hooks := by
    rw [loop_opened]
    exact .init

/-- Every step that spares the operations keeps it. -/
theorem step (h : Steady s roles) (ho : AtRest s roles) (hst : Step s roles mv s' roles')
    (hsp : SparesOperations s mv) : Steady s' roles' where
  loaded := h.loaded.step ho hst hsp
  settled := h.settled.step ho hst hsp
  locates := h.locates.step (sure_locatesWell ⟨_, _, World.FetchesWell.kept⟩) ho hst hsp h.loaded.world
  located := h.located.step h.locates ho hst
  named := h.named.step ho hst
  waiting := h.waiting.step ho hst
  hooks := hst.hooksFirst h.hooks

/-- It goes on in another world of the kind. -/
theorem withWorld (h : Steady s roles) {world : World} (hr : world.RaisesWell) (hf : world.FetchesWell) :
    Steady { s with world } roles where
  loaded :=
    { world := hf
      engined :=
        { world := fun name m hm => ⟨fun _ => (hf name m hm).1 trivial, fun _ _ _ => trivial⟩
          answered := h.loaded.engined.answered.withWorld world
          booting :=
            { holder := h.loaded.engined.booting.holder
              phase := h.loaded.engined.booting.phase
              begun := h.loaded.engined.booting.begun
              counted := h.loaded.engined.booting.counted
              engine := h.loaded.engined.booting.engine
              ended := h.loaded.engined.booting.ended
              ending := h.loaded.engined.booting.ending } }
      answered := h.loaded.answered.withWorld world
      loading :=
        { holder := h.loaded.loading.holder
          vacant := h.loaded.loading.vacant
          begun := h.loaded.loading.begun
          kept := h.loaded.loading.kept
          ended := h.loaded.loading.ended
          ending := h.loaded.loading.ending
          loaded := h.loaded.loading.loaded
          failures := h.loaded.loading.failures } }
  settled := ⟨hr, h.settled.answered.withWorld world, h.settled.settled⟩
  locates := h.locates.withWorld world
  located := ⟨h.located.fetching, h.located.kept⟩
  named := ⟨h.named.engine, h.named.fetch⟩
  waiting :=
    { locked :=
        { fits := h.waiting.locked.fits
          held := h.waiting.locked.held
          single := h.waiting.locked.single
          waiting := h.waiting.locked.waiting
          own := h.waiting.locked.own
          first := h.waiting.locked.first
          entering := h.waiting.locked.entering
          inTurn := h.waiting.locked.inTurn }
      attributed := ⟨h.waiting.attributed.holder, h.waiting.attributed.owner⟩
      hands := ⟨h.waiting.hands.awake⟩
      underway := ⟨h.waiting.underway.job, h.waiting.underway.timer⟩ }
  hooks := h.hooks

end Steady

/-- Everything is in order in a service in which nobody disturbs the call and errands are served first come,
    first served. -/
structure Peaceful (s : Service) (roles : Roles Hook Job) (c : PromiseId) : Prop extends Steady s roles where
  prompt : Prompt s roles
  undisturbed : Undisturbed s roles c

theorem Peaceful.step (h : Peaceful s roles c) (ho : AtRest s roles) (hst : Step s roles mv s' roles')
    (hmv : mv.isCalm = true) : Peaceful s' roles' c where
  toSteady := h.toSteady.step ho hst (Move.spares_of_isCalm hmv)
  prompt := h.prompt.step ho h.hooks hst hmv
  undisturbed := h.undisturbed.step h.settled ho hst (Move.spares_of_isCalm hmv)
    (Move.not_cancels_of_isCalm hmv)

/-- While the boot is at work the engine is not ready. -/
theorem Booting.not_ready (h : Booting s roles s.gripAt) (hr : roles t = .operation .boot)
    (hp : s.loop.isPending t = true) : s.phase ≠ .ready := by
  intro hready
  have hsuits := h.phase hr hp
  rw [hready] at hsuits
  cases hg : s.gripAt t with
  | ended result => exact gripAt_ne_ended s t result hg
  | _ =>
    rw [hg] at hsuits
    cases hsuits

/-- Boots and loads of one language are at work one at a time. -/
theorem Loaded.lone_operation (h : Loaded s roles) (ho : AtRest s roles) {k k' : Hook}
    (hk : k = .boot ∨ k = .grammar name) (hk' : k' = .boot ∨ k' = .grammar name)
    (hr : roles t = .operation k) (hp : s.loop.isPending t = true) (hr' : roles op = .operation k')
    (hp' : s.loop.isPending op = true) : t = op := by
  rcases hk with rfl | rfl <;> rcases hk' with rfl | rfl
  · exact ho.boot_unique hr hp hr' hp'
  · exact absurd (h.loading.begun hr') (h.engined.booting.not_ready hr hp)
  · exact absurd (h.loading.begun hr) (h.engined.booting.not_ready hr' hp')
  · exact Option.some.inj ((ho.load.current hr hp).symm.trans (ho.load.current hr' hp'))

/-- A ready engine has a name. -/
theorem Loaded.engine?_of_ready (h : Loaded s roles) (hready : s.phase = .ready) : ∃ e, s.engine? = .ok e := by
  obtain ⟨e, he⟩ := Option.isSome_iff_exists.1 (h.engined.booting.engine hready)
  exact ⟨e, by simp [Service.engine?, hready, he]⟩

/-- Where a grammar is kept the engine is ready. -/
theorem Loaded.engine?_of_kept (h : Loaded s roles) {g : Grammar} (hk : Grammars.kept? s name = some g) :
    ∃ e, s.engine? = .ok e := by
  obtain ⟨-, t, hr, -⟩ := h.loading.kept (get?_of_kept? hk)
  exact h.engine?_of_ready (h.loading.begun hr)

/-! ## Turns -/

theorem HasTurn.knows_before (ht : HasTurn s roles w m turn) : Knows s w.before ∧
    w.before.pool = s.pool ∧ w.before.world = s.world ∧
    w.before.loop.promises = s.loop.promises ∧ w.before.loop.tasks = s.loop.tasks := by
  obtain ⟨i, hb⟩ := ht.before
  rw [hb]
  exact ⟨⟨rfl, rfl, rfl, rfl, rfl⟩, rfl, rfl, rfl, rfl⟩

theorem HasTurn.task_lt (ht : HasTurn s roles w m turn) : w.task < s.loop.promises.size := by
  have hlt := ht.started.task_lt
  rw [ht.knows_before.2.2.2.1] at hlt
  exact hlt

/-- Nobody comes but in a turn, or by a call from outside. -/
theorem Step.place?_of_aside (hst : Step s roles mv s' roles') (hnone : s.turnOf? mv = none)
    (hmv : ∀ call, mv ≠ .act (.spawn call)) {t : PromiseId} {point : Stage} {on : Option PromiseId}
    (hp : s'.loop.place? t = some (point, on)) : s.loop.place? t = some (point, on) := by
  cases hst with
  | @carried i e hi hw hk =>
    have htasks : (Program.Errand.effect e (s.loop.pick i)).tasks = s.loop.tasks := tasks_effect e
    exact (place?_congr htasks).symm.trans hp
  | forgotten hi =>
    rename_i hook op'
    cases hook <;> exact hp
  | spawned call => exact absurd rfl (hmv call)
  | workedOff hi =>
    rw [Work.workOff_eq hi] at hp
    exact hp
  | cancelled t ha => exact place?_cancelTask.symm.trans hp
  | leaseEnded hg fault => exact (place?_congr tasks_settle).symm.trans hp
  | turn hwakes hsts hres hend => cases hnone.symm.trans (turnOf?_of_wakes hwakes)
  | _ => exact hp

/-- Who is there after a turn that had not been there is about to begin what the turn has started. -/
theorem HasTurn.place_cases (ht : HasTurn s roles w m turn) {X : Stage → Prop}
    (hx : Starts X w.before m.service) (hne : t ≠ w.task)
    (hp : (m.after w.task turn).loop.place? t = some (point, on)) :
    s.loop.place? t = some (point, on) ∨ on = none ∧ X point := by
  replace hp : (Program.conclude w.task turn m.service.loop).place? t = some (point, on) := hp
  rw [place?_conclude, if_neg hne] at hp
  refine (hx t point on hp).imp_left fun hp => ?_
  rw [← place?_congr (t := t) ht.knows_before.2.2.2.2]
  exact hp

/-- What comes to be mapped is at work. -/
theorem Step.maps_placed (ho : AtRest s roles) (hst : Step s roles mv s' roles') {k : Hook}
    (hm : s'.Maps k t) : s.Maps k t ∨ s.loop.promises.size ≤ t ∧
      ∃ point on, s'.loop.place? t = some (point, on) := by
  refine (hst.maps_cases hm).imp_right fun hle => ⟨hle, ?_⟩
  have hunused : roles t = .unused := ho.sound.assigned.unused.2 hle
  exact hst.place?_of_new ho ((ho.step hst).1.maps hm).1 (by simp [hunused])

/-- Who joins an operation joins one that is at work. -/
theorem Strides.joined_pending {start : Midst} (ht : InTurn w start) (hst : Strides w start m) {k : Hook}
    (hop : start.roles op = .operation k) (hq : m.roles q = .shield op) (hnew : start.roles q ≠ .shield op) :
    m.service.loop.isPending op = true := by
  induction hst with
  | refl => exact absurd hq hnew
  | @tail m₁ m₂ hst hstep ih =>
    have ht₁ := ht.strides hst
    have hop₁ : m₁.roles op = .operation k := (Strides.extends ht hst).eq hop (by simp)
    rw [hstep.isPending_operation ht₁ hop₁]
    by_cases hq₁ : m₁.roles q = .shield op
    · exact ih hq₁
    -- The shield has been made by this stride.
    have hmade : ∀ {of : PromiseId}, m₂.roles = Function.update m₁.roles m₁.service.loop.promises.size
        (.shield of) → of = op := by
      intro of hr
      rw [hr, Function.update_apply] at hq
      split at hq
      · exact Role.shield.inj hq
      · exact absurd hq hq₁
    have hlaunched : ∀ {k' : Hook}, m₂.roles = Function.update (Function.update m₁.roles
        m₁.service.loop.promises.size (.operation k')) (m₁.service.loop.promises.size + 1)
        (.shield m₁.service.loop.promises.size) → False := by
      intro k' hr
      rw [hr, Function.update_apply] at hq
      split at hq
      · cases hq
        rw [ht₁.ordered.sound.assigned.unused.2 (Nat.le_refl _)] at hop₁
        cases hop₁
      · rw [Function.update_apply] at hq
        split at hq
        · cases hq
        · exact hq₁ hq
    have hother : ∀ {role : Role Hook Job}, (∀ of, role ≠ .shield of) → m₂.roles =
        Function.update m₁.roles m₁.service.loop.promises.size role → False := by
      intro role hne hr
      rw [hr, Function.update_apply] at hq
      split at hq
      · exact hne _ hq
      · exact hq₁ hq
    cases hstep with
    | bootJoined hp hr =>
      cases hmade rfl
      exact (Flight.running?_eq_some_iff.1 hr).2
    | loadJoined language hp hr =>
      cases hmade rfl
      exact (Flight.running?_eq_some_iff.1 hr).2
    | bootLaunched hp hn => exact (hlaunched rfl).elim
    | loadLaunched language hp hn => exact (hlaunched rfl).elim
    | guarded hg =>
      cases hmade rfl
      have hfits := ht₁.grip
      rw [hg] at hfits
      obtain ⟨⟨parser, source, hj⟩, -⟩ := hfits
      rw [hj] at hop₁
      cases hop₁
    | submitted crew hc hg => exact (hother (by simp) rfl).elim
    | waited hg => exact (hother (by simp) rfl).elim
    | bootTimed seconds hg => exact (hother (by simp) rfl).elim
    | drawn hg hp => exact (hother (by simp) rfl).elim
    | gateMade => exact (hother (by simp) rfl).elim
    | spawned call hc => exact (hother (by simp) rfl).elim
    | grouped hm => exact (hother (by simp) rfl).elim
    | _ => exact absurd hq hq₁

/-! ## How far the call has come -/

/-- What has come of the operation so far that the call waits for. -/
structure Pursues (S s : Service) (lucky : Prop) (name : String) (hook : Hook) (c op : PromiseId) : Prop where
  rests : ∀ {point p}, s.loop.place? op = some (point, some p) → c ≤ p
  pool : s.pool = S.pool
  ready : hook = .boot → s.phase = .ready → ∃ v, s.loop.outcome? op = some (.value v)
  grammars : s.grammars = S.grammars ∨
    hook = .grammar name ∧ ∃ v, s.loop.outcome? op = some (.value v)
  fault : ∀ {f}, s.loop.outcome? op = some (.failed f) → ¬ lucky ∧
    (hook = .grammar name → ∃ locator cause, f = .unloadable name locator cause)

/-- How many turns the task still has at most, if all goes well. -/
def left (s : Service) (t : PromiseId) : Nat := ((s.loop.place? t).map fun p => p.1.left).getD 0

theorem left_of_place? (hp : s.loop.place? t = some (point, on)) : s.left t = point.left := by
  rw [left, hp]
  rfl

theorem left_le (h : ∀ point on, s'.loop.place? t = some (point, on) → s.loop.place? t = some (point, on)) :
    s'.left t ≤ s.left t := by
  cases hp : s'.loop.place? t with
  | none =>
    rw [left, hp]
    exact Nat.zero_le _
  | some p => rw [left_of_place? hp, left_of_place? (h _ _ hp)]

/-- How far the call has come that has been alone since the service was the first one.  If it is lucky, every
    job of its ends well, and it ends after so many turns at most. -/
inductive Alone (S s : Service) (roles : Roles Hook Job) (lucky : Prop) (c : PromiseId) (call : Call)
    (n : Nat) : Prop
  | begun (hp : s.loop.place? c = some (.start call, none)) (hw : s.AtWork (· = c))
      (hm : ∀ k t, ¬ s.Maps k t) (hs : Untouched S s) (hn : lucky → 10 ≤ n)
  | asking {name : String} {hook : Hook} {point : Stage} {q op : PromiseId} (ha : Asks S name call)
      (h : Asking name call hook point) (hp : s.loop.place? c = some (point, some q))
      (hq : roles q = .shield op) (hw : s.AtWork fun t => t = c ∨ t = op) (hm : ∀ k t, s.Maps k t → t = op)
      (hop : Pursues S s lucky name hook c op) (hn : lucky → point.left + s.left op ≤ n)
  | running {name : String} {point : Stage} {on : Option PromiseId} (ha : Asks S name call)
      (h : Running name call point) (hp : s.loop.place? c = some (point, on)) (hw : s.AtWork (· = c))
      (hm : ∀ k t, ¬ s.Maps k t) (hpool : s.pool.contains name = true)
      (hsame : ∀ parser, S.parser? name = some parser → s.parser? name = some parser)
      (hj : ∀ j, point.grip = .job name j → c ≤ j) (hn : lucky → point.left ≤ n)
  | returned {v : Reply} (hout : s.loop.outcome? c = some (.value v))
  | failed {f : Fault} (hout : s.loop.outcome? c = some (.failed f)) (hidle : s.Idle)
      (h : FailsSafely S s call f) (ha : Refuses S call f ∨ ∃ name, Asks S name call)
      (hr : lucky → Refuses S call f)

variable {S : Service} {lucky : Prop} {n : Nat}

theorem Asking.left (h : Asking name call hook point) : point.left = (Rest.shield hook).left := by
  cases h <;> rfl

theorem Running.left_le (h : Running name call point) : point.left ≤ 3 := by
  cases h with
  | queued hc crew k => exact Nat.le_refl 3
  | running hc crew job => exact Nat.le_succ 2
  | copying hc => exact Nat.le_add_left 1 2

/-- What a call waits for that asks for a language. -/
theorem Asking.hook_cases (h : Asking name call hook point) : hook = .boot ∨ hook = .grammar name := by
  cases h with
  | parse hc => exact .inl rfl
  | load point hl | getParser point hl | lease hc crew point hl =>
    cases point with
    | booting l => exact .inl rfl
    | loading l => exact .inr (congrArg Hook.grammar hl)

/-- Who waits for an operation waits for one of the kind. -/
theorem Asking.operation (h : Asking name call hook point) (ho : AtRest s roles)
    (hp : s.loop.place? c = some (point, some q)) (hq : roles q = .shield op) :
    roles op = .operation hook := by
  have hrest := (ho.placed hp).rest
  rw [h.rest] at hrest
  obtain ⟨q', op', he, hshield, hop⟩ := hrest
  cases he
  cases hq.symm.trans hshield
  exact hop

/-- Between turns nothing comes of a call that is alone. -/
theorem Alone.aside (h : Alone S s roles lucky c call n) (ho : AtRest s roles)
    (hst : Step s roles mv s' roles') (hnone : s.turnOf? mv = none) (ha : Aside s roles s' roles')
    (hmv : mv.isCalm = true) : Alone S s' roles' lucky c call n := by
  obtain ⟨ho', hext⟩ := ho.step hst
  have hplace : ∀ {t point on}, s'.loop.place? t = some (point, on) → s.loop.place? t = some (point, on) :=
    hst.place?_of_aside hnone (by rintro call rfl; cases hmv)
  have hwork : ∀ {X}, s.AtWork X → s'.AtWork X := fun hw t point on hp => hw t point on (hplace hp)
  have hmaps : ∀ {k t}, s'.Maps k t → s.Maps k t := fun hm =>
    (hst.maps_placed ho hm).resolve_right fun ⟨hle, _, _, hp⟩ =>
      absurd (isPending_lt (ho.isPending_of_place? (hplace hp))) (Nat.not_lt.2 hle)
  cases h with
  | begun hp hw hm hs hn =>
    exact .begun (ha.stays hp) (hwork hw) (fun k t h => hm k t (hmaps h)) (hs.aside hst hnone hm) hn
  | @asking name hook point q op hasks h hp hq hw hm hop hn =>
    have hrole := (hext.eq (h.operation ho hp hq) (by simp))
    obtain ⟨-, -, hout⟩ := ha.outcome?_operation ho hst hrole
    refine .asking hasks h (ha.stays hp) (hext.eq hq (by simp)) (hwork hw) (fun k t h => hm k t (hmaps h)) ?_
      fun h => Nat.le_trans (Nat.add_le_add_left (left_le fun _ _ => hplace) _) (hn h)
    exact {
      rests := fun hp => hop.rests (hplace hp)
      pool := ha.pool.trans hop.pool
      ready := fun hk hr => hout ▸ hop.ready hk (ha.phase ▸ hr)
      grammars := by
        rw [ha.grammars, hout]
        exact hop.grammars
      fault := fun hf => hop.fault (hout ▸ hf) }
  | running hasks h hp hw hm hpool hsame hj hn =>
    refine .running hasks h (ha.stays hp) (hwork hw) (fun k t h => hm k t (hmaps h)) (ha.pool ▸ hpool) ?_ hj hn
    rw [parser?_congr ha.pool]
    exact hsame
  | returned hout => exact .returned (hst.outcome?_of_some hout)
  | failed hout hidle h hasks hr =>
    exact .failed (hst.outcome?_of_some hout) ⟨hwork hidle.calls, fun k t h => hidle.flights k t (hmaps h)⟩
      (h.aside ha hst hnone hidle.flights) hasks hr

/-! ## The turns of the call -/

section

variable (ho : AtRest s roles) (ht : HasTurn s roles w m turn)
  (hst : Step s roles mv (m.after w.task turn) m.roles)

include ho ht hst

/-- Who comes to wait for an operation that nobody has been at work on has started it. -/
theorem HasTurn.starts_operation {X : Stage → Prop} (hx : Starts X w.before m.service)
    (hidle : ∀ {t point on}, s.loop.place? t = some (point, on) → point.role ≠ .operation hook)
    (hshields : point.rest = .shield hook) {p : PromiseId} (hturn : turn = .rest p point)
    (hcall : point.role = .call) :
    ∃ op point', m.roles p = .shield op ∧ m.roles op = .operation hook ∧
      (m.after w.task turn).loop.place? op = some (point', none) ∧ X point' := by
  subst hturn
  obtain ⟨ho', hext⟩ := ho.step hst
  have hplace : (m.after w.task (.rest p point)).loop.place? w.task = some (point, some p) := by
    rw [place?_conclude, if_pos rfl]
  have hrest := (ho'.placed hplace).rest
  rw [hshields] at hrest
  obtain ⟨p', op, he, hshield, hop⟩ := hrest
  cases he
  obtain ⟨-, hrole, -, -, hle, -⟩ := ht.ends
  rw [ht.knows_before.2.2.2.1] at hle
  have hnew : roles p ≠ .shield op := by
    rw [ho.sound.assigned.unused.2 hle]
    simp
  have hother : op ≠ w.task := by
    rintro rfl
    rw [ht.inTurn.unfinished.1, ← hrole, hcall] at hop
    cases hop
  have hplaced : ∃ point' on, (m.after w.task (.rest p point)).loop.place? op = some (point', on) := by
    by_cases hold : roles op = .operation hook
    · -- It would have been at work before.
      exfalso
      have hopen := Strides.joined_pending ht.started ht.strides hold hshield hnew
      rcases isPending_or_settled (ho.sound.assigned.lt_size (p := op) (by simp [hold])) with hp | ⟨o, hout⟩
      · obtain ⟨point', on, hp⟩ := ho.exists_place? (by rw [hold]; rfl) hp
        exact hidle hp ((ho.placed hp).role.symm.trans hold)
      · have hbefore : w.before.loop.outcome? op = some o := by
          rw [Loop.outcome?, ht.knows_before.2.2.2.1]
          exact hout
        have hout := (Strides.later ht.strides).outcome hbefore
        rw [outcome?_of_isPending hopen] at hout
        cases hout
    · exact hst.place?_of_new ho hop hold
  obtain ⟨point', on, hp⟩ := hplaced
  rcases ht.place_cases hx hother hp with hold | ⟨rfl, hpoint⟩
  · have hsame := hext op (ho.sound.assigned.role_ne_unused (isPending_lt (ho.isPending_of_place? hold)))
    exact absurd ((ho.placed hold).role.symm.trans (hsame.symm.trans hop)) (hidle hold)
  · exact ⟨op, point', hshield, hop, hp, hpoint⟩

variable (hw : s.AtWork (· = w.task)) (hm : ∀ k t, ¬ s.Maps k t)

include hw

/-- An operation that the call comes to wait for has been started by it. -/
theorem HasTurn.starts_awaited {X : Stage → Prop} (hx : Starts X w.before m.service)
    (h : Asking name call hook point) {p : PromiseId} (hturn : turn = .rest p point) :
    ∃ op point', m.roles p = .shield op ∧ m.roles op = .operation hook ∧
      (m.after w.task turn).loop.place? op = some (point', none) ∧ X point' := by
  refine ht.starts_operation ho hst hx (fun {t point' on} hp hop => ?_) h.rest hturn h.role
  obtain rfl := hw _ _ _ hp
  obtain ⟨_, hplace⟩ := ht.place
  cases hplace.symm.trans hp
  have hends := ht.ends
  rw [hturn] at hends
  cases h.role.symm.trans (hends.2.1.trans hop)

include hm

/-- The call waits for an operation that it has started. -/
theorem Alone.of_asking (hl : Loaded (m.after w.task turn) m.roles) (ha : Asks S name call)
    (h : Asking name call hook point) {p : PromiseId} (hturn : turn = .rest p point)
    (hs : Knows w.before m.service) (hpool : m.service.pool = w.before.pool)
    (hready : hook = .boot → w.before.phase ≠ .ready) (hx : Starts (Opens name) w.before m.service)
    (hsp : s.pool = S.pool) (hsg : s.grammars = S.grammars) (hn : lucky → point.left + 2 ≤ n) :
    Alone S (m.after w.task turn) m.roles lucky w.task call n := by
  obtain ⟨ho', hext⟩ := ho.step hst
  obtain ⟨op, point', hshield, hop, hp, hopens⟩ := ht.starts_awaited ho hst hw hx h hturn
  have hleft : (m.after w.task turn).left op = 2 := by
    rw [left_of_place? hp]
    rcases hopens with rfl | rfl <;> rfl
  obtain ⟨hbefore, hpoolBefore, -⟩ := ht.knows_before
  have hopen := ho'.isPending_of_place? hp
  have hplace : (m.after w.task turn).loop.place? w.task = some (point, some p) := by
    rw [hturn, place?_conclude, if_pos rfl]
  have hwork : (m.after w.task turn).AtWork fun t => t = w.task ∨ t = op := by
    intro t point' on hp'
    by_cases he : t = w.task
    · exact .inl he
    · rcases ht.place_cases hx he hp' with hold | ⟨-, hopens⟩
      · exact .inl (hw _ _ _ hold)
      · -- Of all that it could have started only one thing is at work.
        have hrole : ∃ k, m.roles t = .operation k ∧ (k = .boot ∨ k = .grammar name) := by
          have hr := (ho'.placed hp').role
          rcases hopens with rfl | rfl
          · exact ⟨_, hr, .inl rfl⟩
          · exact ⟨_, hr, .inr rfl⟩
        obtain ⟨k, hk, hkind⟩ := hrole
        exact .inr (hl.lone_operation ho' hkind h.hook_cases hk (ho'.isPending_of_place? hp') hop hopen)
  refine .asking ha h hplace hshield hwork (fun k t hm' => ?_) ?_ (hleft ▸ hn)
  · rcases hst.maps_placed ho hm' with hold | ⟨-, point', on, hp'⟩
    · exact absurd hold (hm k t)
    · refine (hwork _ _ _ hp').resolve_left ?_
      rintro rfl
      have hcall := (ho'.placed hplace).role.symm.trans (ho'.maps hm').1
      rw [h.role] at hcall
      cases hcall
  · exact {
      rests := fun hp' => by cases hp.symm.trans hp'
      pool := hpool.trans (hpoolBefore.trans hsp)
      ready := fun hk hr => absurd (hs.phase.symm.trans hr) (hready hk)
      grammars := .inl (hs.grammars.trans (hbefore.grammars.trans hsg))
      fault := fun hf => by
        rw [outcome?_of_isPending hopen] at hf
        cases hf }

/-- The call ends with a fault, and nobody is at work any more. -/
theorem Alone.of_fault {f : Fault} (hturn : turn = .finish (.error f)) (hf : f.kind ≠ .cancelled)
    (hx : Starts (fun _ => False) w.before m.service)
    (hfails : (m.after w.task turn).Idle → FailsSafely S (m.after w.task turn) call f)
    (ha : Refuses S call f ∨ ∃ name, Asks S name call) (hlucky : lucky → Refuses S call f) :
    Alone S (m.after w.task turn) m.roles lucky w.task call n := by
  have hwork : (m.after w.task turn).AtWork fun _ => False := by
    intro t point on hp
    by_cases he : t = w.task
    · rw [he, hturn, place?_conclude, if_pos rfl] at hp
      cases hp
    · rcases ht.place_cases hx he hp with hold | ⟨-, hfalse⟩
      · exact he (hw _ _ _ hold)
      · exact hfalse
  have hout := ht.outcome?_of_finish (congrArg Prod.fst ht.resumed |>.trans hturn)
  rw [Program.ended, if_neg hf] at hout
  have hidle : (m.after w.task turn).Idle := by
    refine ⟨hwork, fun k t hm' => ?_⟩
    rcases hst.maps_placed ho hm' with hold | ⟨-, point, on, hp⟩
    · exact hm k t hold
    · exact hwork _ _ _ hp
  exact .failed hout hidle (hfails hidle) ha hlucky

/-- The call rests with the parser in the pool, and nobody else is at work. -/
theorem Alone.of_runs (ha : Asks S name call) (h : Running name call point) {p : PromiseId}
    (hturn : turn = .rest p point) (hx : Starts (fun _ => False) w.before m.service)
    (hc : m.service.pool.contains name = true)
    (hsame : ∀ parser, S.parser? name = some parser → s.parser? name = some parser)
    (hj : ∀ j, point.grip = .job name j → w.task ≤ j) (hn : lucky → point.left ≤ n) :
    Alone S (m.after w.task turn) m.roles lucky w.task call n := by
  have hplace : (m.after w.task turn).loop.place? w.task = some (point, some p) := by
    rw [hturn, place?_conclude, if_pos rfl]
  have hwork : (m.after w.task turn).AtWork (· = w.task) := by
    intro t point' on hp'
    by_contra he
    rcases ht.place_cases hx he hp' with hold | ⟨-, hfalse⟩
    · exact he (hw _ _ _ hold)
    · exact hfalse
  refine .running ha h hplace hwork (fun k t hm' => ?_) hc
    (fun parser hparser => hst.parser?_of_some ho (hsame parser hparser)) hj hn
  rcases hst.maps_placed ho hm' with hold | ⟨hle, point', on, hp'⟩
  · exact hm k t hold
  · obtain rfl := hwork _ _ _ hp'
    exact absurd ht.task_lt (Nat.not_lt.2 hle)

/-- The call goes on, or ends, as such calls do. -/
theorem Alone.of_gets (hp : Steady s roles) (hp' : Steady (m.after w.task turn) m.roles)
    (ha : Asks S name call) (hcall : call.asked? = some (.str name))
    (hgets : Gets w.before call name came turn m.service)
    (hx : Starts (fun point => ¬ came ∧ Opens name point) w.before m.service)
    (hd : s.workers.dismissed = false) (hpool : s.pool = S.pool) (hgr : ¬ came → s.grammars = S.grammars)
    (hcame : came → ∃ g, Grammars.kept? s name = some g)
    (hlucky : lucky → ∃ P, Obliging S.config name call P ∧ Favoured P S.config name call w.task s roles)
    (hn : lucky → (s.phase ≠ .ready → 9 ≤ n) ∧ (¬ came → 6 ≤ n) ∧ 3 ≤ n) :
    Alone S (m.after w.task turn) m.roles lucky w.task call n := by
  obtain ⟨hbefore, hpoolBefore, hworld, hpromises, htasks⟩ := ht.knows_before
  have hkept : ((∃ g, Grammars.kept? w.before name = some g) ∨ came) → ∃ g, Grammars.kept? s name = some g :=
    fun h => h.elim (fun ⟨g, hg⟩ => ⟨g, hbefore.kept? name ▸ hg⟩) hcame
  obtain ⟨turn', s', hturn, hs', hgets⟩ : ∃ turn' s', turn = turn' ∧ m.service = s' ∧
      Gets w.before call name came turn' s' := ⟨_, _, rfl, rfl, hgets⟩
  cases hgets with
  | boots h hready hs hpool' =>
    subst hs'
    obtain ⟨op, point', -, -, -, hcame, -⟩ := ht.starts_awaited ho hst hw hx h hturn
    exact .of_asking ho ht hst hw hm hp'.loaded ha h hturn hs hpool' (fun _ => hready)
      (fun t point on hp => (hx t point on hp).imp_right fun hx => ⟨hx.1, hx.2.2⟩) hpool (hgr hcame)
      fun hl => h.left ▸ (hn hl).1 (hbefore.phase ▸ hready)
  | loads h hs hpool' =>
    subst hs'
    obtain ⟨op, point', -, -, -, hcame, -⟩ := ht.starts_awaited ho hst hw hx h hturn
    exact .of_asking ho ht hst hw hm hp'.loaded ha h hturn hs hpool' (fun hk => by cases hk)
      (fun t point on hp => (hx t point on hp).imp_right fun hx => ⟨hx.1, hx.2.2⟩) hpool (hgr hcame)
      fun hl => h.left ▸ (hn hl).2.1 hcame
  | engineless he hs hpool' hg =>
    obtain ⟨e, hengine⟩ := hp.loaded.engine?_of_kept (hkept hg).choose_spec
    rw [hbefore.engine?, hengine] at he
    cases he
  | @unbound engine g f _ he hn hg hb hs hpool' hl =>
    subst hs'
    have hwell := World.RaisesWell.bindParser engine g w.before.world (by rw [hworld]; exact hp.settled.world)
    unfold Attempt.Ended at hwell
    rw [hb] at hwell
    have hordinary : f.kind.isOrdinary = true := hwell.1
    rw [Pool.raised, if_pos hordinary] at hturn
    refine .of_fault ho ht hst hw hm hturn (by simp [Fault.unbindable]) (.of_tasks (congrArg _ hl))
      (fun _ => .unbound hcall ?_ (hpool'.trans (hpoolBefore.trans hpool))) (.inr ⟨name, ha⟩) fun h => ?_
    · show ∃ g, Grammars.kept? m.service name = some g
      rw [hs.kept?, hbefore.kept?]
      exact hkept (hg.imp_left fun hg => ⟨g, hg⟩)
    · -- In a world that obliges the call a parser can be made.
      obtain ⟨P, hP, hfav⟩ := hlucky h
      rw [hbefore.engine?] at he
      obtain rfl : engine = S.config.engineModule := hfav.config ▸ hfav.named.of_engine? he
      obtain ⟨parser, hparser⟩ := hP.bind hfav.world g
      rw [← hworld, hb] at hparser
      cases hparser
  | runs h htasks' hc hj =>
    subst hs'
    refine .of_runs ho ht hst hw hm ha h hturn (.of_tasks htasks') hc (fun parser hparser => ?_)
      (fun j hg => ?_) fun hl => Nat.le_trans h.left_le (hn hl).2.2
    · rw [parser?_congr hpool]
      exact hparser
    · have hle := hj j hg
      rw [hpromises] at hle
      exact Nat.le_trans (Nat.le_of_lt ht.task_lt) hle
  | unmanned hdismissed =>
    rw [hbefore.workers, hd] at hdismissed
    cases hdismissed
  | done =>
    have hout := ht.outcome?_of_finish (congrArg Prod.fst ht.resumed |>.trans hturn)
    exact .returned hout

end

end Service

end SourceTrees
