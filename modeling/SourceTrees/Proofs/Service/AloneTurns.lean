import SourceTrees.Proofs.Service.Alone

/-!
# The turns of a call that is alone

A call that is alone, and the operation that it waits for, have their turns one after the other.  Each turn
brings the call one nearer to its end, or the call fails as such calls do.

## Protocol

* Every case is one of how far the call has come: it begins, it has waited for an operation, it has the
  parser, or its operation has its turn.

## Results

* `Service.Alone.of_begun`, `Service.Alone.of_waited`, `Service.Alone.of_ran`, `Service.Alone.of_operation` —
  the four turns.
* `Service.left_boot`, `Service.left_fetch` — every turn of an operation leaves fewer, if all goes well.
* **`Service.Alone.step_turn`** — a turn brings a call that is alone one turn nearer to its end.
-/

set_option autoImplicit false

namespace SourceTrees

open Loop

variable {name : String} {call : Call} {f : Fault}

/-- How many turns are left after the turn, if all goes well. -/
def Turn.left : Turn Stage Reply → Nat
  | .rest _ point | .giveWay point => point.left
  | .finish _ => 0

namespace Service

variable {S s s' : Service} {roles roles' : Roles Hook Job} {w : Woken} {m : Midst} {mv : Service.Move}
  {c t op q : PromiseId} {hook : Hook} {point : Stage} {on : Option PromiseId}
  {turn : Turn Stage Reply} {language : Json} {lucky : Prop} {n : Nat}

theorem Asks.asked? (h : Asks s name call) : call.asked? = some (.str name) := by cases h <;> rfl

/-- A refusal is no cancellation. -/
theorem Refuses.kind_ne_cancelled (h : Refuses s call f) : f.kind ≠ .cancelled := by
  cases h with
  | language hcall hv => simp [validate_eq_error hv]
  | code hv => exact nofun

/-- The jobs of the call end well from the time on at which it has begun. -/
def Favours (S s : Service) (roles : Roles Hook Job) (c : PromiseId) (call : Call) : Prop :=
  ∀ {name}, Asks S name call →
    ∃ P, Obliging S.config name call P ∧ Favoured P S.config name call c s roles

section

variable (ho : AtRest s roles) (ht : HasTurn s roles w m turn)
  (hst : Step s roles mv (m.after w.task turn) m.roles)

include ho ht hst

/-- The parse fails with the fault that it is told of the parser. -/
theorem Alone.of_unparsed (ha : Asks S name call) (h : Running name call w.stage)
    (hp' : Steady (m.after w.task turn) m.roles) (hw : s.AtWork (· = w.task)) (hm : ∀ k t, ¬ s.Maps k t)
    (hpool : s.pool.contains name = true)
    (hsame : ∀ parser, S.parser? name = some parser → s.parser? name = some parser)
    (hturn : turn = .finish (.error f)) (hf : f.kind = .parse) (hunlucky : ¬ lucky) :
    Alone S (m.after w.task turn) m.roles lucky w.task call n := by
  have hx : Starts (fun _ => False) w.before m.service := by
    have hx := Calls.starts_runs (X := fun _ => False) h w.given w.before
    rwa [ht.resumed] at hx
  refine .of_fault ho ht hst hw hm hturn (by simp [hf]) hx (fun hidle => ?_) (.inr ⟨name, ha⟩) fun h =>
    absurd h hunlucky
  obtain ⟨pooled, hpooled⟩ :=
    exists_pooled (contains_of_parser? (hst.parser?_of_some ho (parser?_of_contains hpool)))
  refine .unparsed hf ha.asked? hpooled ?_ fun parser hparser => ?_
  · -- A lock that is held is held by a task.
    by_contra hheld
    obtain ⟨t, ht⟩ := hp'.waiting.attributed.holder hpooled (by simpa using hheld)
    obtain ⟨point, on, hplace, -⟩ := exists_place?_of_gripAt (t := t) fun hfree => by
      rw [hfree] at ht
      exact ht
    exact hidle.calls _ _ _ hplace
  · have hparser := hst.parser?_of_some ho (hsame parser hparser)
    rw [parser?, hpooled] at hparser
    exact Option.some.inj hparser

variable (hp : Peaceful s roles w.task) (hp' : Steady (m.after w.task turn) m.roles)
  (hd : s.workers.dismissed = false) (hl : lucky → Favours S s roles w.task call)

include hp hp' hd hl

/-- The call begins. -/
theorem Alone.of_begun (hcall : call.asked? = some language) (hs : w.stage = .start call)
    (hw : s.AtWork (· = w.task)) (hm : ∀ k t, ¬ s.Maps k t) (hS : Untouched S s) (hn : lucky → 10 ≤ n + 1) :
    Alone S (m.after w.task turn) m.roles lucky w.task call n := by
  have hgiven : w.given = .ok default := ht.given_start hp.undisturbed (by rw [hs]; rfl)
  have hres := ht.resumed
  rw [hs, hgiven] at hres
  obtain ⟨hbefore, -⟩ := ht.knows_before
  have hconfig : S.config = s.config := by rw [hS.same]
  rcases asks_or_refused hcall w.before with ⟨name, ha⟩ | ⟨f, hr, hresume⟩
  · have hgets : Gets w.before call name False _ _ := gets_start ha default
    have hx : Starts (Opens name) w.before (Calls.resume (.start call) (.ok default) w.before).2 :=
      Calls.starts_start ha w.before
    rw [hres] at hgets hx
    have ha : Asks S name call := ha.congr (hconfig.trans hbefore.config.symm)
    exact .of_gets ho ht hst hw hm hp.toSteady hp' ha ha.asked? hgets
      (fun t point on hplace => (hx t point on hplace).imp_right fun h => ⟨h.1, not_false, h.2⟩) hd
      (by rw [hS.same]) (fun _ => by rw [hS.same]) nofun (fun h => hl h ha) fun h => by
        have := hn h
        omega
  · rw [hresume] at hres
    obtain ⟨rfl, hservice⟩ := Prod.mk.inj hres
    have hr : Refuses S call f := hr.congr (hconfig.trans hbefore.config.symm)
    refine .of_fault ho ht hst hw hm rfl hr.kind_ne_cancelled (.of_tasks (by rw [hservice]))
      (fun _ => .refused hr ?_) (.inl hr) fun _ => hr
    obtain ⟨i, hb⟩ := ht.before
    rw [Midst.after, ← hservice, hb]
    exact hS.withLoop _

/-- The operation has ended for which the call has waited. -/
theorem Alone.of_waited (hq : roles q = .shield op) (hplace : s.loop.place? w.task = some (w.stage, some q))
    (ha : Asks S name call) (hc : s.config = S.config) (h : Asking name call hook w.stage)
    (hw : s.AtWork fun t => t = w.task ∨ t = op) (hm : ∀ k t, s.Maps k t → t = op)
    (hop : Pursues S s lucky name hook w.task op) (hn : lucky → w.stage.left + s.left op ≤ n + 1) :
    Alone S (m.after w.task turn) m.roles lucky w.task call n := by
  obtain ⟨o, hout, hne, hgiven⟩ := ht.given_undisturbed hp.undisturbed hplace
  have hended := (ho.sound.assigned.taken hq hout).resolve_left hne
  have hrole := h.operation ho hplace hq
  have hdone : s.loop.isPending op = false := isPending_of_outcome? hended
  obtain ⟨hbefore, hpoolBefore, -⟩ := ht.knows_before
  -- Nobody is at work but the call, and the operation has been forgotten.
  have hw' : s.AtWork (· = w.task) := by
    intro t point on hp
    refine (hw t point on hp).resolve_right ?_
    rintro rfl
    rw [ho.isPending_of_place? hp] at hdone
    cases hdone
  have hm' : ∀ k t, ¬ s.Maps k t := by
    intro k t hmaps
    obtain rfl := hm k t hmaps
    exact hp.prompt q t k o hq (ho.maps hmaps).1 hout hne hmaps
  have hres := ht.resumed
  cases o with
  | cancelled => exact absurd rfl hne
  | value v =>
    have hgiven : w.given = .ok v := hgiven
    rw [hgiven] at hres
    have hv : w.before.validate (.str name) = .ok name := by
      cases ha.congr (hbefore.config.trans hc) with
      | load hv => exact hv
      | getParser hv => exact hv
      | parse hv hcode => exact hv
    have hgrip : w.stage.grip.Fits roles w.before.pool := hpoolBefore ▸ (ho.placed hplace).grip
    have hgets := gets_resume h hv v id hgrip
    rw [hres] at hgets
    have hx : Starts (fun point => ¬ hook = .grammar name ∧ Opens name point) w.before m.service := by
      by_cases hhook : hook = .grammar name
      · subst hhook
        have hx := Calls.starts_loaded
          (X := fun point => ¬ Hook.grammar name = .grammar name ∧ Opens name point) h (.ok v) w.before
        rwa [hres] at hx
      · have hx := Calls.starts_asking h (.ok v) w.before
        rw [hres] at hx
        exact fun t point on hplace => (hx t point on hplace).imp_right fun h => ⟨h.1, hhook, h.2⟩
    refine .of_gets ho ht hst hw' hm' hp.toSteady hp' ha ha.asked? hgets hx hd hop.pool
      (fun hhook => hop.grammars.resolve_right fun h => hhook h.1) ?_ (fun h => hl h ha) fun hlucky => ?_
    rotate_left
    · have hleft := hn hlucky
      rw [h.left] at hleft
      rcases h.hook_cases with rfl | rfl
      · have hready := ((hp.loaded.engined.booting.ended hrole hended).resolve_right
          fun ⟨_, hf, _⟩ => by cases hf).2
        simp only [Rest.left] at hleft
        exact ⟨fun h => absurd hready h, fun _ => by omega, by omega⟩
      · have hready := hp.loaded.loading.begun hrole
        simp only [Rest.left] at hleft
        exact ⟨fun h => absurd hready h, fun h => absurd rfl h, by omega⟩
    rintro rfl
    obtain ⟨x, -, hx⟩ := (hp.loaded.loading.ended hrole hended).resolve_right fun ⟨_, hf, _⟩ => by cases hf
    obtain ⟨hsome, -⟩ := hp.loaded.loading.kept hx
    exact ⟨x, Option.filter_eq_some_iff.2 ⟨hx, hsome⟩⟩
  | failed f =>
    have hgiven : w.given = .error f := hgiven
    rw [hgiven, resume_asking_error h f] at hres
    obtain ⟨rfl, hservice⟩ := Prod.mk.inj hres
    have hgr : s.grammars = S.grammars := hop.grammars.resolve_right fun ⟨_, v, hv⟩ => by
      cases hended.symm.trans hv
    obtain ⟨hunlucky, hgrammar⟩ := hop.fault hended
    have hafter : (m.after w.task (.finish (.error f))).phase = s.phase ∧
        (m.after w.task (.finish (.error f))).grammars = S.grammars ∧
        (m.after w.task (.finish (.error f))).pool = S.pool := by
      rw [Midst.after, ← hservice]
      exact ⟨hbefore.phase, hbefore.grammars.trans hgr, hpoolBefore.trans hop.pool⟩
    obtain ⟨hphase, hgrammars, hpool⟩ := hafter
    have hk : f.kind ≠ .cancelled := by
      have hwell := hp.settled.settled hended
      rw [hrole] at hwell
      rcases hwell with ⟨v, hv⟩ | ⟨_, he, hdeclared⟩
      · cases hv
      · cases he
        intro hk
        have := Hook.isDeclared_of_declares hdeclared
        rw [hk] at this
        cases this
    refine .of_fault ho ht hst hw' hm' rfl hk (.of_tasks (by rw [hservice])) (fun _ => ?_) (.inr ⟨name, ha⟩)
      fun h => absurd h hunlucky
    rcases h.hook_cases with rfl | rfl
    · obtain ⟨_, he, hkind⟩ := (hp.loaded.engined.booting.ended hrole hended).resolve_left
        fun ⟨⟨_, hv⟩, _⟩ => by cases hv
      cases he
      refine .unbooted hkind (hphase.trans ?_) hgrammars hpool
      cases hs : s.phase with
      | uninitialized => rfl
      | ready =>
        obtain ⟨v, hv⟩ := hop.ready rfl hs
        cases hended.symm.trans hv
      | initializing =>
        obtain ⟨t, hg⟩ := hp.loaded.engined.booting.begun hs
        obtain ⟨point, on, hplace', -⟩ := exists_place?_of_gripAt (t := t) (by rw [hg]; simp)
        obtain ⟨hboot, -⟩ := hp.loaded.engined.booting.holder hg
        obtain rfl := hw' _ _ _ hplace'
        rw [(ho.placed hplace).role, h.role] at hboot
        cases hboot
    · obtain ⟨locator, cause, rfl⟩ := hgrammar rfl
      exact .unloaded ha.asked? (hphase.trans (hp.loaded.loading.begun hrole)) hgrammars hpool

/-- The parse goes on, or ends. -/
theorem Alone.of_ran (hplace : s.loop.place? w.task = some (w.stage, on)) (ha : Asks S name call)
    (h : Running name call w.stage) (hw : s.AtWork (· = w.task)) (hm : ∀ k t, ¬ s.Maps k t)
    (hpool : s.pool.contains name = true)
    (hsame : ∀ parser, S.parser? name = some parser → s.parser? name = some parser)
    (hj : ∀ j, w.stage.grip = .job name j → w.task ≤ j) (hn : lucky → w.stage.left ≤ n + 1) :
    Alone S (m.after w.task turn) m.roles lucky w.task call n := by
  obtain ⟨hbefore, hpoolBefore, -, hpromises, -⟩ := ht.knows_before
  have hd' : w.before.workers.dismissed = false := hbefore.workers ▸ hd
  have hx : Starts (fun _ => False) w.before m.service := by
    have hx := Calls.starts_runs (X := fun _ => False) h w.given w.before
    rwa [ht.resumed] at hx
  have hpool' : m.service.pool.contains name = true :=
    contains_of_parser? (hst.parser?_of_some ho (parser?_of_contains hpool))
  have hunparsed : ∀ {f}, turn = .finish (.error f) → f.kind = .parse → ¬ lucky →
      Alone S (m.after w.task turn) m.roles lucky w.task call n :=
    .of_unparsed ho ht hst ha h hp' hw hm hpool hsame
  have hruns : ∀ {point p}, Running name call point → turn = .rest p point →
      (∀ j, point.grip = .job name j → w.task ≤ j) → (lucky → point.left ≤ n) →
      Alone S (m.after w.task turn) m.roles lucky w.task call n := fun h hturn hj hn =>
    .of_runs ho ht hst hw hm ha h hturn hx hpool' hsame hj hn
  have hrest := (ho.placed hplace).rest
  have hgiven : ∀ {q}, on = some q → ∃ o, s.loop.outcome? q = some o ∧ o ≠ .cancelled ∧ w.given = o.result :=
    fun hq => ht.given_undisturbed hp.undisturbed (hq ▸ hplace)
  generalize hs : w.stage = point at h hplace hj hrest hn
  cases h with
  | queued hc crew k =>
    obtain ⟨hk, hrole⟩ := hrest
    obtain ⟨o, hout, hne, hgiven⟩ := hgiven hk
    have hwell := hp.settled.settled hout
    rw [hrole] at hwell
    obtain rfl : o = .value .nothing := hwell.resolve_left hne
    have hgiven : w.given = .ok .nothing := hgiven
    obtain ⟨hturn, -⟩ := OnCourse.resumed_parse ht hs
    rw [hgiven] at hturn
    obtain ⟨p, hresume⟩ := resume_queued .nothing (hpoolBefore ▸ hpool) hd'
    rw [hresume] at hturn
    refine hruns (.running hc crew _) hturn ?_ fun h => Nat.le_of_succ_le_succ (hn h)
    rintro j ⟨⟩
    rw [hpromises]
    exact Nat.le_of_lt ht.task_lt
  | @running code source hc crew job =>
    obtain ⟨q, parser, hq, hshield, hjob⟩ := hrest
    obtain ⟨o, hout, hne, hgiven⟩ := hgiven hq
    have hdone := (ho.sound.assigned.taken hshield hout).resolve_left hne
    -- If the call is lucky the parser has given a tree.
    have hlucky : lucky → ∃ root, o = .value (.engineTree (some root)) := by
      intro h
      obtain ⟨P, hP, hfav⟩ := hl h ha
      obtain ⟨x, hgoes, rfl⟩ := hfav.settled (hj job rfl) hjob hdone
      obtain ⟨root, rfl⟩ := hgoes ⟨code, rfl, hc⟩
      exact ⟨root, rfl⟩
    obtain ⟨hturn, -⟩ := OnCourse.resumed_parse ht hs
    rw [hgiven] at hturn
    cases o with
    | cancelled => exact absurd rfl hne
    | value v =>
      cases hroot : v.toEngineTree with
      | none =>
        rw [Settled.result, resume_none hroot] at hturn
        refine hunparsed hturn rfl fun h => ?_
        obtain ⟨root, he⟩ := hlucky h
        cases he
        cases hroot
      | some root =>
        rw [Settled.result, resume_some hroot, if_neg (by simp [hd'])] at hturn
        exact hruns (.copying hc) hturn (by rintro _ ⟨⟩) fun h => Nat.le_of_succ_le_succ (hn h)
    | failed f =>
      have hwell := hp.settled.settled hdone
      rw [hjob] at hwell
      obtain ⟨_, he, hf⟩ := hwell.resolve_left (by rintro ⟨_, ⟨⟩⟩)
      cases he
      rw [Settled.result, resume_raised hf] at hturn
      refine hunparsed hturn rfl fun h => ?_
      obtain ⟨root, he⟩ := hlucky h
      cases he
  | copying hc =>
    obtain ⟨q, language, source, root, hq, hrole⟩ := hrest
    obtain ⟨o, hout, hne, hgiven⟩ := hgiven hq
    have hwell := hp.settled.settled hout
    rw [hrole] at hwell
    obtain ⟨tree, rfl⟩ := hwell.resolve_left hne
    obtain ⟨hturn, -⟩ := OnCourse.resumed_parse ht hs
    rw [hgiven] at hturn
    have hout := ht.outcome?_of_finish (congrArg Prod.fst ht.resumed |>.trans hturn)
    exact .returned hout

end

/-! ## The turns of the operations -/

/-- In a turn the kept grammars change only by what has been fetched. -/
theorem Strides.grammars_cases {start : Midst} (hst : Strides w start m) :
    m.service.grammars = start.service.grammars ∨
      ∃ language locator r, w.stage = .fetch (.fetching language locator) ∧ w.given = .ok r := by
  induction hst with
  | refl => exact .inl rfl
  | tail _ hstep ih =>
    rcases hstep.grammars_cases with he | ⟨language, locator, r, hs, hr, -⟩
    · exact ih.imp_left he.trans
    · exact .inr ⟨language, locator, r, hs, hr⟩

/-- What a task has left after its turn. -/
theorem left_after : (m.after t turn).left t = turn.left := by
  show ((Program.conclude t turn m.service.loop).place? t |>.map fun p => p.1.left).getD 0 = turn.left
  rw [place?_conclude, if_pos rfl]
  cases turn <;> rfl

/-- Every turn of a boot leaves fewer, unless an import fails. -/
theorem left_boot (hd : s.workers.dismissed = false) (point : BootStage) (given : Except Fault Reply)
    (h : ∀ attempt, point = .importing attempt → ∃ r, given = .ok r) :
    (Calls.resume (.boot point) given s).1.left < (Stage.boot point).left := by
  have hbegun : ∀ {s' : Service} (attempt : Nat), s'.workers.dismissed = false →
      (Calls.replying (Boot.beginAttempt attempt s').1 Stage.boot (fun _ => .nothing)
        (Boot.beginAttempt attempt s').2).1.left < 2 := by
    intro s' attempt hd
    rw [beginAttempt_of_open hd]
    exact Nat.lt_succ_self 1
  have hended : ∀ {f : Fault} {s' : Service},
      (Calls.replying (Boot.failed f s').1 Stage.boot (fun _ => .nothing) (Boot.failed f s').2).1.left < 2 := by
    intro f s'
    rw [failed_eq]
    exact Nat.zero_lt_two
  cases point with
  | start =>
    cases given with
    | ok r => exact hbegun 1 hd
    | error f => exact Nat.zero_lt_two
  | importing attempt =>
    obtain ⟨r, rfl⟩ := h attempt rfl
    exact Nat.zero_lt_one
  | pausing attempt timer =>
    cases given with
    | ok r => exact hbegun (attempt + 1) hd
    | error f => cases timer <;> exact hended

/-- Every turn of a load leaves fewer. -/
theorem left_fetch (point : FetchStage) (given : Except Fault Reply) :
    (Calls.resume (.fetch point) given s).1.left < (Stage.fetch point).left := by
  have hended : ∀ {language locator : String} {f : Fault} {s' : Service},
      (Calls.replying (Grammars.fetchFailed language locator f s').1 Stage.fetch Reply.grammar
        (Grammars.fetchFailed language locator f s').2).1.left = 0 := by
    intro language locator f s'
    unfold Grammars.fetchFailed
    split <;> rfl
  cases point with
  | fetching language locator =>
    cases given with
    | ok r => exact Nat.zero_lt_one
    | error f => exact hended.trans_lt Nat.zero_lt_one
  | start language =>
    cases given with
    | error f => exact Nat.zero_lt_two
    | ok r =>
      show (Calls.replying (Grammars.startFetch language s).1 Stage.fetch Reply.grammar
        (Grammars.startFetch language s).2).1.left < 2
      unfold Grammars.startFetch
      simp only [Work.run_bind, Work.run_get]
      cases hk : Grammars.kept? s language with
      | some x => exact Nat.zero_lt_two
      | none =>
        cases he : s.engine? with
        | error f => exact Nat.zero_lt_two
        | ok engine =>
          dsimp only
          rw [Work.run_bind, Work.submit_eq]
          split
          · exact hended.trans_lt Nat.zero_lt_two
          · exact Nat.lt_succ_self 1

section

variable (ho : AtRest s roles) (ht : HasTurn s roles w m turn) (hp : Steady s roles)
  (hd : s.workers.dismissed = false)
  (hrests : ∀ {point p}, s.loop.place? w.task = some (point, some p) → c ≤ p)

include ho ht hp hrests

/-- A job that an operation of a lucky call has waited for goes well. -/
theorem HasTurn.goesWell {P : World → Prop} {c₀ : Config} (hfav : Favoured P c₀ name call c s roles)
    {k : Hook} (hk : w.stage.role = .operation k) {p : PromiseId}
    (hplace : s.loop.place? w.task = some (w.stage, some p)) {job : Job} (hjob : roles p = .job job) :
    ∃ o x, job.GoesWell c₀ name call x ∧ o = Settled.ofResult x ∧ w.given = o.result := by
  have hunmarked : ∀ {task}, s.loop.tasks.get? w.task = some task → task.marked = false := fun hget =>
    hp.loaded.answered.unmarked hget (by rw [(ho.placed hplace).role, hk]; simp)
  obtain ⟨o, hout, hgiven⟩ := ht.given_unmarked hunmarked hplace
  obtain ⟨x, hgoes, rfl⟩ := hfav.settled (hrests hplace) hjob hout
  exact ⟨_, x, hgoes, rfl, hgiven⟩

include hd

/-- A boot that fails has met a fault of its import, and had no luck. -/
theorem HasTurn.boot_unlucky {P : World → Prop} {stage : BootStage} (hs : w.stage = .boot stage)
    (hturn : turn = .finish (.error f)) (hfav : Favoured P s.config name call c s roles) : False := by
  obtain ⟨hbefore, -⟩ := ht.knows_before
  obtain ⟨g, hgiven, -⟩ := resumeBoot_error (ht.failed_boot hs hturn) (hbefore.workers ▸ hd)
  obtain ⟨⟨attempt, rfl⟩, -⟩ := hp.loaded.engined.bootsWell ht stage g hs hgiven
  obtain ⟨on, hplace⟩ := ht.place
  have hrest := (ho.placed hplace).rest
  rw [hs] at hrest
  obtain ⟨p, engine, rfl, hjob⟩ := hrest
  obtain ⟨o, x, hgoes, rfl, hgiven'⟩ := ht.goesWell ho hp hrests hfav (by rw [hs]; rfl) hplace hjob
  obtain ⟨r, rfl⟩ := hgoes (hp.loaded.engined.answered.named hjob)
  cases hgiven.symm.trans hgiven'

/-- The turn of an operation of a lucky call leaves fewer. -/
theorem HasTurn.operation_left {P : World → Prop} (hk : w.stage.role = .operation hook)
    (hfav : Favoured P s.config name call c s roles) : turn.left < w.stage.left := by
  obtain ⟨hbefore, -⟩ := ht.knows_before
  have hres := congrArg Prod.fst ht.resumed
  cases hs : w.stage with
  | boot point =>
    have hleft := left_boot (hbefore.workers ▸ hd) point w.given
    rw [← hs, hres, hs] at hleft
    refine hleft fun attempt hpoint => ?_
    subst hpoint
    obtain ⟨on, hplace⟩ := ht.place
    have hrest := (ho.placed hplace).rest
    rw [hs] at hrest
    obtain ⟨p, engine, rfl, hjob⟩ := hrest
    obtain ⟨o, x, hgoes, rfl, hgiven⟩ := ht.goesWell ho hp hrests hfav hk hplace hjob
    obtain ⟨r, rfl⟩ := hgoes (hp.loaded.engined.answered.named hjob)
    exact ⟨r, hgiven⟩
  | fetch point =>
    have hleft := left_fetch (s := w.before) point w.given
    rwa [← hs, hres, hs] at hleft
  | _ =>
    rw [hs] at hk
    cases hk

/-- A load that fails has met a fault of its fetch, and had no luck. -/
theorem HasTurn.load_fails (hrole : w.stage.role = .operation (.grammar name))
    (hturn : turn = .finish (.error f)) : (∃ locator cause, f = .unloadable name locator cause) ∧
      ∀ {call : Call} {P : World → Prop}, ¬ Favoured P s.config name call c s roles := by
  obtain ⟨hbefore, -⟩ := ht.knows_before
  obtain ⟨on, hplace⟩ := ht.place
  have hrole' := (ho.placed hplace).role
  obtain ⟨point, hs⟩ := Stage.exists_of_role_grammar hrole
  obtain ⟨e, hengine⟩ := hp.loaded.engine?_of_ready (hp.loaded.loading.begun (hrole'.trans hrole))
  obtain ⟨l, locator, g, rfl, hgiven, rfl⟩ := resumeFetch_error (ht.failed_fetch hs hturn)
    (fun g he => by cases (hbefore.engine? ▸ hengine).symm.trans he) (hbefore.workers ▸ hd) fun l he => by
      have hgiven := hp.loaded.answered.given ht (by rw [hrole]; simp)
      rw [hs, he] at hgiven
      exact ⟨_, hgiven⟩
  obtain rfl : l = name := by
    rw [hs] at hrole
    cases hrole
    rfl
  have hordinary := ((hp.loaded.answered.loadsWell ht).fault hs hgiven).2
  refine ⟨⟨locator, g, ?_⟩, fun {call P} hfav => ?_⟩
  · rw [Grammars.raised, if_pos hordinary]
  · rw [hs] at hplace
    have hlocator := hp.located.fetching hplace
    have hrest := (ho.placed hplace).rest
    obtain ⟨p, engine, rfl, hjob⟩ := hrest
    obtain ⟨o, x, hgoes, rfl, hgiven'⟩ := ht.goesWell ho hp hrests hfav hrole (by rw [hs]; exact hplace) hjob
    obtain ⟨r, rfl⟩ := hgoes (hp.named.fetch hjob) hlocator
    cases hgiven.symm.trans hgiven'

end

/-- The operation has its turn for which the call waits. -/
theorem Alone.of_operation (ho : AtRest s roles) (ht : HasTurn s roles w m turn)
    (hst : Step s roles mv (m.after w.task turn) m.roles) (hp : Steady s roles)
    (hp' : Steady (m.after w.task turn) m.roles) (hd : s.workers.dismissed = false)
    (hl : lucky → Favours S s roles c call) (hplace : s.loop.place? c = some (point, some q))
    (hq : roles q = .shield w.task) (ha : Asks S name call) (hc : s.config = S.config)
    (h : Asking name call hook point) (hw : s.AtWork fun t => t = c ∨ t = w.task)
    (hm : ∀ k t, s.Maps k t → t = w.task) (hop : Pursues S s lucky name hook c w.task)
    (hn : lucky → point.left + w.stage.left ≤ n + 1) :
    Alone S (m.after w.task turn) m.roles lucky c call n := by
  obtain ⟨ho', hext⟩ := ho.step hst
  obtain ⟨hbefore, hpoolBefore, -, hpromises, -⟩ := ht.knows_before
  have hrole := h.operation ho hplace hq
  obtain ⟨on, hown⟩ := ht.place
  have hopen := ho.isPending_of_place? hown
  have hstage : w.stage.role = .operation hook := (ho.placed hown).role.symm.trans hrole
  have hne : c ≠ w.task := by
    rintro rfl
    rw [(ho.placed hplace).role, h.role] at hrole
    cases hrole
  have hclt : c < s.loop.promises.size := isPending_lt (ho.isPending_of_place? hplace)
  have hgr : s.grammars = S.grammars := hop.grammars.resolve_right <| by
    rintro ⟨-, v, hv⟩
    rw [outcome?_of_isPending hopen] at hv
    cases hv
  have hx : Starts (fun _ => False) w.before m.service := by
    have hx := Calls.starts_operation (X := fun _ => False) hstage w.given w.before
    rwa [ht.resumed] at hx
  have hremote : Remote w.before m.service := by
    have hparser : w.stage.asksParser = false := by
      cases hs : w.stage <;> rw [hs] at hstage <;> first | rfl | cases hstage
    have hcloses : w.stage.closes = false := by
      cases hs : w.stage <;> rw [hs] at hstage <;> first | rfl | cases hstage
    have hr := Calls.remote_resume hparser hcloses w.given w.before
    rwa [ht.resumed] at hr
  have hwork : (m.after w.task turn).AtWork fun t => t = c ∨ t = w.task := by
    intro t point on hp
    by_cases he : t = w.task
    · exact .inr he
    · exact hw _ _ _ ((ht.place_cases hx he hp).resolve_right And.right)
  have hleft : lucky → point.left + (m.after w.task turn).left w.task ≤ n := by
    intro hlucky
    obtain ⟨P, -, hfav⟩ := hl hlucky ha
    have hlt := ht.operation_left ho hp hd hop.rests hstage (hc ▸ hfav)
    have hle := hn hlucky
    rw [left_after]
    omega
  refine .asking ha h (ht.stays ho hne hplace) (hext.eq hq (by simp)) hwork (fun k t hm' => ?_) ?_ hleft
  · rcases hst.maps_placed ho hm' with hold | ⟨hle, point, on, hp⟩
    · exact hm k t hold
    · rcases hwork _ _ _ hp with rfl | rfl
      · exact absurd hclt (Nat.not_lt.2 hle)
      · exact absurd ht.task_lt (Nat.not_lt.2 hle)
  -- An operation that ends well in this turn has a value.
  have hvalue : ∀ {r : Reply}, turn = .finish (.ok r) →
      ∃ v, (m.after w.task turn).loop.outcome? w.task = some (.value v) := fun hturn =>
    ⟨_, ht.outcome?_of_finish (congrArg Prod.fst ht.resumed |>.trans hturn)⟩
  exact {
    rests := fun {point' p} hp => by
      replace hp : (Program.conclude w.task turn m.service.loop).place? w.task = some (point', some p) := hp
      rw [place?_conclude, if_pos rfl] at hp
      have hends := ht.ends
      cases turn with
      | rest on point =>
        cases hp
        obtain ⟨-, -, -, -, hle, -⟩ := hends
        rw [hpromises] at hle
        exact Nat.le_trans (Nat.le_of_lt hclt) hle
      | giveWay point => cases hp
      | finish result => cases hp
    pool := hremote.pool.trans (hpoolBefore.trans hop.pool)
    ready := fun hk hr => by
      subst hk
      rcases ht.strides.ready_cases hr with hready | ⟨attempt, r, hs, hgiven⟩
      · exact absurd (hbefore.phase ▸ hready) (hp.loaded.engined.booting.not_ready hrole hopen)
      · have hres := congrArg Prod.fst ht.resumed
        rw [hs, hgiven] at hres
        exact hvalue hres.symm
    grammars := by
      rcases ht.strides.grammars_cases with he | ⟨language, locator, r, hs, hgiven⟩
      · exact .inl (he.trans (hbefore.grammars.trans hgr))
      · refine .inr ⟨?_, ?_⟩
        · rw [hs] at hstage
          rcases h.hook_cases with rfl | rfl
          · cases hstage
          · rfl
        · have hres := congrArg Prod.fst ht.resumed
          rw [hs, hgiven] at hres
          exact hvalue hres.symm
    fault := fun {f} hf => by
      obtain ⟨-, hold | ⟨-, result, hturn, he⟩⟩ := ht.ended_cases ho (hext.eq hrole (by simp)) hf
      · rw [outcome?_of_isPending hopen] at hold
        cases hold
      obtain rfl : result = .error f := by
        cases result with
        | ok r => cases he
        | error g =>
          rw [Program.ended] at he
          split at he
          · cases he
          · cases he
            rfl
      rcases h.hook_cases with rfl | rfl
      · obtain ⟨stage, hs⟩ := Stage.exists_of_role_boot hstage
        refine ⟨fun hlucky => ?_, by rintro ⟨⟩⟩
        obtain ⟨P, -, hfav⟩ := hl hlucky ha
        exact ht.boot_unlucky ho hp hd hop.rests hs hturn (hc ▸ hfav)
      · obtain ⟨hform, hunlucky⟩ := ht.load_fails ho hp hd hop.rests hstage hturn
        refine ⟨fun hlucky => ?_, fun _ => hform⟩
        obtain ⟨P, -, hfav⟩ := hl hlucky ha
        exact hunlucky (hc ▸ hfav) }

/-- Between turns a call that is alone stays where it is. -/
theorem Alone.step_aside (h : Alone S s roles lucky c call n) (ho : AtRest s roles)
    (hst : Step s roles mv s' roles') (hmv : mv.isCalm = true) (hnone : s.turnOf? mv = none) :
    Alone S s' roles' lucky c call n := by
  rcases hst.aside_or_given ho with ⟨hnone, ha⟩ | ⟨w, m, turn, hsome, -⟩
  · exact h.aside ho hst hnone ha hmv
  · cases hnone.symm.trans hsome

/-- **A turn brings a call that is alone one turn nearer to its end.** -/
theorem Alone.step_turn (h : Alone S s roles lucky c call (n + 1)) (ho : AtRest s roles)
    (ht : HasTurn s roles w m turn) (hst : Step s roles mv (m.after w.task turn) m.roles)
    (hp : Peaceful s roles c) (hp' : Steady (m.after w.task turn) m.roles)
    (hd : s.loop.isPending c = true → s.workers.dismissed = false) (hc : s.config = S.config)
    (hcall : call.asked? = some language) (hl : lucky → Favours S s roles c call) :
    Alone S (m.after w.task turn) m.roles lucky c call n := by
  obtain ⟨on, hplace⟩ := ht.place
  cases h with
  | begun hpc hw hm hS hn =>
    obtain rfl := hw _ _ _ hplace
    obtain ⟨hs, -⟩ := Prod.mk.inj (Option.some.inj (hplace.symm.trans hpc))
    exact .of_begun ho ht hst hp hp' (hd (ho.isPending_of_place? hpc)) hl hcall hs hw hm hS hn
  | asking ha h hpc hq hw hm hop hn =>
    rcases hw _ _ _ hplace with rfl | rfl
    · obtain ⟨rfl, rfl⟩ := Prod.mk.inj (Option.some.inj (hplace.symm.trans hpc))
      exact .of_waited ho ht hst hp hp' (hd (ho.isPending_of_place? hpc)) hl hq hplace ha hc h hw hm hop hn
    · rw [left_of_place? hplace] at hn
      exact .of_operation ho ht hst hp.toSteady hp' (hd (ho.isPending_of_place? hpc)) hl hpc hq ha hc h hw hm
        hop hn
  | running ha h hpc hw hm hpool hsame hj hn =>
    obtain rfl := hw _ _ _ hplace
    obtain ⟨rfl, rfl⟩ := Prod.mk.inj (Option.some.inj (hplace.symm.trans hpc))
    exact .of_ran ho ht hst hp hp' (hd (ho.isPending_of_place? hpc)) hl hplace ha h hw hm hpool hsame hj hn
  | returned hout => exact .returned (hst.outcome?_of_some hout)
  | failed hout hidle h hasks hr => exact (hidle.calls _ _ _ hplace).elim

end Service

end SourceTrees
