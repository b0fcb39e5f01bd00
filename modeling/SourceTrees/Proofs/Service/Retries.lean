import SourceTrees.Proofs.Service.Fairness
import SourceTrees.Proofs.Service.Readiness
import SourceTrees.Proofs.Service.Regular

/-!
# How often a boot tries

A boot tries to import the engine again as long as its attempts end with transient faults and it has
attempts left.  The outcome of its last attempt decides how it ends.

## Protocol

* An **attempt** ends when the boot is given what the import has come to, or when the workers refuse the
  job since they have been dismissed.
* A boot has at least one attempt, whatever is configured.
* Turns of other tasks may come between any two turns of the boot.

## Results

* `Boot.attemptsMade` — how many attempts are made, by what they would come to one after the other.
* `Service.turns`, `Service.attempts` — the turns of a task in a run, and how its attempts ended.
* `Service.Tries` — the law for a boot that is about to start and the run that follows.
* **`Service.tries`** — every boot obeys it.
-/

set_option autoImplicit false

namespace SourceTrees

namespace Boot

/-- How many attempts a boot has at most. -/
def limit (c : Config) : Nat := max 1 c.bootAttempts.toNat

/-- The attempt is worth another one. -/
def isTransient : Except Fault Reply → Bool
  | .ok _ => false
  | .error f => f.kind.isTransient

/-- How many attempts a boot makes, given what they would come to one after the other: it stops at the first
    one that is not worth another, or at the limit. -/
def attemptsMade (limit : Nat) (outcomes : List (Except Fault Reply)) : Nat :=
  min limit (outcomes.findIdx (fun x => !isTransient x) + 1)

/-- What comes after the last attempt does not count. -/
theorem attemptsMade_append {limit : Nat} {earlier : List (Except Fault Reply)} {last : Except Fault Reply}
    (hearlier : ∀ x ∈ earlier, isTransient x = true) (hlt : earlier.length < limit)
    (hlast : isTransient last = true → earlier.length + 1 = limit) (more : List (Except Fault Reply)) :
    attemptsMade limit (earlier ++ [last] ++ more) = (earlier ++ [last]).length := by
  have hskip : (earlier ++ ([last] ++ more)).findIdx (fun x => !isTransient x) =
      ([last] ++ more).findIdx (fun x => !isTransient x) + earlier.length := by
    rw [List.findIdx_append, if_neg]
    intro hlt
    have := List.findIdx_getElem (w := hlt)
    simp [hearlier] at this
  rw [attemptsMade, List.append_assoc, hskip, List.length_append, List.length_singleton]
  cases ht : isTransient last with
  | true =>
    have := hlast ht
    omega
  | false =>
    have hzero : ([last] ++ more).findIdx (fun x => !isTransient x) = 0 := by
      simp [List.findIdx_cons, ht]
    omega

/-- What an attempt to import the engine comes to, in the world in which it is made: the engine, which has
    all its parts; the fault of a module that lacks some; an ordinary fault of the import; or the refusal of
    workers that have been dismissed. -/
inductive Attempted (engine : String) : Except Fault Reply → Prop
  | complete {w w' : World} (himport : (Attempt.importModule engine).run w = (.ok (), w'))
      (hparts : w'.missingParts engine = []) : Attempted engine (.ok (.engine engine))
  | lacking {w w' : World} (himport : (Attempt.importModule engine).run w = (.ok (), w'))
      (hparts : w'.missingParts engine ≠ []) :
      Attempted engine (.error (.incomplete engine (w'.missingParts engine)))
  | raised {w w' : World} {f : Fault} (himport : (Attempt.importModule engine).run w = (.error f, w'))
      (hf : f.kind.isOrdinary = true) : Attempted engine (.error f)
  | refused : Attempted engine (.error .poolClosed)

/-- An attempt that ends with a fault ends with an ordinary one. -/
theorem Attempted.isOrdinary {engine : String} {f : Fault} (h : Attempted engine (.error f)) :
    f.kind.isOrdinary = true := by
  cases h with
  | raised himport hf => exact hf
  | lacking | refused => rfl

end Boot

/-- Loading an engine is importing its module and looking for its parts. -/
theorem Attempt.run_loadEngine (engine : String) (w : World) : (loadEngine engine).run w =
    match (importModule engine).run w with
    | (.ok _, w') =>
      if w'.missingParts engine = [] then (.ok (), w')
      else (.error (.incomplete engine (w'.missingParts engine)), w')
    | (.error f, w') => (.error f, w') := by
  have hbind : (loadEngine engine).run w = ExceptT.bindCont (fun _ => do
      let missing := (← get).missingParts engine
      unless missing.isEmpty do throw (.incomplete engine missing) : Unit → Attempt Unit)
      ((importModule engine).run w).1 ((importModule engine).run w).2 := rfl
  rw [hbind]
  generalize (importModule engine).run w = x
  obtain ⟨r, w'⟩ := x
  cases r with
  | error f => rfl
  | ok u =>
    change ExceptT.run (if (w'.missingParts engine).isEmpty then pure ()
      else throw (.incomplete engine (w'.missingParts engine)) : Attempt Unit) w' = _
    dsimp only
    split
    · rename_i hparts
      rw [if_pos (List.isEmpty_iff.1 hparts)]
      rfl
    · rename_i hparts
      rw [if_neg fun h => hparts (List.isEmpty_iff.2 h)]
      rfl

/-- Importing the configured engine is an attempt of a boot. -/
def Job.Tries (engine : String) : Job → Except Fault Reply → Prop
  | boot name, x => name = engine → Boot.Attempted engine x
  | _, _ => True

/-- The workers that boot take no more jobs. -/
def Service.RefusesBoot (s : Service) : Prop := s.setupCrew = .own ∧ s.workers.dismissed = true

instance (s : Service) : Decidable s.RefusesBoot := inferInstanceAs (Decidable (_ ∧ _))

/-! ## The turns of a boot -/

/-- The counters after another boot with so many attempts and failures. -/
def BootCounts.after (b : BootCounts) (attempts failures : Nat) : BootCounts :=
  ⟨b.operations + 1, b.attempts + attempts, b.failures + failures⟩

namespace Boot

variable {b : BootCounts} {s : Service} {c : Config} {f : Fault} {outcomes : List (Except Fault Reply)}
  {turns : Nat}

/-- Where a boot stands after so many attempts that have ended and so many turns, and what has been
    counted. -/
inductive Stands (b : BootCounts) : BootStage → Nat → Nat → BootCounts → Prop
  | start : Stands b .start 0 0 b
  | importing (n : Nat) : Stands b (.importing (n + 1)) n (2 * n + 1) (b.after (n + 1) 0)
  | pausing (n : Nat) (timer : Option PromiseId) : Stands b (.pausing n timer) n (2 * n) (b.after n 0)

/-- A boot is unfinished: all attempts that have ended were worth another one, and there is one left. -/
structure Trying (c : Config) (b now : BootCounts) (outcomes : List (Except Fault Reply)) (turns : Nat)
    (stage : BootStage) : Prop where
  transient : ∀ x ∈ outcomes, isTransient x = true
  short : outcomes.length < limit c
  stands : Stands b stage outcomes.length turns now

/-- How a boot ends whose last attempt ended so: with the engine, which is ready, or with a fault of booting,
    which is counted and leaves the engine to be booted by another one. -/
def Leaves (c : Config) (b : BootCounts) (attempts : Nat) (s : Service) (o : Settled Reply) :
    Except Fault Reply → Prop
  | .ok _ => o = .value .nothing ∧ s.phase = .ready ∧ s.engine? = .ok c.engineModule ∧
      s.counts.boot = b.after attempts 0
  | .error f =>
    o = .failed (if f.kind = .boot then f else .unbootable c.engineModule f) ∧
      s.phase = .uninitialized ∧ s.counts.boot = b.after attempts 1

/-- A boot has just ended: it has made as many attempts as it should, whatever further ones would have come
    to, and the last one decides. -/
structure Ended (c : Config) (b : BootCounts) (s : Service) (outcomes : List (Except Fault Reply))
    (turns : Nat) (o : Settled Reply) : Prop where
  made : ∀ more, outcomes.length = attemptsMade (limit c) (outcomes ++ more)
  turns : turns ≤ 2 * limit c
  last : ∃ x, outcomes.getLast? = some x ∧ Leaves c b outcomes.length s o x

/-- The end of the turn, at which the loop alone changes, does not matter. -/
theorem Ended.congr {o : Settled Reply} {s' : Service} (h : Ended c b s outcomes turns o)
    (hp : s'.phase = s.phase) (he : s'.engine = s.engine) (hconfig : s'.config = s.config)
    (hcounts : s'.counts = s.counts) : Ended c b s' outcomes turns o := by
  obtain ⟨hmade, hturns, x, hx, hleaves⟩ := h
  refine ⟨hmade, hturns, x, hx, ?_⟩
  cases x with
  | ok r =>
    obtain ⟨ho, hready, hengine, hc⟩ := hleaves
    refine ⟨ho, hp.trans hready, ?_, hcounts ▸ hc⟩
    rw [← hengine, Service.engine?, Service.engine?, hp, he, hconfig]
  | error f =>
    obtain ⟨ho, hun, hc⟩ := hleaves
    exact ⟨ho, hp.trans hun, hcounts ▸ hc⟩

/-- What a turn of the boot comes to. -/
def Comes (c : Config) (b : BootCounts) (outcomes : List (Except Fault Reply)) (turns : Nat) :
    Turn BootStage Unit × Service → Prop
  | (.rest _ stage, s) | (.giveWay stage, s) => Trying c b s.counts.boot outcomes turns stage
  | (.finish result, s) =>
    Ended c b s outcomes turns (Program.ended (Work.reply (fun _ => .nothing) result))

/-- Attempts are left as long as the limit is not reached. -/
theorem lt_bootAttempts_iff (n : Nat) : ((n + 1 : Nat) : Int) < c.bootAttempts ↔ n + 1 < limit c := by
  unfold limit
  omega

section

variable (hc : s.config = c) (htransient : ∀ x ∈ outcomes, isTransient x = true)
  (hshort : outcomes.length < limit c)
  (hcounts : s.counts.boot = b.after (outcomes.length + 1) 0) (hturns : turns ≤ 2 * limit c)

include hc htransient hshort hcounts hturns

/-- The last attempt has ended with a fault. -/
theorem comes_failed (hf : f.kind.isOrdinary = true)
    (hlast : f.kind.isTransient = true → outcomes.length + 1 = limit c) :
    Comes c b (outcomes ++ [.error f]) turns (Boot.failed f s) := by
  rw [Service.failed_eq]
  have hlast' : isTransient (.error f) = true → outcomes.length + 1 = limit c := hlast
  refine ⟨fun more => (attemptsMade_append htransient hshort hlast' more).symm, hturns, .error f, by simp,
    ?_, rfl, ?_⟩
  · have hraised : Boot.raised s.config.engineModule f =
        if f.kind = .boot then f else .unbootable c.engineModule f := by
      rw [Boot.raised, if_pos hf, hc]
    have hkind : (Boot.raised s.config.engineModule f).kind ≠ .cancelled := by
      rw [Boot.kind_raised hf]
      decide
    rw [← hraised]
    exact if_neg hkind
  · show (s.counts.bootFailed f).boot = _
    rw [Counts.bootFailed, if_pos hf, hcounts, List.length_append]
    rfl

/-- An attempt has ended with a fault. -/
theorem comes_attemptFailed (hf : f.kind.isOrdinary = true)
    (hpause : f.kind.isTransient = true → turns = 2 * (outcomes.length + 1)) :
    Comes c b (outcomes ++ [.error f]) turns (Boot.attemptFailed (outcomes.length + 1) f s) := by
  rw [Service.attemptFailed_eq, hc]
  split
  · rename_i hagain
    have htrying : ∀ timer, Trying c b s.counts.boot (outcomes ++ [.error f]) turns
        (.pausing (outcomes.length + 1) timer) := by
      refine fun timer => ⟨fun x hx => ?_, ?_, ?_⟩
      · rcases List.mem_append.1 hx with hx | hx
        · exact htransient x hx
        · rw [List.mem_singleton.1 hx]
          exact hagain.1
      · rw [List.length_append]
        exact (lt_bootAttempts_iff _).1 hagain.2
      · rw [hcounts, hpause hagain.1, List.length_append]
        exact .pausing _ timer
    split <;> exact htrying _
  · rename_i hlast
    refine comes_failed hc htransient hshort hcounts hturns hf fun ht => ?_
    have := mt (lt_bootAttempts_iff _).2 fun h => hlast ⟨ht, h⟩
    omega

/-- An attempt has ended with the engine. -/
theorem comes_succeeded (r : Reply) :
    Comes c b (outcomes ++ [.ok r]) turns (Boot.succeeded s) := by
  have hlast : isTransient (.ok r) = true → outcomes.length + 1 = limit c := fun h => nomatch h
  refine ⟨fun more => (attemptsMade_append htransient hshort hlast more).symm, hturns, .ok r, by simp,
    rfl, rfl, ?_, ?_⟩
  · show Except.ok s.config.engineModule = _
    rw [hc]
  · show s.counts.boot = _
    rw [hcounts, List.length_append]
    rfl

end

/-- An attempt has been counted. -/
def counted (s : Service) : Service :=
  { s with counts := { s.counts with
      boot := { s.counts.boot with attempts := s.counts.boot.attempts + 1 } } }

/-- An attempt begins: its job is handed in, or refused. -/
theorem beginAttempt_eq (n : Nat) (s : Service) : Boot.beginAttempt n s =
    if s.RefusesBoot then Boot.attemptFailed n .poolClosed (counted s)
    else (.rest s.loop.promises.size (.importing n),
      Work.handedIn (counted s) s.setupCrew (.boot s.config.engineModule)) := by
  unfold Boot.beginAttempt
  simp only [Work.count, Work.run_bind, Work.run_modify, Work.run_get]
  have hsubmit : Work.submit s.setupCrew (.boot s.config.engineModule) (counted s) = _ := Work.submit_eq
  by_cases hr : s.RefusesBoot
  · rw [if_pos hr]
    have hrefused := hsubmit.trans (if_pos hr)
    erw [hrefused]
  · rw [if_neg hr]
    have haccepted := hsubmit.trans (if_neg hr)
    erw [haccepted]
    rfl

/-- An attempt begins. -/
theorem comes_beginAttempt (hc : s.config = c) (htransient : ∀ x ∈ outcomes, isTransient x = true)
    (hshort : outcomes.length < limit c) (hoperations : s.counts.boot.operations = b.operations + 1)
    (hattempts : s.counts.boot.attempts = b.attempts + outcomes.length)
    (hfailures : s.counts.boot.failures = b.failures) :
    Comes c b (outcomes ++ if s.RefusesBoot then [.error .poolClosed] else []) (2 * outcomes.length + 1)
      (Boot.beginAttempt (outcomes.length + 1) s) := by
  have hcounts : (counted s).counts.boot = b.after (outcomes.length + 1) 0 := by
    simp only [counted, hattempts, hoperations, hfailures]
    rfl
  rw [beginAttempt_eq]
  by_cases hr : s.RefusesBoot
  · rw [if_pos hr, if_pos hr]
    exact comes_attemptFailed hc htransient hshort hcounts (by omega) rfl nofun
  · rw [if_neg hr, if_neg hr, List.append_nil]
    refine ⟨htransient, hshort, ?_⟩
    rw [(@Work.known_handedIn _ _ _).2.2.2.2, hcounts]
    exact .importing _

end Boot

namespace Service

open Loop

variable {s s' : Service} {roles roles' : Roles Hook Job} {w : Woken} {m m' : Midst} {mv : Service.Move}
  {ms : List Service.Move} {op t : PromiseId} {turn : Turn Stage Reply} {c : Config} {b : BootCounts}
  {outcomes : List (Except Fault Reply)} {f : Fault}

theorem sure_tries (engine : String) : Sure (World.ImportsWell engine) fun _ => Job.Tries engine where
  kept := ⟨_, _, World.ImportsWell.kept engine⟩
  lasting _ := id
  run job w hw := by
    cases job with
    | boot name =>
      rintro rfl
      have hm := World.ImportsWell.loadEngine name w hw
      show Boot.Attempted name (Work.reply (fun _ => .engine name) ((Attempt.loadEngine name).run w).1)
      rw [Attempt.run_loadEngine] at hm ⊢
      cases himport : (Attempt.importModule name).run w with
      | mk r w' =>
        rw [himport] at hm
        cases r with
        | error f => exact .raised himport hm.1
        | ok u =>
          dsimp only
          split
          · rename_i hparts
            exact .complete himport hparts
          · rename_i hparts
            exact .lacking himport hparts
    | _ => trivial

/-! ## Turns and attempts -/

/-- How an attempt ends with the turn, if one does. -/
def Woken.attempt? (w : Woken) : Option (Except Fault Reply) :=
  match w.stage, w.given with
  | .boot (.importing _), x => some x
  | .boot .start, .ok _ | .boot (.pausing ..), .ok _ =>
    if w.before.RefusesBoot then some (.error .poolClosed) else none
  | _, _ => none

/-- The turns of a task in the course of a run. -/
def turns (t : PromiseId) (s : Service) (ms : List Service.Move) : List Woken :=
  (taken s ms).filter (·.task = t)

theorem turns_snoc (mv : Service.Move) : turns t s (ms ++ [mv]) =
    turns t s ms ++ ((s.moves ms).turnOf? mv).toList.filter (·.task = t) := by
  simp only [turns, taken_snoc, List.filter_append]

/-- How the attempts of a boot have ended in the course of a run. -/
def attempts (op : PromiseId) (s : Service) (ms : List Service.Move) : List (Except Fault Reply) :=
  (turns op s ms).filterMap Woken.attempt?

/-- What a boot is given in its turn: what its import has come to, or nothing in particular. -/
def Woken.GivenByBoot (w : Woken) (engine : String) : BootStage → Prop
  | .importing _ => Boot.Attempted engine w.given
  | _ => w.given = .ok default

/-- An attempt that ends with the turn ends as an attempt does. -/
theorem Woken.GivenByBoot.attempted {engine : String} {stage : BootStage} (hs : w.stage = .boot stage)
    (hg : w.GivenByBoot engine stage) {x : Except Fault Reply} (hx : w.attempt? = some x) :
    Boot.Attempted engine x := by
  have hrefused : w.attempt? = (if w.before.RefusesBoot then some (.error .poolClosed) else none) →
      Boot.Attempted engine x := by
    intro he
    rw [hx] at he
    split at he
    · cases he
      exact .refused
    · cases he
  cases stage with
  | importing n =>
    rw [Woken.attempt?, hs] at hx
    cases hx
    exact hg
  | start => exact hrefused (by rw [Woken.attempt?, hs, show w.given = .ok default from hg])
  | pausing n timer => exact hrefused (by rw [Woken.attempt?, hs, show w.given = .ok default from hg])

/-- What a turn of an unfinished boot comes to. -/
theorem comes_resume {stage : BootStage} {turns : Nat} (hs : w.stage = .boot stage)
    (hc : w.before.config = c) (hg : w.GivenByBoot c.engineModule stage)
    (h : Boot.Trying c b w.before.counts.boot outcomes turns stage) :
    Boot.Comes c b (outcomes ++ w.attempt?.toList) (turns + 1) (Boot.resume stage w.given w.before) := by
  obtain ⟨htransient, hshort, hstands⟩ := h
  have hrefused : w.given = .ok default → (∀ n, stage ≠ .importing n) → w.attempt?.toList =
      if w.before.RefusesBoot then [.error .poolClosed] else [] := by
    intro hgiven hstage
    cases stage with
    | importing n => exact absurd rfl (hstage n)
    | start =>
      rw [Woken.attempt?, hs, hgiven]
      dsimp only
      split <;> rfl
    | pausing n timer =>
      rw [Woken.attempt?, hs, hgiven]
      dsimp only
      split <;> rfl
  generalize hn : outcomes.length = n at hstands
  generalize hnow : w.before.counts.boot = now at hstands
  cases hstands with
  | start =>
    rw [hrefused hg nofun, show w.given = .ok default from hg]
    obtain rfl := List.eq_nil_of_length_eq_zero hn
    exact Boot.comes_beginAttempt (s := { w.before with
        phase := .initializing
        counts := { w.before.counts with boot := { w.before.counts.boot with
          operations := w.before.counts.boot.operations + 1 } }
        log := w.before.log ++ [.info ("Booting parsing engine '" ++ w.before.config.engineModule ++ "'...")] })
      hc htransient hshort (by rw [hnow]) (by rw [hnow]; rfl) (by rw [hnow])
  | importing n =>
    have hattempt : w.attempt?.toList = [w.given] := by
      rw [Woken.attempt?, hs]
      rfl
    have hcounts : w.before.counts.boot = b.after (outcomes.length + 1) 0 := by rw [hnow, hn]
    rw [hattempt]
    subst hn
    replace hg : Boot.Attempted c.engineModule w.given := hg
    cases hr : w.given with
    | ok r =>
      exact Boot.comes_succeeded hc htransient hshort hcounts (by omega) r
    | error f =>
      rw [hr] at hg
      exact Boot.comes_attemptFailed hc htransient hshort hcounts (by omega) hg.isOrdinary
        fun _ => by omega
  | pausing n timer =>
    rw [hrefused hg nofun, show w.given = .ok default from hg]
    subst hn
    exact Boot.comes_beginAttempt hc htransient hshort (by rw [hnow]; rfl) (by rw [hnow]; rfl)
      (by rw [hnow]; rfl)

/-- A turn of another task leaves the counters of booting alone. -/
theorem Stride.counts_boot (h : Booting m.service m.roles (w.grips m.grip)) (ht : InTurn w m)
    (hst : Stride w m m') (hrole : w.stage.role ≠ .operation .boot) :
    m'.service.counts.boot = m.service.counts.boot := by
  have hidle : m.grip ≠ .boot := fun hg =>
    hrole (ht.unfinished.1.symm.trans (h.holder (grips_self.trans hg)).1)
  cases hst with
  | counted n => cases n <;> rfl
  | submitted crew hc hg => rw [(@Work.known_handedIn _ _ _).2.2.2.2]
  | dismissed => rw [Work.known_dismiss.2.2.2.2]
  | bootBegun hs hg => exact absurd (by rw [hs]; rfl) hrole
  | bootTried hg => exact absurd hg hidle
  | bootFailed hf hg => exact absurd hg hidle
  | @fetchFailed language locator f hs =>
    show (m.service.counts.loadFailed f).boot = _
    unfold Counts.loadFailed
    split <;> rfl
  | _ => rfl

theorem HasTurn.counts_boot (h : Booting s roles s.gripAt) (ht : HasTurn s roles w m turn)
    (hw : w.BootsWell) (hrole : w.stage.role ≠ .operation .boot) :
    m.service.counts.boot = s.counts.boot := by
  have hstrides : ∀ {m'}, Strides w ⟨w.before, roles, w.stage.grip⟩ m' →
      m'.service.counts.boot = w.before.counts.boot := by
    intro m' hst
    induction hst with
    | refl => rfl
    | tail hst hstep ih =>
      have hbooting := Booting.strides (m := ⟨w.before, roles, w.stage.grip⟩) (h.takeUp ht) ht.started hw hst
      exact (hstep.counts_boot hbooting (ht.started.strides hst) hrole).trans ih
  obtain ⟨i, hb⟩ := ht.before
  rw [hstrides ht.strides, hb]

/-! ## The course of a boot -/

/-- The law for a boot that is about to start, and the run that follows. -/
structure Tries (c : Config) (first : Service) (op : PromiseId) (ms : List Service.Move) : Prop where
  /-- The boot rests in the course of booting, or it has ended. -/
  either : (∃ stage on, (first.moves ms).loop.place? op = some (.boot stage, on)) ∨
    ∃ o, (first.moves ms).loop.outcome? op = some o
  /-- Its attempts end as attempts do. -/
  attempted : ∀ x ∈ attempts op first ms, Boot.Attempted c.engineModule x
  /-- As long as it is unfinished, all its attempts were worth another one, and one is left. -/
  unfinished : ∀ {stage on}, (first.moves ms).loop.place? op = some (.boot stage, on) →
    Boot.Trying c first.counts.boot (first.moves ms).counts.boot (attempts op first ms)
      (turns op first ms).length stage
  /-- If it has ended, there was a move with which it ended, as a boot should, and it has had no turn
      since. -/
  ended : ∀ {o}, (first.moves ms).loop.outcome? op = some o → ∃ before mv after,
    ms = before ++ mv :: after ∧ (first.moves before).isFinished op = false ∧
      turns op first (before ++ [mv]) = turns op first ms ∧
      Boot.Ended c first.counts.boot (first.moves (before ++ [mv])) (attempts op first ms)
        (turns op first ms).length o

namespace Tries

variable {first : Service}

/-- A boot that is about to start has not tried yet. -/
theorem start {on : Option PromiseId} (hp : first.loop.place? op = some (.boot .start, on))
    (hopen : first.loop.isPending op = true) : Tries c first op [] := by
  have hp' : (first.moves []).loop.place? op = some (.boot .start, on) := hp
  refine ⟨.inl ⟨_, _, hp'⟩, (fun _ h => by cases h), fun {stage on'} hs => ?_, fun {o} hout => ?_⟩
  · obtain ⟨hstage, _⟩ := Prod.mk.inj (Option.some.inj (hp'.symm.trans hs))
    cases hstage
    exact ⟨(fun _ h => by cases h), Nat.lt_of_lt_of_le Nat.zero_lt_one (Nat.le_max_left ..), .start⟩
  · have hout' : first.loop.outcome? op = some o := hout
    rw [outcome?_of_isPending hopen] at hout'
    cases hout'

/-- A move that gives the boot no turn changes nothing for it. -/
theorem still (h : Tries c first op ms) (ho' : AtRest (first.moves (ms ++ [mv])) roles')
    (hturns : turns op first (ms ++ [mv]) = turns op first ms)
    (hstays : ∀ {point on}, (first.moves ms).loop.place? op = some (point, on) →
      (first.moves (ms ++ [mv])).loop.place? op = some (point, on) ∧
        (first.moves (ms ++ [mv])).counts.boot = (first.moves ms).counts.boot)
    (hout : ∀ {o}, (first.moves ms).loop.outcome? op = some o →
      (first.moves (ms ++ [mv])).loop.outcome? op = some o) : Tries c first op (ms ++ [mv]) := by
  have hattempts : attempts op first (ms ++ [mv]) = attempts op first ms := by
    rw [attempts, hturns, attempts]
  -- What rests somewhere has not ended.
  have hne : ∀ {point on o}, (first.moves (ms ++ [mv])).loop.place? op = some (point, on) →
      (first.moves (ms ++ [mv])).loop.outcome? op ≠ some o := by
    intro point on o hp hout
    rw [outcome?_of_isPending (ho'.isPending_of_place? hp)] at hout
    cases hout
  refine ⟨?_, fun x hx => h.attempted x (hattempts ▸ hx), fun {stage on} hp => ?_, fun {o} ho => ?_⟩
  · rcases h.either with ⟨stage, on, hp⟩ | ⟨o, ho⟩
    · exact .inl ⟨stage, on, (hstays hp).1⟩
    · exact .inr ⟨o, hout ho⟩
  · rcases h.either with ⟨stage', on', hp'⟩ | ⟨o, ho⟩
    · obtain ⟨hsame, hcounts⟩ := hstays hp'
      cases hp.symm.trans hsame
      rw [hcounts, hturns, hattempts]
      exact h.unfinished hp'
    · exact absurd (hout ho) (hne hp)
  · rcases h.either with ⟨stage', on', hp'⟩ | ⟨o', ho'⟩
    · exact absurd ho (hne (hstays hp').1)
    · cases ho.symm.trans (hout ho')
      obtain ⟨before, last, after, rfl, hopen, hlast, hended⟩ := h.ended ho'
      refine ⟨before, last, after ++ [mv], by simp, hopen, hlast.trans hturns.symm, ?_⟩
      rw [hattempts, hturns]
      exact hended

/-- A turn of the boot. -/
theorem turned (h : Tries c first op ms) (ho' : AtRest (first.moves (ms ++ [mv])) roles')
    (ht : HasTurn (first.moves ms) roles w m turn)
    (hw : w.task = op) (hsome : (first.moves ms).turnOf? mv = some w)
    (hmove : first.moves (ms ++ [mv]) = m.after w.task turn)
    (hopen : (first.moves ms).loop.isPending op = true) {stage : BootStage}
    (hs : w.stage = .boot stage) (hc : w.before.config = c) (hg : w.GivenByBoot c.engineModule stage) :
    Tries c first op (ms ++ [mv]) := by
  subst hw
  have hturns : turns w.task first (ms ++ [mv]) = turns w.task first ms ++ [w] := by
    rw [turns_snoc, hsome]
    simp
  have hattempts : attempts w.task first (ms ++ [mv]) =
      attempts w.task first ms ++ w.attempt?.toList := by
    rw [attempts, hturns, List.filterMap_append, attempts]
    congr 1
  have hcame : Boot.Comes c first.counts.boot (attempts w.task first (ms ++ [mv]))
      (turns w.task first (ms ++ [mv])).length (Boot.resume stage w.given w.before) := by
    obtain ⟨on, hp⟩ := ht.place
    rw [hs] at hp
    have hcounts : w.before.counts = (first.moves ms).counts := by
      obtain ⟨i, hb⟩ := ht.before
      rw [hb]
    rw [hattempts, hturns, List.length_append]
    exact comes_resume hs hc hg (hcounts ▸ h.unfinished hp)
  have hattempted : ∀ x ∈ attempts w.task first (ms ++ [mv]), Boot.Attempted c.engineModule x := by
    intro x hx
    rw [hattempts] at hx
    rcases List.mem_append.1 hx with hx | hx
    · exact h.attempted x hx
    · exact hg.attempted hs (Option.mem_toList.1 hx)
  -- What the boot comes to is what its task comes to.
  have hres := ht.resumed
  rw [hs] at hres
  replace hres : Calls.replying (Boot.resume stage w.given w.before).1 .boot (fun _ => .nothing)
    (Boot.resume stage w.given w.before).2 = (turn, m.service) := hres
  generalize Boot.resume stage w.given w.before = came at hcame hres
  obtain ⟨turn', s'⟩ := came
  have hrests : ∀ {stage' on}, Boot.Trying c first.counts.boot s'.counts.boot
      (attempts w.task first (ms ++ [mv])) (turns w.task first (ms ++ [mv])).length stage' →
      (first.moves (ms ++ [mv])).loop.place? w.task = some (.boot stage', on) →
      (first.moves (ms ++ [mv])).counts = s'.counts → Tries c first w.task (ms ++ [mv]) := by
    intro stage' on htrying hp hcounts
    refine ⟨.inl ⟨stage', on, hp⟩, hattempted, fun {stage'' on'} hp' => ?_, fun {o} ho => ?_⟩
    · cases hp.symm.trans hp'
      rw [hcounts]
      exact htrying
    · rw [outcome?_of_isPending (ho'.isPending_of_place? hp)] at ho
      cases ho
  cases turn' with
  | rest on stage' =>
    obtain ⟨rfl, rfl⟩ := Prod.mk.inj hres
    exact hrests hcame (by rw [hmove, place?_conclude, if_pos rfl]) (by rw [hmove])
  | giveWay stage' =>
    obtain ⟨rfl, rfl⟩ := Prod.mk.inj hres
    exact hrests hcame (by rw [hmove, place?_conclude, if_pos rfl]) (by rw [hmove])
  | finish result =>
    obtain ⟨rfl, rfl⟩ := Prod.mk.inj hres
    have hout : (first.moves (ms ++ [mv])).loop.outcome? w.task =
        some (Program.ended (Work.reply (fun _ => .nothing) result)) := by
      rw [hmove]
      exact outcome?_finish ht.inTurn.unfinished.2 _
    refine ⟨.inr ⟨_, hout⟩, hattempted, fun {stage'' on'} hp => ?_, fun {o} ho => ?_⟩
    · rw [outcome?_of_isPending (ho'.isPending_of_place? hp)] at hout
      cases hout
    · cases hout.symm.trans ho
      refine ⟨ms, mv, [], rfl, ?_, rfl, ?_⟩
      · rw [isFinished, hopen]
        rfl
      · rw [hmove]
        exact hcame.congr rfl rfl rfl rfl

end Tries

/-- What is known of a boot in the course of a run. -/
structure Booted (c : Config) (first : Service) (op : PromiseId) (ms : List Service.Move)
    (roles : Roles Hook Job) : Prop where
  engined : Engined (first.moves ms) roles
  answered : Answered (fun _ => Job.Tries (first.moves ms).config.engineModule) (first.moves ms) roles
  config : (first.moves ms).config = c
  role : roles op = .operation .boot
  law : Tries c first op ms

/-- Every step that spares the operations keeps it. -/
theorem Booted.step {first : Service} (h : Booted c first op ms roles) (ho : AtRest (first.moves ms) roles)
    (hsp : SparesOperations (first.moves ms) mv)
    (hst : Step (first.moves ms) roles mv (first.moves (ms ++ [mv])) roles') :
    Booted c first op (ms ++ [mv]) roles' := by
  obtain ⟨ho', hext⟩ := ho.step hst
  have hconfig := (hst.engine_named ho).1
  refine ⟨h.engined.step ho hst hsp, ?_, hconfig.trans h.config, hext.eq h.role (by simp), ?_⟩
  · rw [hconfig]
    exact h.answered.step (sure_tries _) ho hst hsp h.engined.world
  rcases hst.aside_or_given ho with ⟨hnone, ha⟩ | ⟨w, m, turn, hsome, ht, hmove, _⟩
  · refine h.law.still ho' ?_ (fun hp => ⟨ha.stays hp, by rw [ha.counts]⟩) hst.outcome?_of_some
    rw [turns_snoc, hnone]
    exact List.append_nil _
  by_cases hw : w.task = op
  · -- It is the boot's own turn.
    obtain ⟨on, hp⟩ := ht.place
    have hopen := ho.isPending_of_place? hp
    have hrole := (ho.placed hp).role
    rw [hw] at hopen hrole
    obtain ⟨stage, hs⟩ := Stage.exists_of_role_boot (hrole.symm.trans h.role)
    have hb : w.before.config = c := by
      obtain ⟨i, hb⟩ := ht.before
      rw [hb]
      exact h.config
    refine h.law.turned ho' ht hw hsome hmove hopen hs hb ?_
    have hg := h.answered.given ht (by rw [hs]; simp [Stage.role])
    rw [hs, h.config] at hg
    cases stage with
    | importing n => exact hg rfl
    | start => exact hg
    | pausing n timer => exact hg
  · refine h.law.still ho' ?_ (fun hp => ⟨?_, ?_⟩) hst.outcome?_of_some
    · rw [turns_snoc, hsome]
      simp [hw]
    · rw [hmove]
      exact ht.stays ho (fun he => hw he.symm) hp
    · have hrole : w.stage.role ≠ .operation .boot := fun hr => hw <|
        ht.started.ordered.boot_unique (ht.started.unfinished.1.trans hr) ht.started.unfinished.2 h.role
          (by
            obtain ⟨i, hb⟩ := ht.before
            show w.before.loop.isPending op = true
            rw [hb]
            exact ho.isPending_of_place? hp)
      rw [hmove]
      exact ht.counts_boot h.engined.booting (h.engined.bootsWell ht) hrole

/-- A boot that is about to start obeys the law, however the run goes on. -/
theorem Engined.booted {first : Service} (h : Engined first roles)
    (ha : Answered (fun _ => Job.Tries first.config.engineModule) first roles) (ho : AtRest first roles)
    {on : Option PromiseId} (hp : first.loop.place? op = some (.boot .start, on))
    (hsp : Along SparesOperations first ms) :
    ∃ roles', AtRest (first.moves ms) roles' ∧ Booted first.config first op ms roles' :=
  exists_course (I := fun ms _ roles => Booted first.config first op ms roles) ho
    ⟨h, ha, rfl, (ho.placed hp).role, .start hp (ho.isPending_of_place? hp)⟩
    (fun ho _ hsp h hst => h.step ho hsp hst) ms hsp

section

variable {first : Service} {f : Nat → Service.Move}

end

end Service

end SourceTrees
