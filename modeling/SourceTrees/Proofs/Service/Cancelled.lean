import SourceTrees.Proofs.Loop.Stricken
import SourceTrees.Proofs.Service.OwnTrees
import SourceTrees.Proofs.Service.ParseCounts
import SourceTrees.Proofs.Service.Progress

/-!
# Cancelled parses

A parse that is cancelled before it has ended ends with its cancellation, wherever it rests: while it waits
for the boot, for the grammar, for the lock, for its parser's job or for the copy of the tree.  If its job
is with the workers it waits the job out, however often it is cancelled meanwhile, and only then gives the
lock back.

## Protocol

* A parse is **doomed** once it is cancelled: it is to meet the cancellation in its next turn, or has met it
  and waits its job out.
* Whoever else is cancelled, closed or called, makes no difference.

## Results

* `Service.Doomed`, `Service.Doomed.step` — a doomed parse stays doomed until it has ended.
* `Service.GivesUp` — the law of a parse that has been cancelled.
* **`Service.gives_up`** — it holds of every parse that is cancelled before it has ended.
-/

set_option autoImplicit false

namespace SourceTrees

open Loop

namespace Parsing

/-- The turn ends in a cancellation, or goes on to wait a job out for one. -/
def Abandons : Turn ParseStage Tree → Prop
  | .rest _ point => ∃ name job waiter f, point = .draining name job waiter f ∧ f.kind = .cancelled
  | .giveWay _ | .finish (.ok _) => False
  | .finish (.error f) => f.kind = .cancelled

theorem abandons_drain (name : String) (job : PromiseId) {f : Fault} (hf : f.kind = .cancelled)
    (s : Service) : Abandons (drain name job f s).1 := by
  rcases Service.drain_cases name job f s with ⟨w, he⟩ | he
  · rw [he]
    exact ⟨_, _, _, _, rfl, hf⟩
  · rw [he]
    exact hf

/-- A parse that meets a cancellation abandons what it does. -/
theorem abandons_cancelled (stage : ParseStage) (hs : stage.IsSound) {f : Fault} (hf : f.kind = .cancelled)
    (s : Service) : Abandons (resume stage (.error f) s).1 := by
  cases stage with
  | booting | copying => exact hf
  | leasing name source crew point =>
    have hlease : (Pool.resumeLease point (.error f) s).1 = .finish (.error f) :=
      Service.resumeLease_error point f
    show Abandons (Work.andThen (Pool.resumeLease point (.error f) s).1 (.leasing name source crew)
      (leased name source crew) (Pool.resumeLease point (.error f) s).2).1
    rw [hlease]
    exact hf
  | running name source crew job =>
    rw [resume, if_pos hf]
    exact abandons_drain name job hf s
  | draining name job waiter cancellation =>
    exact abandons_drain name job hs _

/-- A parse that waits its job out abandons what it does, whatever it meets. -/
theorem abandons_draining (name : String) (job waiter : PromiseId) {f : Fault} (hf : f.kind = .cancelled)
    (given : Except Fault Reply) (s : Service) :
    Abandons (resume (.draining name job waiter f) given s).1 :=
  abandons_drain name job hf _

end Parsing

/-- Where a parse rests. -/
inductive Stage.IsParse : Stage → Prop
  | start (code : Code) (language : Json) : IsParse (.start (.parse code language))
  | parsing {point : ParseStage} (h : point.IsSound) : IsParse (.parse .tree point)

/-- A parse does not wait for other calls. -/
theorem Stage.IsParse.rest_ne_group {point : Stage} (h : point.IsParse) : point.rest ≠ .group := by
  cases h with
  | start => exact nofun
  | @parsing point _ =>
    cases point with
    | leasing name source crew point => cases point <;> exact nofun
    | _ => exact nofun

/-- Who does not wait for other calls does not rest on a group. -/
theorem Rest.Fits.not_group {roles : Roles Hook Job} {rest : Rest} {p : PromiseId}
    (h : rest.Fits roles (some p)) (hne : rest ≠ .group) : roles p ≠ .group := by
  cases rest with
  | nothing => cases h
  | group => exact absurd rfl hne
  | shield | parseJob =>
    obtain ⟨_, _, he, hp, _⟩ := h
    cases he
    simp [hp]
  | bootJob | grammarJob =>
    obtain ⟨_, _, he, hp⟩ := h
    cases he
    simp [hp]
  | timer | ticket =>
    obtain ⟨he, hp⟩ := h
    cases he
    simp [hp]
  | gate =>
    obtain ⟨_, he, hp⟩ := h
    cases he
    simp [hp]
  | drained =>
    obtain ⟨he, hp, _⟩ := h
    cases he
    simp [hp]
  | copyJob =>
    obtain ⟨_, _, _, _, he, hp⟩ := h
    cases he
    simp [hp]

namespace Service

variable {s s' : Service} {roles roles' : Roles Hook Job} {w : Woken} {m : Midst} {mv : Service.Move}
  {ms : List Service.Move} {c t : PromiseId} {point : Stage} {on : Option PromiseId}
  {turn : Turn Stage Reply} {code : Code} {language : Json}

/-- A parse that has been cancelled: it has ended so, or is to meet the cancellation, or has met it and
    waits its job out. -/
inductive Doomed (s : Service) (c : PromiseId) : Prop
  | ended (ho : s.loop.outcome? c = some .cancelled)
  | struck {point : Stage} {on : Option PromiseId} (hp : s.loop.place? c = some (point, on))
      (hs : point.IsParse) (hc : s.loop.Stricken c)
  | draining {name : String} {job waiter : PromiseId} {f : Fault} {on : Option PromiseId}
      (hp : s.loop.place? c = some (.parse .tree (.draining name job waiter f), on))
      (hf : f.kind = .cancelled)

/-! ## Turns -/

/-- What the turn of a parse counts: nothing if it ends before it has begun. -/
theorem HasTurn.tallied (ht : HasTurn s roles w m turn) (hs : w.stage.IsParse) :
    (∃ f, turn = .finish (.error f)) ∧ SameParses w.before m.service ∨
      ∃ turn', turn = replyTree turn' ∧ Parsing.Tallied w.before turn' m.service := by
  have hresumed := ht.resumed
  generalize w.stage = stage at hs hresumed
  cases hs with
  | start code language =>
    cases hgiven : w.given with
    | error f =>
      rw [hgiven] at hresumed
      obtain ⟨rfl, hm⟩ := Prod.mk.inj hresumed
      exact .inl ⟨⟨f, rfl⟩, by rw [← hm]; rfl⟩
    | ok r =>
      rw [hgiven, startParse_eq] at hresumed
      obtain ⟨rfl, hm⟩ := Prod.mk.inj hresumed
      exact .inr ⟨_, rfl, hm ▸ Parsing.Tallies.request code language w.before⟩
  | parsing hpoint =>
    rw [resumeParse_eq] at hresumed
    obtain ⟨rfl, hm⟩ := Prod.mk.inj hresumed
    exact .inr ⟨_, rfl, hm ▸ Parsing.Tallies.resume hpoint w.given w.before⟩

/-- A turn of a parse comes to a stage of a parse. -/
theorem HasTurn.goes_isParse (ht : HasTurn s roles w m turn) (hs : w.stage.IsParse) :
    Goes Stage.IsParse (fun _ => True) turn := by
  rcases ht.tallied hs with ⟨⟨f, rfl⟩, _⟩ | ⟨turn', rfl, htallied⟩
  · trivial
  · cases htallied with
    | same _ hgoes =>
      cases turn' with
      | rest on point | giveWay point => exact .parsing hgoes
      | finish result => trivial
    | built | failed => trivial

/-- A turn that abandons a parse leaves it doomed. -/
theorem HasTurn.doomed_of_abandons (ht : HasTurn s roles w m turn) {turn' : Turn ParseStage Tree}
    (he : turn = replyTree turn') (h : Parsing.Abandons turn') : Doomed (m.after w.task turn) w.task := by
  subst he
  cases turn' with
  | rest on point =>
    obtain ⟨name, job, waiter, f, rfl, hf⟩ := h
    exact .draining OnCourse.after_rest hf
  | giveWay point => exact h.elim
  | finish result =>
    cases result with
    | ok t => exact h.elim
    | error f =>
      refine .ended ((OnCourse.after_finish ht _).trans ?_)
      rw [Work.reply, Program.ended, if_pos (show f.kind = .cancelled from h)]

/-- A parse that meets a cancellation, or has met one, is doomed after its turn. -/
theorem HasTurn.doomed (ht : HasTurn s roles w m turn) (hs : w.stage.IsParse)
    (hc : (∃ f, w.given = .error f ∧ f.kind = .cancelled) ∨
      ∃ name job waiter f, w.stage = .parse .tree (.draining name job waiter f)) :
    Doomed (m.after w.task turn) w.task := by
  have hresumed := ht.resumed
  generalize w.stage = stage at hs hc hresumed
  cases hs with
  | start code language =>
    rcases hc with ⟨f, hgiven, hf⟩ | ⟨_, _, _, _, he⟩
    · rw [hgiven] at hresumed
      obtain ⟨rfl, _⟩ := Prod.mk.inj hresumed
      refine .ended ((OnCourse.after_finish ht _).trans ?_)
      rw [Program.ended, if_pos hf]
    · cases he
  | parsing hpoint =>
    rw [resumeParse_eq] at hresumed
    refine ht.doomed_of_abandons (Prod.mk.inj hresumed).1.symm ?_
    rcases hc with ⟨f, hgiven, hf⟩ | ⟨name, job, waiter, f, he⟩
    · rw [hgiven]
      exact Parsing.abandons_cancelled _ hpoint hf _
    · cases he
      exact Parsing.abandons_draining name job waiter hpoint _ _

/-! ## Steps -/

/-- A stricken task stays so until it has its turn. -/
theorem Step.stricken (ho : AtRest s roles) (hst : Step s roles mv s' roles') (hc : s.loop.Stricken t) :
    s'.loop.Stricken t ∨ ∃ w m turn, HasTurn s roles w m turn ∧ w.task = t ∧
      s' = m.after w.task turn := by
  have houtcome : ∀ {p o}, s.loop.outcome? p = some o → s'.loop.outcome? p = some o :=
    hst.outcome?_of_some
  have hsame : (∀ task, s.loop.tasks.get? t = some task → s'.loop.tasks.get? t = some task) →
      s'.loop.Stricken t := fun h =>
    hc.mono (fun task hget => ⟨task, h task hget, rfl, id⟩) houtcome
  cases hst with
  | idle => exact .inl hc
  | carried hi hw hk => exact .inl (hsame fun task hget => by rw [tasks_effect]; exact hget)
  | @forgotten i hook op hi => cases hook <;> exact .inl (hsame fun _ => id)
  | expired | clocked => exact .inl (hsame fun _ => id)
  | spawned call =>
    refine .inl (hsame fun task hget => ?_)
    show (s.loop.tasks.put s.loop.promises.size _).get? t = _
    rw [Keyed.get?_put, if_neg (Nat.ne_of_lt (ho.sound.known hget))]
    exact hget
  | workedOff hi =>
    rw [Work.workOff_eq hi] at hsame ⊢
    exact .inl (hsame fun _ => id)
  | cancelled => exact .inl hc.cancelTask
  | leaseEnded => exact .inl (hsame fun task hget => by rw [tasks_settle]; exact hget)
  | @turn i t' task given turn m hwakes hsts hres hend =>
    by_cases he : t = t'
    · subst he
      exact .inr ⟨_, m, turn, .of_wakes ho hwakes hsts hres hend, rfl, rfl⟩
    · refine .inl (hsame fun task hget => ?_)
      exact ((get?_tasks_conclude he).trans (hsts.get?_tasks (ho.sound.known hget))).trans hget

namespace Doomed

/-- **A doomed parse stays doomed.** -/
theorem step (h : Doomed s c) (ho : AtRest s roles) (hst : Step s roles mv s' roles') : Doomed s' c := by
  cases h with
  | ended hout => exact .ended (hst.outcome?_of_some hout)
  | struck hp hs hc =>
    have hturn : ∀ {w m turn}, HasTurn s roles w m turn → w.task = c → Doomed (m.after w.task turn) c := by
      rintro w m turn ht rfl
      obtain ⟨task, given, hget, hpoint, _, hgives, hmet⟩ := ht.woken
      obtain ⟨f, hf, hkind⟩ := hc.met hget hgives
      have hstage := (place?_of_get? hget).symm.trans hp
      rw [hpoint] at hstage
      cases hstage
      exact ht.doomed hs (.inl ⟨f, hmet.trans hf, hkind⟩)
    rcases hst.stays_or_turn ho hp with hp' | ⟨w, m, turn, ht, hw, _, rfl, _⟩
    · rcases hst.stricken ho hc with hc' | ⟨w, m, turn, ht, hw, rfl⟩
      · exact .struck hp' hs hc'
      · exact hturn ht hw
    · exact hturn ht hw
  | @draining name job waiter f on hp hf =>
    rcases hst.stays_or_turn ho hp with hp' | ⟨w, m, turn, ht, rfl, hstage, rfl, _⟩
    · exact .draining hp' hf
    · refine ht.doomed (hstage ▸ .parsing hf) (.inr ?_)
      exact ⟨name, job, waiter, f, hstage⟩

/-- A parse that is cancelled before it has ended is doomed. -/
theorem of_cancel (ho : AtRest s roles) (hp : s.loop.place? c = some (point, on)) (hs : point.IsParse) :
    Doomed (s.move (.act (.cancel c))) c := by
  obtain ⟨task, hget, hpoint, hon⟩ := place?_eq_some_iff.1 hp
  refine .struck (s := s.move _) (place?_cancelTask.trans hp) hs (stricken_cancelTask hget ?_)
  intro p hp'
  rw [hon] at hp'
  subst hp'
  refine ⟨?_, ho.place?_lt hp⟩
  cases hg : s.loop.groups.get? p with
  | none => rfl
  | some group =>
    have hgroup := ho.sound.assigned.grouped (g := p) (by rw [hg]; rfl)
    have hfits := (ho.placed hp).rest
    exact absurd hgroup (hfits.not_group hs.rest_ne_group)

/-- A doomed parse that has ended has ended in its cancellation. -/
theorem outcome (h : Doomed s c) (ho : AtRest s roles) {o : Settled Reply}
    (hout : s.loop.outcome? c = some o) : o = .cancelled := by
  have hopen : ∀ {point on}, s.loop.place? c ≠ some (point, on) := fun hp => by
    rw [outcome?_of_isPending (ho.isPending_of_place? hp)] at hout
    cases hout
  cases h with
  | ended ho => exact Option.some.inj (hout.symm.trans ho)
  | struck hp => exact absurd hp hopen
  | draining hp => exact absurd hp hopen

/-- When nothing is left to serve, a doomed parse has ended or waits for its job, which is with the
    workers. -/
theorem rests (h : Doomed s c) (ho : AtRest s roles) (hw : Waiting s roles)
    (hagenda : s.loop.agenda = []) :
    s.loop.outcome? c = some .cancelled ∨ ∃ language job, s.gripAt c = .job language job ∧
      ∃ k ∈ s.workers.queue, k.promise = job := by
  cases h with
  | ended hout => exact .inl hout
  | struck hp hs hc =>
    exfalso
    obtain ⟨p, rfl, hopen, _⟩ := ho.rests_open hagenda hp
    obtain ⟨task', hget', _, hon'⟩ := place?_eq_some_iff.1 hp
    cases hc with
    | marked hget _ hon =>
      cases hget.symm.trans hget'
      obtain ⟨o, hout⟩ := hon p hon'
      rw [isPending_of_outcome? hout] at hopen
      cases hopen
    | refused hget hon hout =>
      cases hget.symm.trans hget'
      cases hon.symm.trans hon'
      rw [isPending_of_outcome? hout] at hopen
      cases hopen
  | draining hp hf => exact .inr ⟨_, _, gripAt_of_place? hp, hw.inHand ho hagenda (gripAt_of_place? hp)⟩

end Doomed

/-! ## Runs -/

/-- Nothing is asked of a parse but where it rests. -/
theorem keeps_isParse (c : PromiseId) :
    Keeps (fun _ _ => True) Waiting c (fun _ => Stage.IsParse) fun _ _ => True where
  step ho _ _ h hst := h.step ho hst
  turn _ _ _ ht _ _ hs := ht.goes_isParse hs
  stay _ _ _ _ := id
  keep _ _ _ _ := id

/-- Promises stay. -/
theorem Ordered.size_moves (ho : AtRest s roles) (ms : List Service.Move) :
    s.loop.promises.size ≤ (s.moves ms).loop.promises.size := by
  obtain ⟨_, _, _, hle⟩ := exists_atRest
    (I := fun now _ => s.loop.promises.size ≤ now.loop.promises.size)
    (fun ho _ hle hst => hle.trans (hst.size_le ho)) ms ho (Nat.le_refl _)
  exact hle

/-- A call that a run begins has been begun where it rests somewhere. -/
theorem Began.of_place? {call : Call} {before after : List Service.Move} (ho : AtRest s roles)
    (hc : Began s (before ++ after) call c) (hp : (s.moves before).loop.place? c = some (point, on)) :
    Began s before call c := by
  obtain ⟨_, hbefore⟩ := ho.atRest_moves before
  obtain ⟨task, hget, _, _⟩ := place?_eq_some_iff.1 hp
  have hlt := hbefore.sound.known hget
  obtain ⟨before', after', he, rfl⟩ := hc
  rcases List.append_eq_append_iff.1 he with ⟨more, rfl, hmore⟩ | ⟨more, rfl, hmore⟩
  · rw [moves_append] at hlt
    exact absurd hlt (Nat.not_lt.2 (hbefore.size_moves more))
  · cases more with
    | nil =>
      rw [List.append_nil] at hlt
      exact absurd hlt (Nat.lt_irrefl _)
    | cons mv more =>
      cases hmore
      exact ⟨before', more, rfl, rfl⟩

/-- The move gives the task a turn. -/
def Serves (s : Service) (c : PromiseId) (mv : Service.Move) : Prop :=
  ∃ w, s.turnOf? mv = some w ∧ w.task = c

/-- What is served of a parse is not counted, unless it ends the parse otherwise than in a
    cancellation. -/
theorem Step.sameParses (ho : AtRest s roles) (hst : Step s roles mv s' roles') (hc : s.Serves c mv)
    (hparse : ∀ point on, s.loop.place? c = some (point, on) → point.IsParse)
    (hend : ∀ o, s'.loop.outcome? c = some o → o = .cancelled) : SameParses s s' := by
  obtain ⟨w', hw', hc⟩ := hc
  rcases hst.aside_or_given ho with ⟨hnone, _⟩ | ⟨w, m, turn, hw, ht, rfl, _⟩
  · cases hnone.symm.trans hw'
  · obtain rfl := Option.some.inj (hw.symm.trans hw')
    subst hc
    obtain ⟨i, hbefore⟩ := ht.before
    have hcounts : w.before.counts = s.counts := by rw [hbefore]
    have hsame : SameParses w.before m.service → SameParses s m.service := fun h =>
      h.trans (congrArg Counts.parses hcounts)
    obtain ⟨on, hplace⟩ := ht.place
    rcases ht.tallied (hparse _ _ hplace) with ⟨_, h⟩ | ⟨turn', rfl, htallied⟩
    · exact hsame h
    · cases htallied with
      | same h => exact hsame h
      | built => cases hend _ (OnCourse.after_finish ht _)
      | @failed f _ hf =>
        have hcancelled := hend _ (OnCourse.after_finish ht _)
        rw [Work.reply, Program.ended, hf] at hcancelled
        cases hcancelled

/-- The lock is left to others: it is free, or another unfinished task has it, or it is being handed to
    one. -/
inductive LeftTo (s : Service) (c : PromiseId) (language : String) (lock : Lock) : Prop
  | free (hheld : lock.held = false) (htickets : lock.tickets = [])
  | held (hheld : lock.held = true) {t : PromiseId} (hne : t ≠ c) (hopen : s.isFinished t = false)
      (hi : s.Inside t language)
  | handed (hheld : lock.held = false) {k t : PromiseId} (hk : lock.tickets.head? = some k)
      (hcalled : s.loop.isPending k = false) (hne : t ≠ c) (hopen : s.isFinished t = false)
      (hg : s.gripAt t = .ticket language k)

/-- The law of a parse that has been cancelled before it had ended. -/
structure GivesUp (s : Service) (ms : List Service.Move) (c : PromiseId) : Prop where
  /-- It ends in its cancellation, with no tree and with no other fault. -/
  ends : ∀ {o}, (s.moves ms).loop.outcome? c = some o → o = .cancelled
  /-- When nothing is left to serve it has ended, or its job is still with the workers. -/
  rests : (s.moves ms).loop.agenda = [] → (s.moves ms).loop.outcome? c = some .cancelled ∨
    ∃ language job, (s.moves ms).gripAt c = .job language job ∧
      ∃ k ∈ (s.moves ms).workers.queue, k.promise = job
  /-- It is counted neither as built nor as failed: none of its turns counts a parse. -/
  uncounted : ∀ {before mv after}, ms = before ++ mv :: after → (s.moves before).Serves c mv →
    SameParses (s.moves before) (s.moves (before ++ [mv]))
  /-- It does not end before the job that it has handed in. -/
  waited : ∀ {o language job}, (s.moves ms).loop.outcome? c = some o → HandedIn s ms c language job →
    ∃ o', (s.moves ms).loop.outcome? job = some o'
  /-- Once it has ended it has no lock, and every lock is left to others. -/
  released : ∀ {o language}, (s.moves ms).loop.outcome? c = some o → ¬ (s.moves ms).Inside c language
  left : ∀ {o language pooled}, (s.moves ms).loop.outcome? c = some o →
    (s.moves ms).pool.get? language = some pooled → LeftTo (s.moves ms) c language pooled.lock

/-- A job that was handed in by a task that has ended has ended before. -/
theorem HandedIn.exists_outcome {language : String} {job : PromiseId} {o : Settled Reply}
    (ho : AtRest s roles) (h : HandedIn s ms t language job)
    (hout : (s.moves ms).loop.outcome? t = some o) : ∃ o', (s.moves ms).loop.outcome? job = some o' := by
  obtain ⟨_, hend⟩ := ho.atRest_moves ms
  have hlt : job < (s.moves ms).loop.promises.size := by
    obtain ⟨before, after, rfl, hg⟩ := h
    obtain ⟨_, hbefore⟩ := ho.atRest_moves before
    have hfits := hbefore.gripAt_fits t
    rw [hg] at hfits
    obtain ⟨⟨parser, source, hrole⟩, _⟩ := hfits
    rw [moves_append]
    exact (hbefore.sound.assigned.lt_size (p := job) (by simp [hrole])).trans_le (hbefore.size_moves after)
  refine (isPending_or_settled hlt).resolve_left fun hopen => ?_
  have hg := Lending.waited ho h hopen
  rw [hend.gripAt_of_outcome? hout] at hg
  cases hg

/-- Every lock is left to others by a task that has ended. -/
theorem Waiting.leftTo (h : Waiting s roles) (ho : AtRest s roles) {o : Settled Reply}
    (hout : s.loop.outcome? c = some o) {language : String} {pooled : Pooled}
    (hp : s.pool.get? language = some pooled) : LeftTo s c language pooled.lock := by
  have hfree := ho.gripAt_of_outcome? hout
  have hother : ∀ {t}, s.gripAt t ≠ .free → t ≠ c ∧ s.isFinished t = false := fun hg => by
    refine ⟨fun he => hg (he ▸ hfree), ?_⟩
    obtain ⟨point, on, hplace, _⟩ := exists_place?_of_gripAt hg
    rw [isFinished, ho.isPending_of_place? hplace]
    rfl
  cases hheld : pooled.lock.held with
  | true =>
    obtain ⟨t, ht⟩ := h.attributed.holder hp hheld
    obtain ⟨hne, hopen⟩ := hother (t := t) fun hg => by rw [hg] at ht; exact ht
    exact .held hheld hne hopen ht
  | false =>
    cases htickets : pooled.lock.tickets with
    | nil => exact .free hheld htickets
    | cons k rest =>
      have hhead : pooled.lock.tickets.head? = some k := by rw [htickets]; rfl
      obtain ⟨t, ht⟩ := h.attributed.owner hp (htickets ▸ List.mem_cons_self (a := k))
      obtain ⟨hne, hopen⟩ := hother (t := t) (by rw [ht]; simp)
      exact .handed hheld hhead ((h.hands.awake hp).called hheld k hhead) hne hopen ht

/-- **A parse that is cancelled before it has ended gives up**, and leaves nothing behind. -/
theorem gives_up (config : Config) (world : World) (eager : Bool) (stuck : Option Fault)
    (log : List LogLine) {before after : List Service.Move} {code : Code} {language : Json}
    (hc : Began (opened config world eager stuck log) before (.parse code language) c)
    (hopen : ((opened config world eager stuck log).moves before).isFinished c = false) :
    GivesUp (opened config world eager stuck log) (before ++ .act (.cancel c) :: after) c := by
  generalize hs : opened config world eager stuck log = s at *
  have ho : AtRest s fun _ => .unused := hs ▸ (Ordered.opened config world eager stuck log).rest
  have hw : Waiting s fun _ => .unused := hs ▸ .opened config world eager stuck log
  -- Where the call comes to in the course of the run.
  have hparse : ∀ {ms} {point on}, Began s ms (.parse code language) c →
      (s.moves ms).loop.place? c = some (point, on) → point.IsParse := fun {ms} _ _ hc hp =>
    stage_of_began (keeps_isParse c) (fun _ => .start code language) ho (along_of_split fun _ _ _ _ => trivial)
      hw hc hp
  obtain ⟨roles₁, ho₁, hw₁, hbecomes⟩ := exists_becomes (keeps_isParse c) (fun _ => .start code language) ho
    (along_of_split fun _ _ _ _ => trivial) hw hc
  obtain ⟨point, on, hp, hpoint⟩ := hbecomes.resolve_right fun ⟨o, hout, _⟩ => by
    rw [isFinished, isPending_of_outcome? hout] at hopen
    cases hopen
  obtain ⟨roles₂, hst⟩ := exists_step ho₁ (.act (.cancel c))
  obtain ⟨roles₃, ho₃, _, hwaiting, hdoomed⟩ := exists_atRest
    (I := fun now roles => Waiting now roles ∧ Doomed now c)
    (fun ho _ h hst => ⟨h.1.step ho hst, h.2.step ho hst⟩) after (ho₁.step hst).1
    ⟨hw₁.step ho₁ hst, .of_cancel ho₁ hp hpoint⟩
  have hstate : ((s.moves before).move (.act (.cancel c))).moves after =
      s.moves (before ++ .act (.cancel c) :: after) :=
    (moves_append s before (.act (.cancel c) :: after)).symm
  rw [hstate] at ho₃ hwaiting hdoomed
  refine ⟨hdoomed.outcome ho₃, hdoomed.rests ho₃ hwaiting, fun {b mv a} he hserves => ?_,
    fun hout hj => hj.exists_outcome ho hout, fun hout hi => ?_, fun hout hp => hwaiting.leftTo ho₃ hout hp⟩
  · obtain ⟨_, hb⟩ := ho.atRest_moves b
    obtain ⟨_, hst'⟩ := exists_step hb mv
    obtain ⟨_, hb'⟩ := ho.atRest_moves (b ++ [mv])
    rw [← move_eq] at hst'
    refine hst'.sameParses hb hserves (fun _ _ hplace => ?_) fun o hout => ?_
    · exact hparse (.of_place? ho (he ▸ hc.append _) hplace) hplace
    · refine hdoomed.outcome ho₃ ?_
      have hlater := hb'.outcome?_moves hout a
      rwa [← moves_append, List.append_assoc, List.singleton_append, ← he] at hlater
  · rw [Inside, ho₃.gripAt_of_outcome? hout] at hi
    exact hi

/-- A parse has its job with the workers, and another one waits for the lock. -/
def parsedAtOnce : List Service.Move :=
  .act (.spawn (.parse (.text "x = 1") (.str "python"))) :: List.replicate 4 (.serve 0) ++
    .act (.release 0) :: List.replicate 8 (.serve 0) ++
    .act (.release 0) :: List.replicate 8 (.serve 0) ++
    .act (.spawn (.parse (.text "x = 1") (.str "python"))) :: List.replicate 4 (.serve 0)

/-- The parse is cancelled once more before its job is done. -/
def cancelledTwice : List Service.Move :=
  List.replicate 4 (.serve 0) ++ .act (.cancel 0) :: List.replicate 4 (.serve 0) ++
    .act (.release 0) :: List.replicate 8 (.serve 0)

/-- The parse has ended in its cancellation, nothing has been counted, and the other one has the lock. -/
theorem gives_up_twice :
    Began (opened {} singleLanguage false none []) parsedAtOnce (.parse (.text "x = 1") (.str "python")) 0 ∧
      ((opened {} singleLanguage false none []).moves parsedAtOnce).isFinished 0 = false ∧
      GivesUp (opened {} singleLanguage false none [])
        (parsedAtOnce ++ .act (.cancel 0) :: cancelledTwice) 0 ∧
      ((opened {} singleLanguage false none []).moves
        (parsedAtOnce ++ .act (.cancel 0) :: cancelledTwice)).loop.isCancelled 0 = true ∧
      ((opened {} singleLanguage false none []).moves
        (parsedAtOnce ++ .act (.cancel 0) :: cancelledTwice)).counts.parses.built = 0 ∧
      (Pool.lockOf ((opened {} singleLanguage false none []).moves
        (parsedAtOnce ++ .act (.cancel 0) :: cancelledTwice)) "python").held = true := by
  have hc : Began (opened {} singleLanguage false none []) parsedAtOnce
      (.parse (.text "x = 1") (.str "python")) 0 := ⟨[], _, rfl, by decide +kernel⟩
  have hopen : ((opened {} singleLanguage false none []).moves parsedAtOnce).isFinished 0 = false := by
    decide +kernel
  exact ⟨hc, hopen, gives_up {} singleLanguage false none [] hc hopen, by decide +kernel, by decide +kernel,
    by decide +kernel⟩

end Service

end SourceTrees
