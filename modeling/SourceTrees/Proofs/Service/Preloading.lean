import SourceTrees.Proofs.Service.Gathering
import SourceTrees.Proofs.Service.Seeking

/-!
# What becomes of one language among several

Parsers for several languages are asked for at once, the engine being ready, and nobody else is at work.
Whatever becomes of the other languages, each one comes to its own fate: its parser has been in the pool, or
is made, or there is a reason of its own why it is not.

## Protocol

* Nobody is disturbed.
* All tasks that concern a language are its request and the load that the request waits for.
* What happens to other languages **bypasses** the language: its tasks, its grammar and its place in the pool
  stay as they are.

## Results

* `Service.Tranquil` — a service in good order in which nobody is disturbed.
* `Service.Fate` — what has become of a language; `Service.Sought` — how far its request has come.
* `Service.Sought.bypassed` — what happens elsewhere makes no difference.
* **`Service.Sought.comes_further`** — a turn that concerns the language brings its request further, and bypasses all
  others.
-/

set_option autoImplicit false

namespace SourceTrees.Service

open Loop

variable {S s s' : Service} {roles roles' : Roles Hook Job} {w : Woken} {m : Midst} {mv : Service.Move}
  {ms : List Service.Move} {name : String} {language other : Json} {t op q : PromiseId} {point : Stage}
  {on : Option PromiseId} {turn : Turn Stage Reply} {n : Nat} {o : Settled Reply}

/-! ## Services in which nobody is disturbed -/

theorem Move.spares_of_isQuiet (h : mv.isQuiet = true) : SparesOperations s mv := by
  cases mv with
  | act action => cases action <;> trivial
  | _ => trivial

theorem Move.not_cancels_of_isQuiet (h : mv.isQuiet = true) : ¬ s.Cancels t mv := by
  cases mv with
  | act action => cases action <;> first | exact id | cases h
  | _ => exact id

theorem Move.not_spawn_of_isQuiet (h : mv.isQuiet = true) (call : Call) : mv ≠ .act (.spawn call) := by
  rintro rfl
  cases h

/-- Everything is in order, pooled parsers are bound to kept grammars, and nobody is disturbed. -/
structure Tranquil (n : Nat) (s : Service) (roles : Roles Hook Job) : Prop extends Steady s roles where
  pooling : Pooling n s
  undisturbed : ∀ t, Undisturbed s roles t

namespace Tranquil

theorem step (h : Tranquil n s roles) (ho : AtRest s roles) (hst : Step s roles mv s' roles')
    (hsp : SparesOperations s mv) (hc : ∀ t, ¬ s.Cancels t mv) : Tranquil n s' roles' where
  toSteady := h.toSteady.step ho hst hsp
  pooling := h.pooling.step h.loaded ho hst
  undisturbed t := (h.undisturbed t).step h.settled ho hst hsp (hc t)

/-- A language whose parser is pooled has a locator and a kept grammar. -/
theorem of_pooled (h : Tranquil n s roles) (hp : s.pool.contains name = true) :
    s.config.hasLocator name = true ∧ ∃ g, Grammars.kept? s name = some g := by
  obtain ⟨-, -, x, hx, -⟩ := h.pooling.bound (parser?_of_contains hp)
  exact ⟨h.located.kept hx, x, Option.filter_eq_some_iff.2 ⟨hx, (h.loaded.loading.kept hx).1⟩⟩

end Tranquil

/-! ## What becomes of a language -/

/-- Nothing has come of the language: its place in the pool is as it was, and no parser was constructed. -/
structure LeftAlone (S s : Service) (ms : List Service.Move) (name : String) : Prop where
  pool : s.pool.get? name = S.pool.get? name
  made : ¬ Constructed S ms name

/-- What has become of a language whose parser has been asked for, since the service was the first one, and how
    the request has ended. -/
inductive Fate (S s : Service) (ms : List Service.Move) : Json → Settled Reply → Prop
  /-- The parser was in the pool before. -/
  | found {name : String} {v : Reply} (hc : S.pool.contains name = true) (hs : LeftAlone S s ms name) :
      Fate S s ms (.str name) (.value v)
  /-- The parser was not in the pool; it was constructed and is there now. -/
  | made {name : String} {v : Reply} (hn : S.pool.contains name = false)
      (hc : s.pool.contains name = true) (hm : Constructed S ms name) : Fate S s ms (.str name) (.value v)
  /-- The language has no locator. -/
  | refused {language : Json} {f : Fault} (hv : S.validate language = .error f)
      (hs : ∀ name, language = .str name → LeftAlone S s ms name) : Fate S s ms language (.failed f)
  /-- A load of the grammar was begun, and has failed with this fault; no grammar is kept. -/
  | unloaded {name : String} {op : PromiseId} {f : Fault} (hn : S.pool.contains name = false)
      (hs : LeftAlone S s ms name) (hk : Grammars.kept? s name = none) (hf : f.kind = .grammar)
      (hbegun : CameTo (· = .fetch (.start name)) S ms op) (hout : s.loop.outcome? op = some (.failed f)) :
      Fate S s ms (.str name) (.failed f)
  /-- The grammar is kept, and the engine was asked for a parser and has raised a fault. -/
  | unbound {name engine : String} {g : Grammar} {cause : Fault} {before after : List Service.Move}
      (hn : S.pool.contains name = false) (hs : LeftAlone S s ms name)
      (hk : Grammars.kept? s name = some g) (he : ms = before ++ after)
      (hb : ((Attempt.bindParser engine g).run (S.moves before).world).1 = .error cause) :
      Fate S s ms (.str name) (.failed (.unbindable name (S.config.locators.get? name) cause))

/-- How far the request for the parser of a language has come, and who else is at work on the language. -/
inductive Sought (S s : Service) (ms : List Service.Move) (roles : Roles Hook Job) (language : Json)
    (t : PromiseId) : Prop
  | begun (hp : s.loop.place? t = some (.start (.getParser language), none))
      (hw : ∀ {t' point on}, s.loop.place? t' = some (point, on) → point.concerns language → t' = t)
      (hs : ∀ name, language = .str name → LeftAlone S s ms name)
  | loading {name : String} {q op : PromiseId} (hl : language = .str name)
      (hp : s.loop.place? t = some (.parser (.grammar name (.loading name)), some q))
      (hq : roles q = .shield op)
      (hw : ∀ {t' point on}, s.loop.place? t' = some (point, on) → point.concerns language →
        t' = t ∨ t' = op)
      (hn : S.pool.contains name = false) (hs : LeftAlone S s ms name)
      (hbegun : CameTo (· = .fetch (.start name)) S ms op)
      (hk : ∀ f, s.loop.outcome? op = some (.failed f) → Grammars.kept? s name = none)
  | ended {o : Settled Reply} (hout : s.loop.outcome? t = some o)
      (hw : ∀ {t' point on}, s.loop.place? t' = some (point, on) → ¬ point.concerns language)
      (hf : Fate S s ms language o)

/-! ## What happens elsewhere -/

/-- The step from the one service to the other does nothing about the language. -/
structure Bypasses (S : Service) (ms : List Service.Move) (mv : Service.Move) (s s' : Service)
    (roles : Roles Hook Job) (language : Json) : Prop where
  stays : ∀ {t point on}, s.loop.place? t = some (point, on) → point.concerns language →
    s'.loop.place? t = some (point, on)
  came : ∀ {t point on}, s'.loop.place? t = some (point, on) → point.concerns language →
    s.loop.place? t = some (point, on)
  ended : ∀ {t o}, s.loop.outcome? t = some o → s'.loop.outcome? t = some o
  failed : ∀ {name op f}, language = .str name → roles op = .operation (.grammar name) →
    s'.loop.outcome? op = some (.failed f) → s.loop.outcome? op = some (.failed f)
  pool : ∀ {name}, language = .str name → s'.pool.get? name = s.pool.get? name
  kept : ∀ {name}, language = .str name → Grammars.kept? s' name = Grammars.kept? s name
  made : ∀ {name}, language = .str name → Constructed S (ms ++ [mv]) name → Constructed S ms name

theorem contains_congr (h : s'.pool.get? name = s.pool.get? name) :
    s'.pool.contains name = s.pool.contains name := by
  rw [Keyed.contains, h, Keyed.contains]

theorem LeftAlone.bypassed (h : LeftAlone S s ms name) (hb : Bypasses S ms mv s s' roles (.str name)) :
    LeftAlone S s' (ms ++ [mv]) name :=
  ⟨(hb.pool rfl).trans h.pool, fun hm => h.made (hb.made rfl hm)⟩

/-- What has become of a language stays so. -/
theorem Fate.bypassed (h : Fate S s ms language o) (hb : Bypasses S ms mv s s' roles language) :
    Fate S s' (ms ++ [mv]) language o := by
  cases h with
  | found hc hs => exact .found hc (hs.bypassed hb)
  | made hn hc hm => exact .made hn (contains_congr (hb.pool rfl) ▸ hc) (hm.append [mv])
  | refused hv hs =>
    refine .refused hv fun name hl => ?_
    subst hl
    exact (hs name rfl).bypassed hb
  | unloaded hn hs hk hf hbegun hout =>
    exact .unloaded hn (hs.bypassed hb) ((hb.kept rfl).trans hk) hf (hbegun.append [mv]) (hb.ended hout)
  | @unbound name engine g cause before after hn hs hk he hc =>
    have hsplit : ms ++ [mv] = before ++ (after ++ [mv]) := by rw [he, List.append_assoc]
    exact .unbound hn (hs.bypassed hb) ((hb.kept rfl).trans hk) hsplit hc

/-- **What happens elsewhere makes no difference to a request.** -/
theorem Sought.bypassed (h : Sought S s ms roles language t) (ho : AtRest s roles)
    (hst : Step s roles mv s' roles') (hb : Bypasses S ms mv s s' roles language) :
    Sought S s' (ms ++ [mv]) roles' language t := by
  obtain ⟨-, hext⟩ := ho.step hst
  cases h with
  | begun hp hw hs =>
    refine .begun (hb.stays hp rfl) (fun hp' hc => hw (hb.came hp' hc) hc) fun name hl => ?_
    subst hl
    exact (hs name rfl).bypassed hb
  | loading hl hp hq hw hn hs hbegun hk =>
    subst hl
    have hop := (Asking.getParser (.loading _) rfl).operation ho hp hq
    exact .loading rfl (hb.stays hp rfl) (hext.eq hq (by simp)) (fun hp' hc => hw (hb.came hp' hc) hc) hn
      (hs.bypassed hb) (hbegun.append [mv]) fun f hf => (hb.kept rfl).trans (hk f (hb.failed rfl hop hf))
  | ended hout hw hf =>
    exact .ended (hb.ended hout) (fun hp' hc => hw (hb.came hp' hc) hc) (hf.bypassed hb)

/-- What happens between turns bypasses all languages. -/
theorem Aside.bypasses (ha : Aside s roles s' roles') (ho : AtRest s roles) (hst : Step s roles mv s' roles')
    (hnone : s.turnOf? mv = none) (hmv : ∀ call, mv ≠ .act (.spawn call)) (hnow : S.moves ms = s) :
    Bypasses S ms mv s s' roles language where
  stays hp _ := ha.stays hp
  came hp _ := hst.place?_of_aside hnone hmv hp
  ended hout := hst.outcome?_of_some hout
  failed _ hop hf :=
    (ha.outcome?_operation ho hst ((ho.step hst).2.eq hop (by simp))).2.2 ▸ hf
  pool _ := by rw [ha.pool]
  kept {name} _ := by rw [Grammars.kept?, ha.grammars, Grammars.kept?]
  made _ hm := hm.of_other fun w hsome => by
    rw [hnow] at hsome
    cases hnone.symm.trans hsome

/-- A grammar is kept as before unless it has been fetched. -/
theorem HasTurn.kept?_eq (ht : HasTurn s roles w m turn)
    (hs : ∀ locator, w.stage ≠ .fetch (.fetching name locator)) :
    Grammars.kept? m.service name = Grammars.kept? s name := by
  obtain ⟨hbefore, -⟩ := ht.knows_before
  have hall : ∀ {m'}, Strides w ⟨w.before, roles, w.stage.grip⟩ m' →
      m'.service.grammars.get? name = w.before.grammars.get? name := by
    intro m' hst
    induction hst with
    | refl => rfl
    | tail _ hstep ih =>
      rcases hstep.grammars_cases with he | ⟨l, locator, r, hl, -, -, he⟩
      · rw [he]
        exact ih
      · rw [he, Keyed.get?_put, if_neg]
        · exact ih
        · rintro rfl
          exact hs locator hl
  rw [Grammars.kept?, hall ht.strides, hbefore.grammars, Grammars.kept?]

section

variable (ho : AtRest s roles) (ht : HasTurn s roles w m turn)
  (hst : Step s roles mv (m.after w.task turn) m.roles)

include ho ht hst

/-- A turn bypasses a language if neither the task concerns it nor what it goes on with or starts. -/
theorem HasTurn.bypasses (hnow : S.moves ms = s) (hsome : s.turnOf? mv = some w) {X : Stage → Prop}
    (hstage : ¬ w.stage.concerns language)
    (hnext : ∀ {point on}, (m.after w.task turn).loop.place? w.task = some (point, on) →
      ¬ point.concerns language)
    (hx : Starts X w.before m.service) (hX : ∀ point, X point → ¬ point.concerns language)
    (hpool : ∀ name, language = .str name → m.service.pool.get? name = w.before.pool.get? name) :
    Bypasses S ms mv s (m.after w.task turn) roles language where
  stays {t point on} hp hc := by
    refine ht.stays ho (fun he => hstage ?_) hp
    obtain ⟨on', hplace⟩ := ht.place
    rw [he, hplace] at hp
    cases hp
    exact hc
  came {t point on} hp hc := by
    by_cases he : t = w.task
    · exact absurd hc (hnext (he ▸ hp))
    · exact (ht.place_cases hx he hp).resolve_right fun h => hX point h.2 hc
  ended hout := ht.outcome?_of_some hout
  failed {name op f} hl hop hf := by
    obtain ⟨-, hold | ⟨he, -⟩⟩ := ht.ended_cases ho ((ho.step hst).2.eq hop (by simp)) hf
    · exact hold
    · obtain ⟨on', hplace⟩ := ht.place
      refine absurd (Stage.concerns_of_role ?_) (hl ▸ hstage)
      exact (ho.placed hplace).role.symm.trans (he ▸ hop)
  pool {name} hl := (hpool name hl).trans (by rw [ht.knows_before.2.1])
  kept {name} hl := ht.kept?_eq fun locator hs => hstage (by rw [hs, hl]; rfl)
  made {name} hl hm := hm.of_other fun w' hsome' hc => by
    rw [hnow, hsome] at hsome'
    cases hsome'
    exact hstage (hl ▸ hc)

/-- A turn starts no boot where the engine is ready. -/
theorem HasTurn.starts_load (hp : Tranquil n s roles) (hp' : Tranquil n (m.after w.task turn) m.roles)
    (hready : s.phase = .ready) (hx : Starts (Opens name) w.before m.service) :
    Starts (fun point => point.concerns (.str name)) w.before m.service := by
  intro t point on hplace
  rcases hx t point on hplace with hold | ⟨rfl, rfl | rfl⟩
  · exact .inl hold
  · refine .inl ?_
    by_cases he : t = w.task
    · -- The task itself rests in the middle of its turn where it did at its beginning.
      obtain ⟨task, given, hget, -⟩ := ht.started.woken
      have hm := Strides.get?_tasks (t := t) ht.strides (he ▸ ht.started.ordered.sound.known hget)
      exact (congrArg (Option.map _) hm).symm.trans hplace
    · exfalso
      have hafter : (m.after w.task turn).loop.place? t = some (.boot .start, none) := by
        show (Program.conclude w.task turn m.service.loop).place? t = _
        rw [place?_conclude, if_neg he]
        exact hplace
      obtain ⟨ho', -⟩ := ho.step hst
      have hkept := EngineKept.of_hasTurn hp.loaded.engined.booting ht (hp.loaded.engined.bootsWell ht) hready
      exact hp'.loaded.engined.booting.not_ready (ho'.placed hafter).role (ho'.isPending_of_place? hafter)
        hkept.phase
  · exact .inr ⟨rfl, rfl⟩

end

/-! ## The turns of the request and of its load -/

/-- A step that leaves the pool alone leaves every language alone. -/
theorem LeftAlone.stays (h : LeftAlone S s ms name) (hnow : S.moves ms = s) (hnext : S.moves (ms ++ [mv]) = s')
    (hp : Tranquil n s roles) (hp' : Tranquil n s' roles') (hpool : s'.pool = s.pool) :
    LeftAlone S s' (ms ++ [mv]) name := by
  subst hnow hnext
  exact ⟨by rw [hpool]; exact h.pool, fun hm => h.made (hm.of_parser? hp.pooling hp'.pooling hpool)⟩

/-- What the turn of a task that concerns the language has come to. -/
structure TurnedOn (S s : Service) (ms : List Service.Move) (mv : Service.Move) (s' : Service)
    (roles roles' : Roles Hook Job) (language : Json) (t : PromiseId) : Prop where
  sought : Sought S s' (ms ++ [mv]) roles' language t
  others : ∀ {other}, other ≠ language → Bypasses S ms mv s s' roles other
  work : ∀ {t' point on}, s'.loop.place? t' = some (point, on) →
    s.loop.place? t' = some (point, on) ∨ point.concerns language

/-- Where nobody but the request is at work on the language, no load of it is. -/
theorem HasTurn.no_load (ht : HasTurn s roles w m turn) (hcall : w.stage.role = .call)
    (hw : ∀ {t' point on}, s.loop.place? t' = some (point, on) → point.concerns (.str name) → t' = w.task)
    (hplace : s.loop.place? t = some (point, on)) : point.role ≠ .operation (.grammar name) := by
  intro hrole
  obtain rfl := hw hplace (Stage.concerns_of_role hrole)
  obtain ⟨on', hown⟩ := ht.place
  cases hown.symm.trans hplace
  cases hcall.symm.trans hrole

section

variable (ho : AtRest s roles) (ht : HasTurn s roles w m turn)
  (hst : Step s roles mv (m.after w.task turn) m.roles) (hnow : S.moves ms = s)
  (hnext : S.moves (ms ++ [mv]) = m.after w.task turn) (hsome : s.turnOf? mv = some w)
  (hc : w.stage.concerns language)

include ho ht hst hnow hsome hc

/-- The turn goes on with the language, and leaves the pool alone but for it. -/
theorem HasTurn.turnedOn
    (hgoes : ∀ {point on}, (m.after w.task turn).loop.place? w.task = some (point, on) →
      point.concerns language)
    (hx : Starts (fun point => point.concerns language) w.before m.service)
    (hpool : ∀ name, language ≠ .str name → m.service.pool.get? name = w.before.pool.get? name)
    (hs : Sought S (m.after w.task turn) (ms ++ [mv]) m.roles language t) :
    TurnedOn S s ms mv (m.after w.task turn) roles m.roles language t where
  sought := hs
  others {other} hne := by
    have hother : ∀ {point : Stage}, point.concerns language → ¬ point.concerns other := fun h h' =>
      hne (Stage.concerns_unique h' h)
    exact ht.bypasses ho hst hnow hsome (hother hc) (fun hp => hother (hgoes hp)) hx (fun _ => hother)
      fun name hl => hpool name fun he => hne (hl.trans he.symm)
  work {t' point on} hp := by
    by_cases he : t' = w.task
    · exact .inr (hgoes (he ▸ hp))
    · exact (ht.place_cases hx he hp).imp_right And.right

/-- The request has ended. -/
theorem HasTurn.turnedOn_finish {result : Except Fault Reply} (hturn : turn = .finish result)
    (hx : m.service.loop.tasks = w.before.loop.tasks)
    (hw : ∀ {t' point on}, s.loop.place? t' = some (point, on) → point.concerns language → t' = w.task)
    (hpool : ∀ name, language ≠ .str name → m.service.pool.get? name = w.before.pool.get? name)
    (hf : Fate S (m.after w.task turn) (ms ++ [mv]) language (Program.ended result)) :
    TurnedOn S s ms mv (m.after w.task turn) roles m.roles language w.task := by
  have hgone : ∀ {point on}, (m.after w.task turn).loop.place? w.task ≠ some (point, on) := by
    intro point on hp
    rw [hturn, place?_conclude, if_pos rfl] at hp
    cases hp
  refine ht.turnedOn ho hst hnow hsome hc (fun hp => absurd hp hgone) (.of_tasks hx) hpool ?_
  have hout := ht.outcome?_of_finish (congrArg Prod.fst ht.resumed |>.trans hturn)
  refine .ended hout (fun {t' point on} hp hc' => ?_) hf
  by_cases he : t' = w.task
  · exact hgone (he ▸ hp)
  · exact he (hw ((ht.place_cases (X := fun _ => False) (.of_tasks hx) he hp).resolve_right And.right) hc')

variable (hp : Tranquil n s roles) (hp' : Tranquil n (m.after w.task turn) m.roles) (hready : s.phase = .ready)
  (hconfig : s.config = S.config)
  (hw : ∀ {t' point on}, s.loop.place? t' = some (point, on) → point.concerns language → t' = w.task)

include hnext hp hw hp' hready hconfig

/-- The request has found the parser, has made it or not, or waits for the load that it has started. -/
theorem HasTurn.turnedOn_seeks (hl : language = .str name) (hcall : w.stage.role = .call)
    (hseeks : Seeks w.before name turn m.service) (hx : Starts (Opens name) w.before m.service)
    (hleft : LeftAlone S s ms name) :
    TurnedOn S s ms mv (m.after w.task turn) roles m.roles language w.task := by
  subst hl
  obtain ⟨hbefore, hpoolBefore, hworld, -⟩ := ht.knows_before
  have hknows : ∀ {s'}, Knows w.before s' → Grammars.kept? s' name = Grammars.kept? s name := fun hs =>
    (hs.kept? name).trans (hbefore.kept? name)
  -- What is in the pool for the language is in it since the beginning.
  have hpooled : ∀ {b}, w.before.pool.contains name = b → S.pool.contains name = b := fun h => by
    rw [← h, hpoolBefore]
    exact (contains_congr hleft.pool).symm
  have hstays : m.service.pool = w.before.pool → LeftAlone S (m.after w.task turn) (ms ++ [mv]) name :=
    fun hpool => hleft.stays hnow hnext hp hp' (hpool.trans hpoolBefore)
  obtain ⟨turn', s', hturn, hs', hseeks⟩ : ∃ turn' s', turn = turn' ∧ m.service = s' ∧
      Seeks w.before name turn' s' := ⟨_, _, rfl, rfl, hseeks⟩
  cases hseeks with
  | here hcontains hs hpool hloop =>
    subst hs'
    exact ht.turnedOn_finish ho hst hnow hsome hc hturn (congrArg _ hloop) hw (fun _ _ => by rw [hpool])
      (.found (hpooled hcontains) (hstays hpool))
  | @loads p _ hn hs hpool =>
    subst hs'
    obtain ⟨op, point', hshield, hop, hplace, hopens⟩ := ht.starts_operation ho hst hx
      (fun hplace => ht.no_load hcall hw hplace) rfl hturn rfl
    obtain ⟨ho', -⟩ := ho.step hst
    have hpoint : point' = .fetch (.start name) := by
      refine hopens.resolve_left fun he => ?_
      cases ((he ▸ ho'.placed hplace).role.symm.trans hop)
    subst hpoint
    have hopen := ho'.isPending_of_place? hplace
    have hx' := ht.starts_load ho hst hp hp' hready hx
    have hown : (m.after w.task turn).loop.place? w.task =
        some (.parser (.grammar name (.loading name)), some p) := by
      rw [hturn, place?_conclude, if_pos rfl]
    have hgoes : ∀ {point on}, (m.after w.task turn).loop.place? w.task = some (point, on) →
        point.concerns (.str name) := fun hp => by
      cases hown.symm.trans hp
      rfl
    refine ht.turnedOn ho hst hnow hsome hc hgoes hx' (fun _ _ => by rw [hpool]) ?_
    refine .loading rfl hown hshield (fun {t' point on} hp' hc' => ?_) (hpooled hn)
      (hstays hpool) (.now (hnext ▸ hplace) rfl) fun f hf => ?_
    · by_cases he : t' = w.task
      · exact .inl he
      · rcases ht.place_cases hx he hp' with hold | ⟨rfl, hopens⟩
        · exact .inl (hw hold hc')
        · -- Two loads of one language are not at work at a time.
          have hrole : m.roles t' = .operation (.grammar name) := by
            rcases hopens with rfl | rfl
            · exact hc'.elim
            · exact (ho'.placed hp').role
          exact .inr (ho'.load_unique hrole (ho'.isPending_of_place? hp') hop hopen)
    · rw [outcome?_of_isPending hopen] at hf
      cases hf
  | @made engine g parser r _ hn hk hb hs hpool hloop =>
    subst hs'
    have hcontains : (m.after w.task turn).pool.contains name = true := by
      show m.service.pool.contains name = true
      rw [hpool]
      exact contains_of_get? ((Keyed.get?_put ..).trans (if_pos rfl))
    obtain ⟨x, rfl⟩ := Option.isSome_iff_exists.1 (Option.filter_eq_some_iff.1 hk).2
    have hbound : (Attempt.bindParser engine (some x)).run (S.moves ms).world =
        (.ok parser, (S.moves (ms ++ [mv])).world) := by
      rw [hnow, hnext, ← hworld]
      exact hb
    refine ht.turnedOn_finish ho hst hnow hsome hc hturn (congrArg _ hloop) hw (fun other hne => ?_)
      (.made (hpooled hn) hcontains (.now (hnow ▸ hsome) hc hbound))
    rw [hpool, Keyed.get?_put, if_neg]
    rintro rfl
    exact hne rfl
  | @unbound engine g f _ hn hk hb hs hpool hloop =>
    subst hs'
    have hwell := World.RaisesWell.bindParser engine g w.before.world (by rw [hworld]; exact hp.settled.world)
    unfold Attempt.Ended at hwell
    rw [hb] at hwell
    have hordinary : f.kind.isOrdinary = true := hwell.1
    rw [Pool.raised, if_pos hordinary, hbefore.config, hconfig] at hturn
    refine ht.turnedOn_finish ho hst hnow hsome hc hturn (congrArg _ hloop) hw (fun _ _ => by rw [hpool]) ?_
    refine @Fate.unbound S _ _ name engine g f ms [mv] (hpooled hn) (hstays hpool)
      ((hknows hs).trans (hbefore.kept? name ▸ hk)) rfl ?_
    rw [hnow, ← hworld, hb]

/-- The request begins. -/
theorem HasTurn.turnedOn_start (hs : w.stage = .start (.getParser language))
    (hleft : ∀ name, language = .str name → LeftAlone S s ms name) :
    TurnedOn S s ms mv (m.after w.task turn) roles m.roles language w.task := by
  obtain ⟨hbefore, hpoolBefore, hworld, -⟩ := ht.knows_before
  have hgiven : w.given = .ok default := ht.given_start (hp.undisturbed _) (by rw [hs]; rfl)
  have hres := ht.resumed
  rw [hs, hgiven] at hres
  rcases asks_or_refused (rfl : (Call.getParser language).asked? = some language) w.before with
    ⟨name, ha⟩ | ⟨f, hr, hresume⟩
  · cases ha with
    | getParser hv =>
      obtain ⟨engine, he⟩ := hp.loaded.engine?_of_ready hready
      have hseeks := seeks_start (hbefore.phase.trans hready) (hbefore.engine?.trans he) hv default
      have hx := Calls.starts_start (.getParser hv) w.before
      change Starts (Opens _) w.before (Calls.resume (.start (.getParser _)) (.ok default) w.before).2 at hx
      rw [hres] at hseeks hx
      exact ht.turnedOn_seeks ho hst hnow hnext hsome hc hp hp' hready hconfig hw rfl (by rw [hs]; rfl) hseeks
        hx (hleft _ rfl)
  · rw [hresume] at hres
    obtain ⟨rfl, hservice⟩ := Prod.mk.inj hres
    refine ht.turnedOn_finish ho hst hnow hsome hc rfl (by rw [hservice]) hw (fun _ _ => by rw [hservice]) ?_
    rw [Program.ended, if_neg hr.kind_ne_cancelled]
    cases hr with
    | language hcall hv =>
      cases hcall
      refine .refused (((Foreknown.validate_congr (hbefore.config.trans hconfig) _).symm).trans hv)
        fun name hl => (hleft name hl).stays hnow hnext hp hp' ?_
      show m.service.pool = _
      rw [← hservice, hpoolBefore]

/-- The request goes on when its load has ended. -/
theorem HasTurn.turnedOn_loaded (hl : language = .str name)
    (hs : w.stage = .parser (.grammar name (.loading name)))
    (hplace : s.loop.place? w.task = some (w.stage, some q)) (hq : roles q = .shield op)
    (hn : S.pool.contains name = false) (hleft : LeftAlone S s ms name)
    (hbegun : CameTo (· = .fetch (.start name)) S ms op)
    (hk : ∀ f, s.loop.outcome? op = some (.failed f) → Grammars.kept? s name = none) :
    TurnedOn S s ms mv (m.after w.task turn) roles m.roles language w.task := by
  subst hl
  obtain ⟨hbefore, hpoolBefore, hworld, -⟩ := ht.knows_before
  have hasking : Asking name (.getParser (.str name)) (.grammar name) w.stage :=
    hs ▸ .getParser (.loading name) rfl
  have hrole := hasking.operation ho hplace hq
  obtain ⟨o, hout, hne, hgiven⟩ := ht.given_undisturbed (hp.undisturbed _) hplace
  have hended := (ho.sound.assigned.taken hq hout).resolve_left hne
  have hres := ht.resumed
  rcases hp.loaded.loading.ended hrole hended with ⟨x, rfl, hx⟩ | ⟨f, rfl, hf⟩
  · obtain ⟨engine, he⟩ := hp.loaded.engine?_of_ready hready
    rw [hs, hgiven] at hres
    have hkept : Grammars.kept? w.before name = some (Reply.grammar x).toGrammar := by
      rw [hbefore.kept?]
      exact Option.filter_eq_some_iff.2 ⟨hx, (hp.loaded.loading.kept hx).1⟩
    have hnone : w.before.pool.contains name = false := by
      rw [hpoolBefore, contains_congr hleft.pool, hn]
    have hseeks := seeks_loaded (hbefore.engine?.trans he) hnone hkept
    have hstarts := Calls.starts_asking (hs ▸ hasking) (.ok (.grammar x)) w.before
    change Calls.resume _ (.ok (.grammar x)) w.before = _ at hres
    rw [hres] at hseeks hstarts
    exact ht.turnedOn_seeks ho hst hnow hnext hsome hc hp hp' hready hconfig hw rfl hasking.role hseeks hstarts
      hleft
  · rw [hgiven] at hres
    obtain ⟨rfl, hservice⟩ := Prod.mk.inj ((resume_asking_error hasking f).symm.trans hres)
    refine ht.turnedOn_finish ho hst hnow hsome hc rfl (by rw [hservice]) hw (fun _ _ => by rw [hservice]) ?_
    rw [Program.ended, if_neg (by simp [hf])]
    refine .unloaded hn (hleft.stays hnow hnext hp hp' ?_) ?_ hf (hbegun.append [mv])
      (hst.outcome?_of_some hended)
    · show m.service.pool = _
      rw [← hservice, hpoolBefore]
    · show Grammars.kept? m.service name = none
      rw [← hservice, hbefore.kept?]
      exact hk f hended

omit hready hconfig hw in
/-- The load goes on that the request waits for. -/
theorem HasTurn.turnedOn_load (hl : language = .str name)
    (hplace : s.loop.place? t = some (.parser (.grammar name (.loading name)), some q))
    (hq : roles q = .shield w.task)
    (hw : ∀ {t' point on}, s.loop.place? t' = some (point, on) → point.concerns language →
      t' = t ∨ t' = w.task)
    (hn : S.pool.contains name = false) (hleft : LeftAlone S s ms name)
    (hbegun : CameTo (· = .fetch (.start name)) S ms w.task) :
    TurnedOn S s ms mv (m.after w.task turn) roles m.roles language t := by
  subst hl
  obtain ⟨ho', hext⟩ := ho.step hst
  obtain ⟨-, hpoolBefore, hworld, -⟩ := ht.knows_before
  have hop := (Asking.getParser (.loading name) rfl).operation ho hplace hq
  obtain ⟨on, hown⟩ := ht.place
  have hrole : w.stage.role = .operation (.grammar name) := (ho.placed hown).role.symm.trans hop
  have hne : t ≠ w.task := by
    rintro rfl
    cases (ho.placed hplace).role.symm.trans hop
  have hx : Starts (fun _ => False) w.before m.service := by
    have hx := Calls.starts_operation (X := fun _ => False) hrole w.given w.before
    rwa [ht.resumed] at hx
  have hremote : Remote w.before m.service := by
    obtain ⟨point, hs⟩ := Stage.exists_of_role_grammar hrole
    have hr := @Calls.remote_resume w.stage (by rw [hs]; rfl) (by rw [hs]; rfl) w.given w.before
    rwa [ht.resumed] at hr
  have hgoes : ∀ {point on}, (m.after w.task turn).loop.place? w.task = some (point, on) →
      point.concerns (.str name) := fun hp =>
    Stage.concerns_of_role ((ho'.placed hp).role.symm.trans (hext.eq hop (by simp)))
  refine ht.turnedOn ho hst hnow hsome hc hgoes (fun t' point on hp => (hx t' point on hp).imp_right
    fun h => h.2.elim) (fun _ _ => by rw [hremote.pool]) ?_
  refine .loading rfl (ht.stays ho hne hplace) (hext.eq hq (by simp)) (fun {t' point on} hp hc' => ?_) hn
    (hleft.stays hnow hnext hp hp' (hremote.pool.trans hpoolBefore)) (hbegun.append [mv]) fun f hf => ?_
  · by_cases he : t' = w.task
    · exact .inr he
    · exact hw ((ht.place_cases hx he hp).resolve_right And.right) hc'
  · obtain ⟨-, hold | ⟨-, result, hturn, he⟩⟩ := ht.ended_cases ho (hext.eq hop (by simp)) hf
    · rw [outcome?_of_isPending (ho.isPending_of_place? hown)] at hold
      cases hold
    · obtain rfl := Program.eq_error_of_ended he.symm
      exact ht.load_unkept hp.loaded hrole hturn

omit hw in
/-- **A turn that concerns the language brings its request further, and bypasses all others.** -/
theorem Sought.comes_further (h : Sought S s ms roles language t) :
    TurnedOn S s ms mv (m.after w.task turn) roles m.roles language t := by
  obtain ⟨on, hplace⟩ := ht.place
  cases h with
  | begun hpt hw hs =>
    obtain rfl := hw hplace hc
    obtain ⟨hstage, -⟩ := Prod.mk.inj (Option.some.inj (hplace.symm.trans hpt))
    exact ht.turnedOn_start ho hst hnow hnext hsome hc hp hp' hready hconfig hw hstage hs
  | loading hl hpt hq hw hn hs hbegun hk =>
    rcases hw hplace hc with rfl | rfl
    · obtain ⟨hstage, rfl⟩ := Prod.mk.inj (Option.some.inj (hplace.symm.trans hpt))
      -- Its load has ended.
      obtain ⟨o, hout, hne, -⟩ := ht.given_undisturbed (hp.undisturbed _) hplace
      have hended := (ho.sound.assigned.taken hq hout).resolve_left hne
      refine ht.turnedOn_loaded ho hst hnow hnext hsome hc hp hp' hready hconfig (fun hp hc => ?_) hl hstage
        hplace hq hn hs hbegun hk
      refine (hw hp hc).resolve_right ?_
      rintro rfl
      rw [outcome?_of_isPending (ho.isPending_of_place? hp)] at hended
      cases hended
    · exact ht.turnedOn_load ho hst hnow hnext hsome hc hp hp' hl hpt hq hw hn hs hbegun
  | ended hout hw hf => exact absurd hc (hw hplace)

end

end SourceTrees.Service
