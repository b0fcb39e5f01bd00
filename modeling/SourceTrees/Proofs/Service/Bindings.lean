import SourceTrees.Proofs.Service.OneParser
import SourceTrees.Proofs.Service.ParserJobs

/-!
# Grammars and the parsers bound to them

Whatever grammars are compiled, null ones among them, a parser is bound to a grammar that was kept for its
language.  A null grammar may give place to another one; any other grammar that is kept stays.

## Results

* `Service.fetchBegins`, `Service.resumeFetch_cases` — the turns of a load.
* `Service.Bound` — the invariant, kept by every step, whoever is cancelled.
-/

set_option autoImplicit false

namespace SourceTrees.Service

open Loop

variable {s s' : Service} {roles roles' : Roles Hook Job} {w : Woken} {m m' : Midst} {mv : Service.Move}
  {ms : List Service.Move} {t : PromiseId} {turn : Turn Stage Reply} {language : String} {p : Nat}
  {g : Grammar} {busy : Option PromiseId} {base : Nat}

/-- The grammar was kept for the language at some time of the run. -/
abbrev WasKept (s : Service) (ms : List Service.Move) (language : String) (g : Grammar) : Prop :=
  Sometime (fun s => s.grammars.get? language = some g) s ms

/-- One load of a language at most is unfinished. -/
theorem Ordered.load_unique (h : Ordered busy base s roles) {op op' : PromiseId}
    (hr : roles op = .operation (.grammar language)) (hp : s.loop.isPending op = true)
    (hr' : roles op' = .operation (.grammar language)) (hp' : s.loop.isPending op' = true) :
    op = op' :=
  Option.some.inj ((h.load.current hr hp).symm.trans (h.load.current hr' hp'))

/-! ## The turns of a load -/

/-- What the beginning of a load comes to. -/
inductive FetchBegins (s : Service) (language : String) : Turn FetchStage Grammar → Service → Prop
  | kept {g : Grammar} (hk : Grammars.kept? s language = some g) :
      FetchBegins s language (.finish (.ok g)) s
  | engineless {f : Fault} (hk : Grammars.kept? s language = none) (he : s.engine? = .error f) :
      FetchBegins s language (.finish (.error f)) s
  | refused {counts : Counts} {log : List LogLine} (hk : Grammars.kept? s language = none)
      (hd : s.workers.dismissed = true) :
      FetchBegins s language
        (.finish (.error (Grammars.raised language ((s.config.locators.get? language).getD "")
          .poolClosed)))
        { s with counts, log }
  | fetching {engine : String} (hk : Grammars.kept? s language = none) (he : s.engine? = .ok engine) :
      FetchBegins s language
        (.rest s.loop.promises.size
          (.fetching language ((s.config.locators.get? language).getD "")))
        (Work.handedIn s s.setupCrew
          (.grammar engine ((s.config.locators.get? language).getD "")))

theorem fetchFailed_eq (language locator : String) (f : Fault) (s : Service) :
    ∃ counts log, Grammars.fetchFailed language locator f s =
      (.finish (.error (Grammars.raised language locator f)), { s with counts, log }) := by
  unfold Grammars.fetchFailed Grammars.raised
  split
  · exact ⟨_, _, rfl⟩
  · exact ⟨_, _, rfl⟩

theorem fetchBegins {turn : Turn FetchStage Grammar} (h : Grammars.startFetch language s = (turn, s')) :
    FetchBegins s language turn s' := by
  unfold Grammars.startFetch at h
  simp only [Work.run_bind, Work.run_get] at h
  cases hk : Grammars.kept? s language with
  | some g =>
    rw [hk] at h
    cases h
    exact .kept hk
  | none =>
    rw [hk] at h
    cases he : s.engine? with
    | error f =>
      rw [he] at h
      cases h
      exact .engineless hk he
    | ok engine =>
      rw [he] at h
      simp only [Work.run_bind, Work.submit_eq] at h
      by_cases hc : s.setupCrew = .own ∧ s.workers.dismissed = true
      · rw [if_pos hc] at h
        obtain ⟨counts, log, hf⟩ := fetchFailed_eq language ((s.config.locators.get? language).getD "")
          .poolClosed s
        cases hf.symm.trans h
        exact .refused hk hc.2
      · rw [if_neg hc] at h
        cases h
        exact .fetching hk he

/-- A load that is at work ends: with the grammar, or with the fault that the fetch has met. -/
theorem resumeFetching_error (language locator : String) (f : Fault) (s : Service) :
    ∃ counts log, Grammars.resumeFetch (.fetching language locator) (.error f) s =
      (.finish (.error (Grammars.raised language locator f)), { s with counts, log }) :=
  fetchFailed_eq language locator f s

/-- What the turn of a load does to the grammars: it leaves them alone, or keeps one and ends. -/
theorem resumeFetch_cases (point : FetchStage) (given : Except Fault Reply) (s : Service) :
    (Grammars.resumeFetch point given s).2.grammars = s.grammars ∨
      ∃ language locator r, point = .fetching language locator ∧ given = .ok r ∧
        (Grammars.resumeFetch point given s).2.grammars = s.grammars.put language r.toGrammar := by
  cases point with
  | fetching language locator =>
    cases given with
    | ok r => exact .inr ⟨language, locator, r, rfl, rfl, rfl⟩
    | error f =>
      obtain ⟨counts, log, h⟩ := resumeFetching_error language locator f s
      exact .inl (by rw [h])
  | start language =>
    refine .inl ?_
    cases given with
    | error f => rfl
    | ok r =>
      show (Grammars.startFetch language s).2.grammars = _
      obtain ⟨turn, s', h⟩ : ∃ turn s', Grammars.startFetch language s = (turn, s') := ⟨_, _, rfl⟩
      rw [h]
      cases fetchBegins h with
      | fetching => exact Work.known_handedIn.2.2.2.1
      | _ => rfl

/-- A load that ends well ends with a grammar that is kept. -/
theorem resumeFetch_finish {point : FetchStage} {given : Except Fault Reply}
    (h : (Grammars.resumeFetch point given s).1 = .finish (.ok g)) :
    ∃ language, (Stage.fetch point).role = .operation (.grammar language) ∧
      (Grammars.resumeFetch point given s).2.grammars.get? language = some g := by
  cases point with
  | fetching language locator =>
    refine ⟨language, rfl, ?_⟩
    cases given with
    | ok r =>
      cases h
      exact (Keyed.get?_put ..).trans (if_pos rfl)
    | error f =>
      obtain ⟨counts, log, he⟩ := resumeFetching_error language locator f s
      rw [he] at h
      cases h
  | start language =>
    refine ⟨language, rfl, ?_⟩
    cases given with
    | error f => cases h
    | ok r =>
      change (Grammars.startFetch language s).1 = _ at h
      show (Grammars.startFetch language s).2.grammars.get? language = _
      obtain ⟨turn, s', hb⟩ : ∃ turn s', Grammars.startFetch language s = (turn, s') := ⟨_, _, rfl⟩
      rw [hb] at h ⊢
      cases h
      cases fetchBegins hb with
      | kept hk => exact get?_of_kept? hk

/-- A load comes to rest with a fetch only for want of a kept grammar. -/
theorem resumeFetch_rest {point : FetchStage} {given : Except Fault Reply} {on : PromiseId}
    {locator : String}
    (h : (Grammars.resumeFetch point given s).1 = .rest on (.fetching language locator)) :
    Grammars.kept? s language = none ∧ (Grammars.resumeFetch point given s).2.grammars = s.grammars := by
  cases point with
  | fetching l locator' =>
    cases given with
    | ok r => cases h
    | error f =>
      obtain ⟨counts, log, he⟩ := resumeFetching_error l locator' f s
      rw [he] at h
      cases h
  | start l =>
    cases given with
    | error f => cases h
    | ok r =>
      change (Grammars.startFetch l s).1 = _ at h
      show _ ∧ (Grammars.startFetch l s).2.grammars = _
      obtain ⟨turn, s', hb⟩ : ∃ turn s', Grammars.startFetch l s = (turn, s') := ⟨_, _, rfl⟩
      rw [hb] at h ⊢
      cases h
      generalize hl : Turn.rest on (FetchStage.fetching language locator) = turn at hb
      cases fetchBegins hb with
      | fetching hk he =>
        cases hl
        exact ⟨hk, Work.known_handedIn.2.2.2.1⟩
      | _ => cases hl

/-- A load that ends well replies its grammar. -/
theorem HasTurn.finished_fetch {point : FetchStage} (ht : HasTurn s roles w m turn)
    (hs : w.stage = .fetch point) :
    m.service = (Grammars.resumeFetch point w.given w.before).2 ∧ ∀ r, turn = .finish (.ok r) →
      ∃ g, (Grammars.resumeFetch point w.given w.before).1 = .finish (.ok g) ∧ r = .grammar g := by
  refine ⟨(ht.resumed_fetch hs).1, fun r hr => ?_⟩
  have hres := ht.resumed
  rw [hs, hr] at hres
  have heq : Calls.resume (.fetch point) w.given w.before =
      Calls.replying (Grammars.resumeFetch point w.given w.before).1 .fetch .grammar
        (Grammars.resumeFetch point w.given w.before).2 := rfl
  rw [heq] at hres
  cases hturn : (Grammars.resumeFetch point w.given w.before).1 with
  | rest on point' =>
    rw [hturn] at hres
    cases hres
  | giveWay point' =>
    rw [hturn] at hres
    cases hres
  | finish result =>
    rw [hturn] at hres
    obtain ⟨hres, _⟩ := Prod.mk.inj hres
    cases result with
    | error f => cases hres
    | ok g =>
      cases hres
      exact ⟨g, rfl, rfl⟩

/-- Only the turn of a fetch changes the grammars. -/
theorem Strides.grammars_eq (hst : Strides w m m')
    (hs : ∀ language locator, w.stage ≠ .fetch (.fetching language locator)) :
    m'.service.grammars = m.service.grammars := by
  induction hst with
  | refl => rfl
  | tail _ hstep ih =>
    rcases hstep.grammars_cases with h | ⟨language, locator, r, h, _⟩
    · exact h.trans ih
    · exact absurd h (hs language locator)

/-! ## The invariant -/

/-- Loads end with grammars that were kept, and parsers are bound to such. -/
structure Bound (s : Service) (ms : List Service.Move) (roles : Roles Hook Job) : Prop where
  ended : ∀ {t language v}, roles t = .operation (.grammar language) →
    (s.moves ms).loop.outcome? t = some (.value v) → WasKept s ms language v.toGrammar
  vacant : ∀ {t language locator on},
    (s.moves ms).loop.place? t = some (.fetch (.fetching language locator), on) →
      Grammars.kept? (s.moves ms) language = none
  bound : ∀ {language p}, (s.moves ms).parser? language = some p →
    0 < p ∧ p ≤ (s.moves ms).world.parsers.length ∧
      WasKept s ms language ((s.moves ms).world.grammarOf p)
  lasting : ∀ {language n}, WasKept s ms language (some n) →
    Grammars.kept? (s.moves ms) language = some (some n)

namespace Bound

theorem opened (config : Config) (world : World) (eager : Bool) (stuck : Option Fault)
    (log : List LogLine) :
    Bound (Service.opened config world eager stuck log) [] fun _ => .unused where
  ended hr := nomatch hr
  vacant h := by simp [moves, place?] at h
  bound h := by simp [moves, parser?] at h
  lasting := by
    rintro language n ⟨before, after, he, hk⟩
    cases (List.nil_eq_append_iff.1 he).1
    simp [moves] at hk

theorem ended_step (h : Bound s ms roles) (ho : AtRest (s.moves ms) roles)
    (hst : Step (s.moves ms) roles mv (s.moves (ms ++ [mv])) roles') {v : Reply}
    (hr : roles' t = .operation (.grammar language))
    (hout : (s.moves (ms ++ [mv])).loop.outcome? t = some (.value v)) :
    WasKept s (ms ++ [mv]) language v.toGrammar := by
  rcases hst.aside_or_turn ho with ha | ⟨w, m, turn, ht, hs, rfl⟩
  · obtain ⟨hr, _, ho'⟩ := ha.outcome?_operation ho hst hr
    exact (h.ended hr (ho'.symm.trans hout)).append [mv]
  rw [hs] at hout
  rcases ht.outcome?_operation hr hout with hout | ⟨rfl, result, rfl, hv, hg⟩
  · -- The load had ended before the turn.
    rw [Strides.outcome?_eq ht.started ht.strides (by simp [hr])] at hout
    obtain ⟨i, hb⟩ := ht.before
    have hout' : (s.moves ms).loop.outcome? t = some (.value v) := by
      rw [hb] at hout
      exact hout
    have hold : roles t = .operation (.grammar language) := by
      rw [← hr, ht.extends t (ho.sound.assigned.role_ne_unused (outcome?_lt hout'))]
    exact (h.ended hold hout').append [mv]
  · -- It ends with this turn.
    obtain rfl := Program.ended_eq_value.1 hv.symm
    have hrole := ht.inTurn.unfinished.1.symm.trans hr
    obtain ⟨point, hpoint⟩ := Stage.exists_of_role_grammar hrole
    obtain ⟨hm, hfinish⟩ := ht.finished_fetch hpoint
    obtain ⟨g, hturn, rfl⟩ := hfinish v rfl
    obtain ⟨language', hrole', hget⟩ := resumeFetch_finish hturn
    rw [hpoint, hrole'] at hrole
    cases hrole
    refine .now ?_
    rw [hs]
    exact hm ▸ hget

theorem vacant_step (h : Bound s ms roles) (ho : AtRest (s.moves ms) roles)
    (hst : Step (s.moves ms) roles mv (s.moves (ms ++ [mv])) roles') {locator : String}
    {on : Option PromiseId}
    (hp : (s.moves (ms ++ [mv])).loop.place? t = some (.fetch (.fetching language locator), on)) :
    Grammars.kept? (s.moves (ms ++ [mv])) language = none := by
  obtain ⟨ho', _⟩ := ho.step hst
  rcases hst.aside_or_turn ho with ha | ⟨w, m, turn, ht, hs, rfl⟩
  · rcases ha.came hp with hp | ⟨call, hc, _⟩
    · rw [Grammars.kept?, ha.grammars]
      exact h.vacant hp
    · cases hc
  have hgrammars : (s.moves (ms ++ [mv])).grammars = m.service.grammars := by rw [hs]
  have hbefore : w.before.grammars = (s.moves ms).grammars := by
    obtain ⟨i, hb⟩ := ht.before
    rw [hb]
  by_cases he : t = w.task
  · -- The load has come to rest with its fetch in this turn.
    subst he
    rw [hs, place?_conclude, if_pos rfl] at hp
    have hends := ht.ends
    cases turn with
    | finish result => cases hp
    | giveWay point =>
      cases hp
      obtain ⟨_, _, hon, _⟩ := hends.2.2.2
      cases hon
    | rest on' point =>
      cases hp
      obtain ⟨point', hpoint⟩ := Stage.exists_of_role_grammar hends.2.1.symm
      obtain ⟨hm, hrest⟩ := ht.resumed_fetch hpoint
      obtain ⟨hk, hsame⟩ := resumeFetch_rest ((hrest _ _).1 rfl)
      rw [Grammars.kept?, hgrammars, hm, hsame]
      exact hk
  · -- It has been at rest, and no other load of the language has ended.
    obtain ⟨p, hon⟩ : ∃ p, on = some p := by
      obtain ⟨p, _, hon, _⟩ := (ho'.placed hp).rest
      exact ⟨p, hon⟩
    subst hon
    have hold : (s.moves ms).loop.place? t = some (.fetch (.fetching language locator), some p) :=
      ht.place?_of_ne he (by rw [hs] at hp; exact hp)
    have hk := h.vacant hold
    have hsame : m.service.grammars = (s.moves ms).grammars ∨ ∃ l x, l ≠ language ∧
        m.service.grammars = (s.moves ms).grammars.put l x := by
      rw [← hbefore]
      cases hstage : w.stage with
      | fetch point =>
        obtain ⟨hm, _⟩ := ht.resumed_fetch hstage
        rw [hm]
        rcases resumeFetch_cases point w.given w.before with hsame | ⟨l, locator', r, rfl, _, hsame⟩
        · exact .inl hsame
        · refine .inr ⟨l, r.toGrammar, ?_, hsame⟩
          rintro rfl
          -- Two unfinished loads of one language would be one.
          obtain ⟨on, hplace⟩ := ht.place
          rw [hstage] at hplace
          exact he (ho.load_unique (ho.placed hold).role (ho.isPending_of_place? hold)
            (ho.placed hplace).role (ho.isPending_of_place? hplace))
      | _ =>
        refine .inl (Strides.grammars_eq ht.strides fun l locator' hfetch => ?_)
        rw [hstage] at hfetch
        cases hfetch
    rw [Grammars.kept?, hgrammars]
    rcases hsame with hsame | ⟨l, x, hl, hsame⟩
    · rw [hsame]
      exact hk
    · rw [hsame, Keyed.get?_put, if_neg hl.symm]
      exact hk

theorem bound_step (h : Bound s ms roles) (ho : AtRest (s.moves ms) roles)
    (hst : Step (s.moves ms) roles mv (s.moves (ms ++ [mv])) roles')
    (hp : (s.moves (ms ++ [mv])).parser? language = some p) :
    0 < p ∧ p ≤ (s.moves (ms ++ [mv])).world.parsers.length ∧
      WasKept s (ms ++ [mv]) language ((s.moves (ms ++ [mv])).world.grammarOf p) := by
  rcases hst.aside_or_turn ho with ha | ⟨w, m, turn, ht, hs, rfl⟩
  · rw [parser?_congr ha.pool] at hp
    obtain ⟨hpos, hle, hk⟩ := h.bound hp
    refine ⟨hpos, ha.parsers ▸ hle, ?_⟩
    rw [hst.grammarOf_eq hpos hle]
    exact hk.append [mv]
  have hbefore : w.before.grammars = (s.moves ms).grammars ∧ w.before.pool = (s.moves ms).pool ∧
      w.before.world = (s.moves ms).world := by
    obtain ⟨i, hb⟩ := ht.before
    rw [hb]
    exact ⟨rfl, rfl, rfl⟩
  -- What the turn sees of a grammar was kept, or is kept at its end.
  have hsees : ∀ {m' l g}, Strides w ⟨w.before, roles, w.stage.grip⟩ m' → w.SeesGrammar m'.service l g →
      WasKept s (ms ++ [mv]) l g := by
    intro m' l g hsts hg
    rcases hg with hg | ⟨hshield, r, hr, rfl⟩
    · rcases Strides.get?_grammars hsts (get?_of_kept? hg) with hg | ⟨locator, r, hstage, hr, rfl⟩
      · exact (Sometime.now (hbefore.1 ▸ hg)).append [mv]
      · refine .now ?_
        rw [hs]
        show m.service.grammars.get? l = _
        rw [(ht.resumed_fetch hstage).1, hr]
        exact (Keyed.get?_put ..).trans (if_pos rfl)
    · obtain ⟨op, hrole, hout⟩ := ht.started.shielded hshield hr
      obtain ⟨i, hb⟩ := ht.before
      rw [hb] at hout
      exact (h.ended hrole hout).append [mv]
  have hall : ∀ {m' l p}, Strides w ⟨w.before, roles, w.stage.grip⟩ m' → m'.service.parser? l = some p →
      0 < p ∧ p ≤ m'.service.world.parsers.length ∧
        WasKept s (ms ++ [mv]) l (m'.service.world.grammarOf p) := by
    intro m' l p hst
    induction hst generalizing l p with
    | refl =>
      intro hp
      have hp' : (s.moves ms).parser? l = some p := by
        rw [← hp]
        exact (congrFun (parser?_congr hbefore.2.1) l).symm
      obtain ⟨hpos, hle, hk⟩ := h.bound hp'
      rw [← hbefore.2.2] at hle hk
      exact ⟨hpos, hle, hk.append [mv]⟩
    | @tail m₁ m₂ hsts hstep ih =>
      intro hp
      have hprefix : m₁.service.world.parsers <+: m₂.service.world.parsers :=
        hstep.keeps (Attempt.keptByWork_parsers m₁.service.world.parsers) (List.prefix_refl _)
      have hold : ∀ {l p}, m₁.service.parser? l = some p → 0 < p ∧ p ≤ m₂.service.world.parsers.length ∧
          WasKept s (ms ++ [mv]) l (m₂.service.world.grammarOf p) := fun hp => by
        obtain ⟨hpos, hle, hk⟩ := ih hp
        rw [World.grammarOf_of_prefix hprefix hpos hle]
        exact ⟨hpos, hle.trans hprefix.length_le, hk⟩
      rcases hstep.parser?_cases with ⟨he, _⟩ | ⟨l', g, _, hg, he, hw, _⟩
      · exact hold (he ▸ hp)
      · rw [he, Function.update_apply] at hp
        split at hp
        · rename_i hl
          cases hp
          refine ⟨Nat.succ_pos _, by rw [hw]; simp, ?_⟩
          rw [World.grammarOf_added hw (Nat.succ_pos _), if_pos rfl]
          exact hl ▸ hsees hsts hg
        · exact hold hp
  rw [hs] at hp ⊢
  exact hall ht.strides hp

/-- A grammar that is not null stays. -/
theorem kept?_step (h : Bound s ms roles) (ho : AtRest (s.moves ms) roles)
    (hst : Step (s.moves ms) roles mv (s.moves (ms ++ [mv])) roles')
    (hk : Grammars.kept? (s.moves ms) language = some g) :
    Grammars.kept? (s.moves (ms ++ [mv])) language = some g := by
  rcases hst.aside_or_turn ho with ha | ⟨w, m, turn, ht, hs, rfl⟩
  · rw [Grammars.kept?, ha.grammars]
    exact hk
  have hbefore : w.before.grammars = (s.moves ms).grammars := by
    obtain ⟨i, hb⟩ := ht.before
    rw [hb]
  have hgrammars : (s.moves (ms ++ [mv])).grammars = m.service.grammars := by rw [hs]
  rw [Grammars.kept?, hgrammars]
  by_cases hstage : ∃ l locator, w.stage = .fetch (.fetching l locator)
  · obtain ⟨l, locator, hstage⟩ := hstage
    obtain ⟨on, hplace⟩ := ht.place
    rw [hstage] at hplace
    have hvacant := h.vacant hplace
    rw [(ht.resumed_fetch hstage).1]
    rcases resumeFetch_cases (.fetching l locator) w.given w.before with hsame | ⟨l', _, r, hl, _, hsame⟩
    · rw [hsame, hbefore]
      exact hk
    · cases hl
      rw [hsame, Keyed.get?_put, if_neg, hbefore]
      · exact hk
      · rintro rfl
        rw [hvacant] at hk
        cases hk
  · rw [Strides.grammars_eq ht.strides fun l locator hs => hstage ⟨l, locator, hs⟩, hbefore]
    exact hk

theorem step (h : Bound s ms roles) (ho : AtRest (s.moves ms) roles)
    (hst : Step (s.moves ms) roles mv (s.moves (ms ++ [mv])) roles') : Bound s (ms ++ [mv]) roles' where
  ended := h.ended_step ho hst
  vacant := h.vacant_step ho hst
  bound := h.bound_step ho hst
  lasting hk := by
    rcases hk.of_snoc with hk | hk
    · exact h.kept?_step ho hst (h.lasting hk)
    · rw [Grammars.kept?, hk]
      rfl

end Bound

end SourceTrees.Service
