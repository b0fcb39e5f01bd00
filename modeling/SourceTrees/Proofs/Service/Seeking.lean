import SourceTrees.Proofs.Service.AloneTurns
import SourceTrees.Proofs.Service.OneParser

/-!
# Requests for parsers where the engine is ready

A request for the parser of a language that meets a ready engine finds the parser in the pool, or makes it
from the kept grammar, or waits for the load of the grammar and makes it then.  Who makes a parser does so in
a turn of a request for that language.

## Protocol

* A task **concerns** a language if it is a request for the parser of the language, or the load of its
  grammar.
* A parser of a language is **constructed** in the turn of a task that concerns the language, if the engine
  comes to have one in it that is bound to a grammar.

## Results

* `Service.Seeks` — what the turn of a request comes to; `Service.seeks_start`, `Service.seeks_loaded` — its
  turns.
* `Service.HasTurn.load_unkept` — a load fails only if no grammar is kept.
* `Service.Constructed` — the parser of a language was constructed in the course of a run.
-/

set_option autoImplicit false

namespace SourceTrees

open Loop

/-- The task asks for the parser of the language, or loads its grammar. -/
def Stage.concerns (language : Json) : Stage → Prop
  | .start (.getParser l) => l = language
  | .parser point => .str point.language = language
  | .fetch (.start name) | .fetch (.fetching name _) => .str name = language
  | _ => False

/-- A task concerns one language at most. -/
theorem Stage.concerns_unique {point : Stage} {l l' : Json} (h : point.concerns l) (h' : point.concerns l') :
    l = l' := by
  cases point with
  | start call =>
    cases call with
    | getParser language => exact h.symm.trans h'
    | _ => exact h.elim
  | parser point => exact h.symm.trans h'
  | fetch point => cases point <;> exact h.symm.trans h'
  | _ => exact h.elim

/-- A load is one that concerns its language. -/
theorem Stage.concerns_of_role {point : Stage} {name : String}
    (h : point.role = .operation (.grammar name)) : point.concerns (.str name) := by
  obtain ⟨stage, rfl⟩ := Stage.exists_of_role_grammar h
  cases stage <;>
  · cases h
    rfl

namespace Service

variable {S s s₁ s' : Service} {roles roles' : Roles Hook Job} {w : Woken} {m : Midst} {mv : Service.Move}
  {ms : List Service.Move} {name engine : String} {g : Grammar} {turn : Turn Stage Reply}

/-! ## The turns of requests -/

/-- What the turn of a request for the parser of a language comes to, the engine being ready. -/
inductive Seeks (s : Service) (name : String) : Turn Stage Reply → Service → Prop
  | here {r : Reply} {s' : Service} (hc : s.pool.contains name = true) (hs : Knows s s')
      (hpool : s'.pool = s.pool) (hl : s'.loop = s.loop) : Seeks s name (.finish (.ok r)) s'
  | loads {p : PromiseId} {s' : Service} (hn : s.pool.contains name = false) (hs : Knows s s')
      (hpool : s'.pool = s.pool) :
      Seeks s name (.rest p (.parser (.grammar name (.loading name)))) s'
  | made {engine : String} {g : Grammar} {parser : Nat} {r : Reply} {s' : Service}
      (hn : s.pool.contains name = false) (hk : Grammars.kept? s name = some g)
      (hb : (Attempt.bindParser engine g).run s.world = (.ok parser, s'.world)) (hs : Knows s s')
      (hpool : s'.pool = s.pool.put name { parser }) (hl : s'.loop = s.loop) :
      Seeks s name (.finish (.ok r)) s'
  | unbound {engine : String} {g : Grammar} {f : Fault} {s' : Service} (hn : s.pool.contains name = false)
      (hk : Grammars.kept? s name = some g)
      (hb : (Attempt.bindParser engine g).run s.world = (.error f, s'.world)) (hs : Knows s s')
      (hpool : s'.pool = s.pool) (hl : s'.loop = s.loop) :
      Seeks s name (.finish (.error (Pool.raised name (s.config.locators.get? name) f))) s'

/-- The grammar is there: a parser is made from it, or cannot be made. -/
theorem seeks_came {f : Work (Turn GrammarStage Grammar)} (hf : f s₁ = (.finish (.ok g), s'))
    (he : s.engine? = .ok engine) (hn : s.pool.contains name = false) (hk : Grammars.kept? s name = some g)
    (hs : Knows s s') (hpool : s'.pool = s.pool) (hworld : s'.world = s.world) (hl : s'.loop = s.loop) :
    Seeks s name
      ((do
        Work.andThen (← Work.andThen (← f) (.grammar name) (Pool.grammarCame name)) .parser
          Calls.parserReply : Work (Turn Stage Reply)) s₁).1
      ((do
        Work.andThen (← Work.andThen (← f) (.grammar name) (Pool.grammarCame name)) .parser
          Calls.parserReply : Work (Turn Stage Reply)) s₁).2 := by
  simp only [Work.run_bind, hf, Work.andThen]
  rw [grammarCame_new (hpool ▸ hn)]
  obtain ⟨r, world, hb⟩ : ∃ r world, (Attempt.bindParser engine g).run s'.world = (r, world) := ⟨_, _, rfl⟩
  cases r with
  | ok parser =>
    rw [create_made (hs.engine? ▸ he) hb]
    have hs' : Knows s { s' with
        world, pool := s'.pool.put name { parser }
        counts := { s'.counts with
          parsers := { s'.counts.parsers with created := s'.counts.parsers.created + 1 } } } :=
      hs.trans ⟨rfl, rfl, rfl, rfl, rfl⟩
    exact .made hn hk (hworld ▸ hb) hs' (congrArg (·.put name { parser }) hpool) hl
  | error f =>
    obtain ⟨log, h⟩ : ∃ log, Pool.create name g s' = (.finish (.error (Pool.raised name
      (s'.config.locators.get? name) f)), { s' with world, log }) := create_unbound (hs.engine? ▸ he) hb
    have hlocator : s'.config.locators.get? name = s.config.locators.get? name := by rw [hs.config]
    rw [h, hlocator]
    have hs' : Knows s { s' with world, log } := hs.trans ⟨rfl, rfl, rfl, rfl, rfl⟩
    have hseeks : Seeks s name _ { s' with world, log } := .unbound hn hk (hworld ▸ hb) hs' hpool hl
    exact hseeks

/-- The request begins. -/
theorem seeks_start (hready : s.phase = .ready) (he : s.engine? = .ok engine)
    (hv : s.validate (.str name) = .ok name) (r : Reply) :
    Seeks s name (Calls.resume (.start (.getParser (.str name))) (.ok r) s).1
      (Calls.resume (.start (.getParser (.str name))) (.ok r) s).2 := by
  have hstart : Calls.resume (.start (.getParser (.str name))) (.ok r) s =
      (do Work.andThen (← Pool.request (.str name)) .parser Calls.parserReply :
        Work (Turn Stage Reply)) s := rfl
  rw [hstart]
  cases hc : s.pool.contains name with
  | true =>
    have hr : Pool.request (.str name) s =
        (.finish (.ok name), { s with counts := s.counts.note .poolHit }) := by
      simp only [Pool.request, Work.run_bind, Work.run_get, hv, hc]
      rfl
    rw [Work.run_bind, hr]
    exact .here hc (.counted s _) rfl rfl
  | false =>
    have hr : Pool.request (.str name) s = askGrammar name { s with counts := s.counts.note .poolMiss } := by
      simp only [Pool.request, Work.run_bind, Work.run_get, hv, hc]
      rfl
    have hv' : Service.validate { s with counts := s.counts.note .poolMiss } (.str name) = .ok name := hv
    rw [Work.run_bind, hr]
    cases hk : Grammars.kept? s name with
    | some g =>
      have hk' : Grammars.kept? { s with counts := s.counts.note .poolMiss } name = some g := hk
      have hhit : Grammars.request (.str name) { s with counts := s.counts.note .poolMiss } =
          (.finish (.ok g), { s with counts := (s.counts.note .poolMiss).note .grammarHit }) := by
        simp only [Grammars.request, Work.run_bind, Work.run_get, hv', hk']
        rfl
      exact seeks_came hhit he hc hk (.counted s _) rfl rfl rfl
    | none =>
      have hk' : Grammars.kept? { s with counts := s.counts.note .poolMiss } name = none := hk
      have hb : Boot.attach { s with counts := s.counts.note .poolMiss } =
          (none, { s with counts := s.counts.note .poolMiss }) := by
        rw [attach_boot_eq]
        exact if_pos hready
      have hask : askGrammar name { s with counts := s.counts.note .poolMiss } =
          (.rest (Grammars.attach name { s with counts := s.counts.note .poolMiss }).1
            (.grammar name (.loading name)),
          (Grammars.attach name { s with counts := s.counts.note .poolMiss }).2) := by
        simp only [askGrammar, Grammars.request, Work.run_bind, Work.run_get, hv', hk', hb]
        rfl
      rw [hask]
      exact .loads hc ⟨rfl, rfl, rfl, rfl, rfl⟩ rfl

/-- The request goes on when the grammar has been loaded. -/
theorem seeks_loaded (he : s.engine? = .ok engine) (hn : s.pool.contains name = false) {r : Reply}
    (hk : Grammars.kept? s name = some r.toGrammar) :
    Seeks s name (Calls.resume (.parser (.grammar name (.loading name))) (.ok r) s).1
      (Calls.resume (.parser (.grammar name (.loading name))) (.ok r) s).2 :=
  seeks_came (f := Grammars.resume (.loading name) (.ok r)) rfl he hn hk (.refl s) rfl rfl rfl

/-! ## The turns of loads -/

/-- A load fails only if no grammar is kept, and then keeps none. -/
theorem HasTurn.load_unkept (ht : HasTurn s roles w m turn) (hl : Loaded s roles)
    (hrole : w.stage.role = .operation (.grammar name)) {f : Fault} (hturn : turn = .finish (.error f)) :
    Grammars.kept? m.service name = none := by
  obtain ⟨hbefore, -⟩ := ht.knows_before
  obtain ⟨on, hplace⟩ := ht.place
  obtain ⟨point, hs⟩ := Stage.exists_of_role_grammar hrole
  have hfailed := ht.failed_fetch hs hturn
  obtain ⟨hservice, -⟩ := ht.resumed_fetch hs
  rw [hs] at hrole
  cases point with
  | start language =>
    cases hrole
    cases hg : w.given with
    | error f' => cases ((hl.answered.loadsWell ht).fault hs hg).1.choose_spec.choose_spec
    | ok r =>
      rw [hg] at hfailed hservice
      obtain ⟨turn', s', hb⟩ : ∃ turn s', Grammars.startFetch name w.before = (turn, s') := ⟨_, _, rfl⟩
      have hbegins := fetchBegins hb
      have hfailed : (Grammars.startFetch name w.before).1 = .finish (.error f) := hfailed
      have hservice : m.service = (Grammars.startFetch name w.before).2 := hservice
      rw [hb] at hfailed hservice
      rw [hservice]
      cases hbegins with
      | kept hk => cases hfailed
      | engineless hk he => exact hk
      | refused hk hd => exact hk
      | fetching hk he => cases hfailed
  | fetching language locator =>
    cases hrole
    have hgrip : s.gripAt w.task = .fetch name := by
      rw [gripAt_of_place? hplace, hs]
      rfl
    have hvacant := hl.loading.vacant hgrip
    cases hg : w.given with
    | ok r =>
      rw [hg] at hfailed
      cases hfailed
    | error f' =>
      obtain ⟨counts, log, he⟩ := resumeFetching_error name locator f' w.before
      rw [hg, he] at hservice
      rw [hservice, Grammars.kept?]
      show (w.before.grammars.get? name).filter _ = none
      rw [hbefore.grammars, hvacant]
      rfl

/-! ## Parsers that are constructed -/

/-- In the course of the run the engine came to have a parser that is bound to a grammar, in the turn of a
    task that concerned the language. -/
def Constructed (s : Service) (ms : List Service.Move) (name : String) : Prop :=
  ∃ before mv after w p g, ms = before ++ mv :: after ∧ (s.moves before).turnOf? mv = some w ∧
    w.stage.concerns (.str name) ∧ (s.moves before).world.parsers.length < p ∧
    (s.moves (before ++ [mv])).world.grammarOf p = some g

namespace Constructed

theorem nil : ¬ Constructed s [] name := by
  rintro ⟨before, mv, after, w, p, g, he, -⟩
  cases before <;> cases he

theorem append (h : Constructed s ms name) (more : List Service.Move) : Constructed s (ms ++ more) name := by
  obtain ⟨before, mv, after, w, p, g, rfl, h⟩ := h
  exact ⟨before, mv, after ++ more, w, p, g, by simp, h⟩

/-- It was constructed before the last move, or in the turn that this move was. -/
theorem of_snoc (h : Constructed s (ms ++ [mv]) name) : Constructed s ms name ∨
    ∃ w p g, (s.moves ms).turnOf? mv = some w ∧ w.stage.concerns (.str name) ∧
      (s.moves ms).world.parsers.length < p ∧ (s.moves (ms ++ [mv])).world.grammarOf p = some g := by
  obtain ⟨before, mv', after, w, p, g, he, h⟩ := h
  rcases List.eq_nil_or_concat after with rfl | ⟨rest, mv'', rfl⟩
  · obtain ⟨rfl, hlast⟩ := List.append_inj' he rfl
    cases hlast
    exact .inr ⟨w, p, g, h⟩
  · rw [List.concat_eq_append, ← List.cons_append, ← List.append_assoc] at he
    obtain ⟨rfl, -⟩ := List.append_inj' he rfl
    exact .inl ⟨before, mv', rest, w, p, g, rfl, h⟩

/-- It is constructed in a turn that makes a parser from a grammar that is not null. -/
theorem now {parser x : Nat} (hsome : (s.moves ms).turnOf? mv = some w)
    (hc : w.stage.concerns (.str name))
    (hb : (Attempt.bindParser engine (some x)).run (s.moves ms).world =
      (.ok parser, (s.moves (ms ++ [mv])).world)) : Constructed s (ms ++ [mv]) name := by
  have hm := @Attempt.meets_bindParser engine (some x) _ (s.moves ms).world rfl
  rw [hb] at hm
  obtain ⟨-, hparsers⟩ : Attempt.Binds _ _ _ _ := hm
  refine ⟨ms, mv, [], w, (s.moves ms).world.parsers.length + 1, x, rfl, hsome, hc, Nat.lt_succ_self _, ?_⟩
  rw [World.grammarOf_added hparsers (Nat.succ_pos _), if_pos rfl]

/-- No parser is constructed where none comes into the pool. -/
theorem of_parser? {n : Nat} (h : Constructed s (ms ++ [mv]) name) (hp : Pooling n (s.moves ms))
    (hp' : Pooling n (s.moves (ms ++ [mv]))) (he : (s.moves (ms ++ [mv])).pool = (s.moves ms).pool) :
    Constructed s ms name := by
  refine h.of_snoc.resolve_right ?_
  rintro ⟨w, p, g, -, -, hlt, hg⟩
  obtain ⟨language, hl⟩ := hp'.made (Nat.lt_of_le_of_lt hp.base hlt) hg
  rw [parser?_congr he] at hl
  exact absurd hlt (Nat.not_lt.2 (hp.bound hl).2.1)

/-- A turn constructs no parser of a language that it does not concern. -/
theorem of_other (h : Constructed s (ms ++ [mv]) name)
    (ho : ∀ w, (s.moves ms).turnOf? mv = some w → ¬ w.stage.concerns (.str name)) : Constructed s ms name :=
  h.of_snoc.resolve_right fun ⟨w, _, _, hsome, hc, _⟩ => ho w hsome hc

end Constructed

end Service

end SourceTrees
