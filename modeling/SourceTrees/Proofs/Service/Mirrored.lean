import SourceTrees.Proofs.Service.FileTools
import SourceTrees.Proofs.Service.Pairing

/-!
# The turns of calls for a language

The turn of a call for a language, or of the load of its grammar, is looked through function by function: it
mirrors the turn of the same call in a paired service.

## Protocol

* Only calls for a language are looked at; others may look at everything.
* The engine is ready, so no turn waits for it.

## Results

* `Grammars.mirrors_request`, `Pool.mirrors_lease`, `Parsing.mirrors_request`, … — the parts of turns.
* **`Calls.mirrors_resume`** — the turn of a call for one of the languages is mirrored.
-/

set_option autoImplicit false

namespace SourceTrees

open Loop Pairing Work

variable {W : Type} {K : Pairing W} {k : W} {given given' : Except Fault Reply} {language : String} {v : Json}

/-- Corresponding loads of grammars. -/
abbrev Pairing.fetchTurn (K : Pairing W) : W → Turn FetchStage Grammar → Turn FetchStage Grammar → Prop :=
  K.turn (same (FetchStage.IsFor K.language)) K.grammar

/-- Corresponding requests for grammars. -/
abbrev Pairing.grammarTurn (K : Pairing W) : W → Turn GrammarStage Grammar → Turn GrammarStage Grammar → Prop :=
  K.turn (same (GrammarStage.IsFor K.language)) K.grammar

/-- Corresponding requests for parsers. -/
abbrev Pairing.poolTurn (K : Pairing W) : W → Turn PoolStage String → Turn PoolStage String → Prop :=
  K.turn (same (PoolStage.IsFor K.language)) fun k l l' => l' = l ∧ K.inPool k l

/-- Corresponding requests for leases. -/
abbrev Pairing.leaseTurn (K : Pairing W) : W → Turn LeaseStage Nat → Turn LeaseStage Nat → Prop :=
  K.turn (fun k => LeaseStage.Match (K.promise k) K.language (K.inPool k)) K.parser

/-- Corresponding parses. -/
abbrev Pairing.parseTurn {α : Type} (K : Pairing W) : W → Turn ParseStage α → Turn ParseStage α → Prop :=
  K.turn (fun k => ParseStage.Match (K.promise k) K.language (K.inPool k)) (same fun _ => True)

/-- Corresponding calls. -/
abbrev Pairing.callTurn (K : Pairing W) : W → Turn Stage Reply → Turn Stage Reply → Prop := K.turn K.stage K.reply

/-- What corresponds to the reply to a load is a grammar, or none in both. -/
theorem Pairing.Lawful.toGrammar (hK : K.Lawful) {r r' : Reply} (h : K.reply k r r') :
    K.grammar k r.toGrammar r'.toGrammar := by
  cases h with
  | grammar hg => exact hg
  | bound | leased => exact hK.null k
  | @plain r hr =>
    cases r with
    | grammar => cases hr
    | _ => exact hK.null k

theorem Json.Names.of_validate {s : Service} (hv : v.Names K.language) {name : String}
    (h : s.validate v = .ok name) : v = .str name ∧ K.language name := by
  have he : v = .str name := by
    unfold Service.validate at h
    split at h
    · split at h <;> cases h
      rfl
    · cases h
  exact ⟨he, hv name he⟩

variable (hK : K.Lawful)

include hK

/-- Which languages have a locator is the same in both. -/
theorem Pairing.Lawful.supportedLanguages {s s' : Service} (hs : K.paired k s s') :
    s'.supportedLanguages = s.supportedLanguages := by
  obtain ⟨hc, hc'⟩ := hK.config hs
  rw [Service.supportedLanguages, Service.supportedLanguages, hc, hc']

theorem Pairing.Lawful.validate {s s' : Service} (hs : K.paired k s s') (v : Json) :
    s'.validate v = s.validate v := by
  obtain ⟨hc, hc'⟩ := hK.config hs
  unfold Service.validate
  rw [hK.supportedLanguages hs, hc, hc']

/-- The engine need not be booted. -/
theorem Boot.mirrors_attach : K.Mirrors (fun _ r r' => r = none ∧ r' = none) k attach attach := by
  intro s s' hs
  have hready : ∀ {s : Service}, s.engine? = .ok K.engine → attach s = (none, s) := by
    intro s he
    have hphase : s.phase = .ready := by
      unfold Service.engine? at he
      split at he
      · assumption
      · cases he
    simp [attach, hphase]
  obtain ⟨he, he'⟩ := hK.engine hs
  rw [hready he, hready he']
  exact ⟨k, hK.refl k, ⟨rfl, rfl⟩, hs⟩

/-! ## Grammars -/

namespace Grammars

theorem mirrors_fetchFailed (locator : String) (f : Fault) :
    K.Mirrors K.fetchTurn k (fetchFailed language locator f) (fetchFailed language locator f) := by
  exact .ite (.bind hK (.count hK _ _) fun _ _ => .bind hK (.log hK _ _) fun _ _ => .fail hK _) (.fail hK f)

theorem mirrors_fetched (hl : K.language language) {g g' : Grammar} (hg : K.grammar k g g') :
    K.Mirrors K.fetchTurn k (fetched language g) (fetched language g') :=
  .bind hK (.change hK fun hs => hK.keep hs hl hg) fun hle _ => .bind hK (.count hK _ _) fun hle' _ =>
    .bind hK (.log hK _ _) fun hle'' _ =>
      .done hK (hK.grammar_mono hle'' (hK.grammar_mono hle' (hK.grammar_mono hle hg)))

theorem mirrors_startFetch (hl : K.language language) :
    K.Mirrors K.fetchTurn k (startFetch language) (startFetch language) := by
  refine .look fun {s s'} hs => ?_
  have hkept := hK.kept hs hl
  obtain ⟨he, he'⟩ := hK.engine hs
  obtain ⟨hc, hc'⟩ := hK.config hs
  have hcrew : s'.setupCrew = s.setupCrew := by rw [Service.setupCrew, Service.setupCrew, hc, hc']
  cases hg : kept? s language <;> cases hg' : kept? s' language <;> rw [hg, hg'] at hkept <;> cases hkept
  · simp only [he, he', hc, hc', hcrew]
    refine .bind hK (hK.submit _ (.grammar hl)) fun hle hr => ?_
    cases hr with
    | ok hp => exact .restOn hK hp ⟨rfl, hl⟩
    | error f => exact mirrors_fetchFailed hK _ f
  · rename_i hgg
    exact .done hK hgg

theorem mirrors_resumeFetch {point : FetchStage} (h : point.IsFor K.language)
    (hgiven : ResultsMatch (K.reply k) given given') :
    K.Mirrors K.fetchTurn k (resumeFetch point given) (resumeFetch point given') := by
  cases point with
  | start language =>
    cases hgiven with
    | ok hr => exact mirrors_startFetch hK h
    | error f => exact .fail hK f
  | fetching language locator =>
    cases hgiven with
    | ok hr => exact mirrors_fetched hK h (hK.toGrammar hr)
    | error f => exact mirrors_fetchFailed hK locator f

theorem mirrors_load (hl : K.language language) :
    K.Mirrors K.grammarTurn k (attach language >>= fun p => restOn p (.loading language))
      (attach language >>= fun p => restOn p (.loading language)) :=
  .bind hK (hK.attach hl) fun _ hp => .restOn hK hp ⟨rfl, hl⟩

theorem mirrors_request (hv : v.Names K.language) : K.Mirrors K.grammarTurn k (request v) (request v) := by
  refine .look fun {s s'} hs => ?_
  rw [hK.validate hs]
  cases hval : s.validate v with
  | error f => exact .fail hK f
  | ok name =>
    obtain ⟨-, hl⟩ := hv.of_validate hval
    have hkept := hK.kept hs hl
    dsimp only
    cases hg : kept? s name <;> cases hg' : kept? s' name <;> rw [hg, hg'] at hkept <;> cases hkept
    · refine .bind hK (Boot.mirrors_attach hK) fun hle hr => ?_
      obtain ⟨rfl, rfl⟩ := hr
      exact mirrors_load hK hl
    · rename_i hgg
      exact .bind hK (.count hK _ _) fun hle _ => .done hK (hK.grammar_mono hle hgg)

theorem mirrors_resume {point : GrammarStage} (h : point.IsFor K.language)
    (hgiven : ResultsMatch (K.reply k) given given') :
    K.Mirrors K.grammarTurn k (resume point given) (resume point given') := by
  cases point with
  | booting => cases h
  | loading language =>
    cases hgiven with
    | ok hr => exact .done hK (hK.toGrammar hr)
    | error f => exact .fail hK f

end Grammars

/-! ## The pool -/

namespace Pool

/-- A parser is put into the pool. -/
theorem mirrors_put (hl : K.language language) {p p' : Nat} (hp : K.parser k p p') :
    K.Mirrors (fun k _ _ => K.inPool k language) k
      (modify fun s => { s with pool := s.pool.put language { parser := p } } : Work Unit)
      (modify fun s => { s with pool := s.pool.put language { parser := p' } } : Work Unit) := by
  intro s s' hs
  have hq : Pooled.Match (K.promise k) (K.parser k) { parser := p } { parser := p' } := ⟨hp, rfl, .nil, rfl⟩
  obtain ⟨k₁, hle, hin, hs₁⟩ := hK.enter (hK.pool hs hl hq) hl (by simp [Keyed.contains])
  exact ⟨k₁, hle, hin, hs₁⟩

theorem mirrors_create (hl : K.language language) {g g' : Grammar} (hg : K.grammar k g g') :
    K.Mirrors K.poolTurn k (create language g) (create language g') := by
  refine .look fun {s s'} hs => ?_
  obtain ⟨he, he'⟩ := hK.engine hs
  simp only [he, he']
  refine .bind hK (hK.bindParser hg) fun _ hr => ?_
  cases hr with
  | ok hp =>
    refine .bind hK (mirrors_put hK hl hp) fun _ hin => .bind hK (.count hK _ _) fun hle _ => ?_
    exact .done hK ⟨rfl, hK.inPool_mono hle hin⟩
  | error f =>
    dsimp only
    split
    · refine .bind hK (.log hK _ _) fun _ _ => .look fun hs => ?_
      obtain ⟨hc, hc'⟩ := hK.config hs
      rw [hc, hc']
      exact .fail hK _
    · exact .fail hK f

theorem mirrors_grammarCame (hl : K.language language) {x x' : Except Fault Grammar}
    (hx : ResultsMatch (K.grammar k) x x') :
    K.Mirrors K.poolTurn k (grammarCame language x) (grammarCame language x') := by
  cases hx with
  | error f => exact .fail hK f
  | ok hg =>
    refine .lookInPool hK hl (fun _ hin _ hc hc' => ?_) fun _ hc hc' => ?_
    · rw [hc, hc']
      exact .done hK ⟨rfl, hin⟩
    · rw [hc, hc']
      exact mirrors_create hK hl hg

/-- There is no pooled parser of a language. -/
theorem mirrors_missed (hl : K.language language) (f : Counts → Counts) :
    K.Mirrors K.poolTurn k
      (count f >>= fun _ => Grammars.request (.str language) >>= fun turn =>
        andThen turn (.grammar language) (grammarCame language))
      (count f >>= fun _ => Grammars.request (.str language) >>= fun turn =>
        andThen turn (.grammar language) (grammarCame language)) := by
  have hv : (Json.str language).Names K.language := fun _ he => Json.str.inj he ▸ hl
  refine .bind hK (.count hK _ _) fun _ _ => .bind hK (Grammars.mirrors_request hK hv) fun _ ht => ?_
  exact .andThen hK ht (fun ⟨he, hp⟩ => ⟨congrArg _ he, hl, hp⟩) (mirrors_grammarCame hK hl)

theorem mirrors_request (hv : v.Names K.language) : K.Mirrors K.poolTurn k (request v) (request v) := by
  cases v with
  | str name =>
    have hl := hv name rfl
    refine .lookInPool hK hl (fun {k₁ s s'} _ hin hs hc hc' => ?_) fun {s s'} hs hc hc' => ?_
    all_goals
      rw [hK.validate hs]
      cases hval : s.validate (.str name) with
      | error f => exact .fail hK f
      | ok name' =>
        cases (hv.of_validate hval).1
        simp only [hc, hc']
        first
        | exact .bind hK (.count hK _ _) fun hle _ => .done hK ⟨rfl, hK.inPool_mono hle hin⟩
        | exact mirrors_missed hK hl _
  | _ =>
    refine .look fun {s s'} hs => ?_
    rw [hK.validate hs]
    cases hval : s.validate _ with
    | error f => exact .fail hK f
    | ok name' => cases (hv.of_validate hval).1

theorem mirrors_resume {point : PoolStage} (h : point.IsFor K.language)
    (hgiven : ResultsMatch (K.reply k) given given') :
    K.Mirrors K.poolTurn k (resume point given) (resume point given') := by
  obtain ⟨language, point⟩ := point
  refine .bind hK (Grammars.mirrors_resume hK h.2 hgiven) fun _ ht => ?_
  exact .andThen hK ht (fun ⟨he, hp⟩ => ⟨congrArg _ he, h.1, hp⟩) (mirrors_grammarCame hK h.1)

/-- Pooled parsers are changed alike. -/
theorem mirrors_change (hl : K.language language) {f f' : Pooled → Pooled}
    (hf : ∀ {q q'}, Pooled.Match (K.promise k) (K.parser k) q q' →
      Pooled.Match (K.promise k) (K.parser k) (f q) (f' q')) :
    K.Mirrors (fun _ _ _ => True) k (change language f) (change language f') := by
  refine .change hK fun {s s'} hs => ?_
  have hq := hK.pooled hs hl
  unfold Keyed.adjust
  cases hg : s.pool.get? language <;> cases hg' : s'.pool.get? language <;> rw [hg, hg'] at hq <;> cases hq
  · exact hs
  · rename_i hq
    exact hK.pool hs hl (hf hq)

/-- The locks of pooled parsers correspond. -/
theorem lockOf_match {s s' : Service} (hs : K.paired k s s') (hl : K.language language) :
    (lockOf s' language).held = (lockOf s language).held ∧
      List.Forall₂ (K.promise k) (lockOf s language).tickets (lockOf s' language).tickets := by
  have hq := hK.pooled hs hl
  unfold lockOf
  cases hg : s.pool.get? language <;> cases hg' : s'.pool.get? language <;> rw [hg, hg'] at hq <;> cases hq
  · exact ⟨rfl, .nil⟩
  · rename_i hq
    exact ⟨hq.held, hq.tickets⟩

theorem mirrors_callNext (hl : K.language language) :
    K.Mirrors (fun _ _ _ => True) k (callNext language) (callNext language) := by
  refine .look fun {s s'} hs => ?_
  obtain ⟨-, ht⟩ := lockOf_match hK hs hl
  generalize (lockOf s language).tickets = ts at ht ⊢
  generalize (lockOf s' language).tickets = ts' at ht ⊢
  cases ht with
  | nil => exact .pure hK trivial
  | cons ht _ => exact .change hK fun hs => hK.settle hs ht (.value (.plain rfl))

theorem mirrors_release (hl : K.language language) :
    K.Mirrors (fun _ _ _ => True) k (release language) (release language) :=
  .bind hK (mirrors_change hK hl fun hq => ⟨hq.parser, rfl, hq.tickets, hq.leases⟩) fun _ _ =>
    mirrors_callNext hK hl

/-- The pooled parsers of a language correspond. -/
theorem parserOf_match {s s' : Service} (hs : K.paired k s s') (hin : K.inPool k language) :
    K.parser k (parserOf s language) (parserOf s' language) := by
  have hq := hK.pooled hs (hK.language hin)
  have hfound : (s.pool.get? language).isSome = true := hK.found hs hin
  unfold parserOf
  cases hg : s.pool.get? language <;> cases hg' : s'.pool.get? language <;> rw [hg, hg'] at hq <;> cases hq
  · rw [hg] at hfound
    cases hfound
  · rename_i hq
    exact hq.parser

theorem mirrors_take (hin : K.inPool k language) : K.Mirrors K.leaseTurn k (take language) (take language) := by
  refine .bind hK (mirrors_change hK (hK.language hin) fun hq =>
    ⟨hq.parser, rfl, hq.tickets, congrArg (· + 1) hq.leases⟩) fun hle _ => .look fun hs => .done hK ?_
  exact parserOf_match hK hs (hK.inPool_mono hle hin)

theorem mirrors_acquire {x x' : Except Fault String}
    (hx : ResultsMatch (fun l l' => l' = l ∧ K.inPool k l) x x') :
    K.Mirrors K.leaseTurn k (acquire x) (acquire x') := by
  cases hx with
  | error f => exact .fail hK f
  | @ok language language' h =>
    obtain ⟨rfl, hin⟩ := h
    have hl := hK.language hin
    refine .look fun {s s'} hs => ?_
    obtain ⟨hheld, htickets⟩ := lockOf_match hK hs hl
    have hcancelled : ∀ {ts ts' : List PromiseId}, List.Forall₂ (K.promise k) ts ts' →
        ts'.all s'.loop.isCancelled = ts.all s.loop.isCancelled := by
      intro ts ts' h
      induction h with
      | nil => rfl
      | cons ht _ ih => rw [List.all_cons, List.all_cons, hK.isCancelled hs ht, ih]
    dsimp only
    rw [hheld, hcancelled htickets]
    split
    · exact mirrors_take hK hin
    · refine .bind hK (hK.newPromise _) fun hle ht => .bind hK (mirrors_change hK hl fun hq =>
        ⟨hq.parser, hq.held, List.rel_append hq.tickets (.cons ht .nil), hq.leases⟩) fun hle' _ => ?_
      exact .restOn hK (hK.promise_mono hle' ht)
        (.lock (hK.inPool_mono hle' (hK.inPool_mono hle hin)) (hK.promise_mono hle' ht))

theorem mirrors_lease (hv : v.Names K.language) : K.Mirrors K.leaseTurn k (lease v) (lease v) :=
  .bind hK (mirrors_request hK hv) fun _ ht =>
    .andThen hK ht (fun {_ _} ⟨he, hp⟩ => by subst he; exact .parser hp) (mirrors_acquire hK)

theorem mirrors_resumeLease {point point' : LeaseStage}
    (h : point.Match (K.promise k) K.language (K.inPool k) point')
    (hgiven : ResultsMatch (K.reply k) given given') :
    K.Mirrors K.leaseTurn k (resumeLease point given) (resumeLease point' given') := by
  cases h with
  | parser hp =>
    exact .bind hK (mirrors_resume hK hp hgiven) fun _ ht =>
      .andThen hK ht (fun {_ _} ⟨he, hp⟩ => by subst he; exact .parser hp) (mirrors_acquire hK)
  | @lock language ticket ticket' hin ht =>
    have hl := hK.language hin
    refine .bind hK (mirrors_change hK hl fun hq => ⟨hq.parser, hq.held, ?_, hq.leases⟩) fun hle _ => ?_
    · refine List.rel_filter (fun {t t'} h => ?_) hq.tickets
      simp [hK.promise_iff h ht]
    · cases hgiven with
      | ok hr => exact mirrors_take hK (hK.inPool_mono hle hin)
      | error f =>
        refine .look fun {s s'} hs => ?_
        obtain ⟨hheld, -⟩ := lockOf_match hK hs hl
        dsimp only
        rw [hheld]
        split
        · exact .fail hK f
        · exact .bind hK (mirrors_callNext hK hl) fun _ _ => .fail hK f

end Pool

/-! ## Parsing -/

namespace Parsing

section

variable (source : List UInt8) (crew : Crew)

theorem mirrors_copy (root : Node) :
    K.Mirrors K.parseTurn k (copy language source crew root) (copy language source crew root) := by
  refine .bind hK (hK.submit _ (.copy language source root)) fun _ hr => ?_
  cases hr with
  | ok hp => exact .restOn hK hp (.copying language)
  | error f => exact .fail hK f

theorem mirrors_parsed (hl : K.language language) (root : Option Node) :
    K.Mirrors K.parseTurn k (parsed language source crew root) (parsed language source crew root) := by
  refine .bind hK (Pool.mirrors_release hK hl) fun _ _ => ?_
  cases root with
  | some root => exact mirrors_copy hK source crew root
  | none => exact .bind hK (.count hK _ _) fun _ _ => .fail hK _

theorem mirrors_leased (hl : K.language language) {x x' : Except Fault Nat} (hx : ResultsMatch (K.parser k) x x') :
    K.Mirrors K.parseTurn k (leased language source crew x) (leased language source crew x') := by
  cases hx with
  | error f => exact .fail hK f
  | ok hp =>
    refine .bind hK (hK.submit _ (.parse hp source)) fun _ hr => ?_
    cases hr with
    | error f => exact .bind hK (Pool.mirrors_release hK hl) fun _ _ => .fail hK f
    | ok hj =>
      exact .bind hK (hK.shield hj) fun hle hs => .restOn hK hs (.running hl source crew (hK.promise_mono hle hj))

theorem mirrors_borrow (hl : K.language language) :
    K.Mirrors K.parseTurn k (borrow language source) (borrow language source) := by
  refine .look fun {s s'} hs => ?_
  have hcrew : s'.parseCrew = s.parseCrew := by rw [Service.parseCrew, Service.parseCrew, hK.holds hs]
  rw [hcrew]
  have hv : (Json.str language).Names K.language := fun _ he => Json.str.inj he ▸ hl
  exact .bind hK (Pool.mirrors_lease hK hv) fun _ ht =>
    .andThen hK ht (fun hp => .leasing hl source _ hp) (mirrors_leased hK source _ hl)

end

theorem mirrors_raised (hl : K.language language) (f : Fault) :
    K.Mirrors K.parseTurn k (raised language f) (raised language f) :=
  .bind hK (.count hK _ _) fun _ _ => .bind hK (.log hK _ _) fun _ _ =>
    .bind hK (Pool.mirrors_release hK hl) fun _ _ => .fail hK _

theorem mirrors_drain (hl : K.language language) {job job' : PromiseId} (hj : K.promise k job job') (f : Fault) :
    K.Mirrors K.parseTurn k (drain language job f) (drain language job' f) := by
  refine .look fun {s s'} hs => ?_
  rw [hK.isPending hs hj]
  split
  · exact .bind hK (hK.waiter hj) fun hle hw => .restOn hK hw (.draining hl (hK.promise_mono hle hj) hw f)
  · exact .bind hK (Pool.mirrors_release hK hl) fun _ _ => .fail hK f

theorem mirrors_request (code : Code) (hv : v.Names K.language) :
    K.Mirrors K.parseTurn k (request code v) (request code v) := by
  refine .look fun {s s'} hs => ?_
  rw [hK.validate hs]
  cases hval : s.validate v with
  | error f => exact .fail hK f
  | ok name =>
    cases code.toSource with
    | error f => exact .fail hK f
    | ok source =>
      refine .bind hK (Boot.mirrors_attach hK) fun _ hr => ?_
      obtain ⟨rfl, rfl⟩ := hr
      exact mirrors_borrow hK source (hv.of_validate hval).2

theorem mirrors_resume {point point' : ParseStage}
    (h : point.Match (K.promise k) K.language (K.inPool k) point')
    (hgiven : ResultsMatch (K.reply k) given given') :
    K.Mirrors K.parseTurn k (resume point given) (resume point' given') := by
  cases h with
  | leasing hl source crew hp =>
    exact .bind hK (Pool.mirrors_resumeLease hK hp hgiven) fun _ ht =>
      .andThen hK ht (fun hp => .leasing hl source crew hp) (mirrors_leased hK source crew hl)
  | running hl source crew hj =>
    cases hgiven with
    | @ok r r' hr =>
      have hroot : r'.toEngineTree = r.toEngineTree := by cases hr <;> rfl
      have hparsed := mirrors_parsed hK source crew hl r.toEngineTree (k := k)
      conv at hparsed => rhs; rw [← hroot]
      exact hparsed
    | error f =>
      exact .ite (mirrors_drain hK hl hj f)
        (.ite (mirrors_raised hK hl f) (.bind hK (Pool.mirrors_release hK hl) fun _ _ => .fail hK f))
  | draining hl hj hw cancellation =>
    exact .bind hK (.change hK fun hs => hK.unsubscribe hs hj hw) fun hle _ =>
      mirrors_drain hK hl (hK.promise_mono hle hj) cancellation
  | copying language =>
    cases hgiven with
    | error f => exact .fail hK f
    | @ok r r' hr =>
      cases hr with
      | plain =>
        cases r with
        | tree t => exact .bind hK (.count hK _ _) fun _ _ => .done hK ⟨rfl, trivial⟩
        | _ => exact .fail hK _
      | _ => exact .fail hK _

end Parsing

/-! ## Tools and calls -/

namespace Tools

/-- Corresponding parses for a use. -/
abbrev usedTurn (K : Pairing W) : W → Turn ParseStage Reply → Turn ParseStage Reply → Prop :=
  K.turn (fun k => ParseStage.Match (K.promise k) K.language (K.inPool k)) K.reply

theorem mirrors_finish (use : ParseUse) {x x' : Except Fault Tree}
    (hx : ResultsMatch (fun t t' => t' = t ∧ True) x x') :
    K.Mirrors (usedTurn K) k (finish use x) (finish use x') := by
  cases hx with
  | ok ht =>
    obtain ⟨rfl, -⟩ := ht
    cases use with
    | tree => exact .done hK (.plain rfl)
    | snippet | file => exact .done hK (.plain rfl)
  | error f =>
    cases use with
    | tree => exact .fail hK f
    | snippet | file => exact .ite (.bind hK (.log hK _ _) fun _ _ => .done hK (.plain rfl)) (.fail hK f)

/-- A parse for some use, from how it is asked for or goes on. -/
theorem mirrors_used (use : ParseUse) {f f' : Work (Turn ParseStage Tree)} (hf : K.Mirrors K.parseTurn k f f') :
    K.Mirrors K.callTurn k
      (do let turn ← f
          andThen (← andThen turn id (finish use)) (.parse use) (fun r => return .finish r))
      (do let turn ← f'
          andThen (← andThen turn id (finish use)) (.parse use) (fun r => return .finish r)) :=
  .bind hK hf fun _ ht => .bind hK (.andThen hK ht id (mirrors_finish hK use)) fun _ ht' =>
    .andThen hK ht' (fun hp => .parse use hp) fun hx => .pure hK (.finish hx)

theorem mirrors_parseAs (use : ParseUse) (code : Code) {path : Json} {name : String}
    (hpath : Parsing.detect path = some name) (hl : K.language name) :
    K.Mirrors K.callTurn k (parseAs use code path) (parseAs use code path) := by
  unfold parseAs
  rw [hpath]
  exact mirrors_used hK use (Parsing.mirrors_request hK code fun _ he => Json.str.inj he ▸ hl)

theorem mirrors_parseFile {path : Json} {name : String} (depth : Option Int)
    (hpath : Parsing.detect path = some name) (hl : K.language name) :
    K.Mirrors K.callTurn k (parseFile path depth) (parseFile path depth) := by
  refine .look fun {s s'} hs => ?_
  obtain ⟨hc, hc'⟩ := hK.config hs
  have hground : s.SameGround s' := ⟨hc'.trans hc.symm, hK.files hs⟩
  have hcheck : checkPath s'.world path s'.config.maxFileSize = checkPath s.world path s.config.maxFileSize := by
    simp only [checkPath, hground.fileSize?_eq, hground.config]
  rw [hpath]
  cases path with
  | str file =>
    dsimp only
    rw [hcheck, hground.readFile_eq]
    split
    · exact .done hK (.plain rfl)
    · cases s.world.readFile file with
      | ok content => exact mirrors_parseAs hK _ _ hpath hl
      | error f =>
        dsimp only
        split
        · exact .done hK (.plain rfl)
        · exact .fail hK f
  | _ => exact .done hK (.plain rfl)

end Tools

namespace Calls

theorem mirrors_replying {P α : Type} {RP : W → P → P → Prop} {R : W → α → α → Prop} {turn turn' : Turn P α}
    {wrap : P → Stage} {f : α → Reply} (h : K.turn RP R k turn turn')
    (hwrap : ∀ {a a'}, RP k a a' → K.stage k (wrap a) (wrap a'))
    (hf : ∀ {a a'}, R k a a' → K.reply k (f a) (f a')) :
    K.Mirrors K.callTurn k (replying turn wrap f) (replying turn' wrap f) :=
  .andThen hK h hwrap fun hx => .pure hK (.finish (by
    cases hx with
    | ok ha => exact .ok (hf ha)
    | error f => exact .error f))

theorem mirrors_parserReply {x x' : Except Fault String}
    (hx : ResultsMatch (fun l l' => l' = l ∧ K.inPool k l) x x') :
    K.Mirrors K.callTurn k (parserReply x) (parserReply x') := by
  cases hx with
  | error f => exact .fail hK f
  | ok h =>
    obtain ⟨rfl, hin⟩ := h
    refine .look fun {s s'} hs => .done hK ?_
    have hp := Pool.parserOf_match hK hs hin
    exact .bound hp (hK.grammarOf hs hp)

theorem mirrors_hold (holder : String) (hl : K.language language) {x x' : Except Fault Nat}
    (hx : ResultsMatch (K.parser k) x x') :
    K.Mirrors K.callTurn k (hold holder language x) (hold holder language x') := by
  cases hx with
  | error f => exact .fail hK f
  | ok hp =>
    refine .bind hK (hK.newPromise k) fun hle hg => ?_
    refine .bind hK (.change hK fun hs => hK.lend hs (hK.parser_mono hle hp) holder) fun hle' _ => ?_
    exact .restOn hK (hK.promise_mono hle' hg) (.holding hl (hK.parser_mono hle' (hK.parser_mono hle hp)))

/-- A call for a language begins. -/
theorem mirrors_start {call : Call} (hv : call.language? = some v) (hl : v.Names K.language) :
    K.Mirrors K.callTurn k (start call) (start call) := by
  have hpath : ∀ {path : Json}, (Parsing.detect path).map Json.str = some v →
      ∃ name, Parsing.detect path = some name ∧ K.language name := by
    intro path h
    obtain ⟨name, hd, rfl⟩ := Option.map_eq_some_iff.1 h
    exact ⟨name, hd, hl name rfl⟩
  cases call with
  | parse code language =>
    cases hv
    exact .look fun _ => Tools.mirrors_used hK .tree (Parsing.mirrors_request hK code hl)
  | snippetTool code language depth =>
    cases hv
    exact .look fun _ => Tools.mirrors_used hK (.snippet v depth) (Parsing.mirrors_request hK code hl)
  | parseFile code path =>
    obtain ⟨name, hd, hl⟩ := hpath hv
    exact .look fun _ => Tools.mirrors_parseAs hK .tree code hd hl
  | fileTool path depth =>
    obtain ⟨name, hd, hl⟩ := hpath hv
    exact .look fun _ => Tools.mirrors_parseFile hK depth hd hl
  | load language =>
    cases hv
    refine .look fun _ => .bind hK (Grammars.mirrors_request hK hl) fun _ ht => mirrors_replying hK ht ?_ .grammar
    rintro _ _ ⟨rfl, hp⟩
    exact .grammar hp
  | getParser language =>
    cases hv
    refine .look fun _ => .bind hK (Pool.mirrors_request hK hl) fun _ ht =>
      .andThen hK ht ?_ (mirrors_parserReply hK)
    rintro _ _ ⟨rfl, hp⟩
    exact .parser hp
  | lease holder language =>
    cases hv
    cases v with
    | str name =>
      exact .look fun _ => .bind hK (Pool.mirrors_lease hK hl) fun _ ht =>
        .andThen hK ht (fun hp => .lease holder hp) (mirrors_hold hK holder (hl name rfl))
    | _ =>
      -- What is no language is refused at once.
      intro s s' hs
      refine ⟨k, hK.refl k, ?_, hs⟩
      show K.callTurn k (.finish (.error (.unsupported _ s.supportedLanguages)))
        (.finish (.error (.unsupported _ s'.supportedLanguages)))
      rw [hK.supportedLanguages hs]
      exact .finish (.error _)
  | _ => cases hv

/-- **The turn of a call for one of the languages, or of the load of its grammar, is mirrored.** -/
theorem mirrors_resume {stage stage' : Stage} (h : K.stage k stage stage')
    (hgiven : ResultsMatch (K.reply k) given given') :
    K.Mirrors K.callTurn k (resume stage given) (resume stage' given') := by
  cases h with
  | start hv hl =>
    cases hgiven with
    | ok hr => exact mirrors_start hK hv hl
    | error f => exact .fail hK f
  | fetch hp =>
    refine .bind hK (Grammars.mirrors_resumeFetch hK hp hgiven) fun _ ht => mirrors_replying hK ht ?_ .grammar
    rintro _ _ ⟨rfl, hp⟩
    exact .fetch hp
  | grammar hp =>
    refine .bind hK (Grammars.mirrors_resume hK hp hgiven) fun _ ht => mirrors_replying hK ht ?_ .grammar
    rintro _ _ ⟨rfl, hp⟩
    exact .grammar hp
  | parser hp =>
    refine .bind hK (Pool.mirrors_resume hK hp hgiven) fun _ ht => .andThen hK ht ?_ (mirrors_parserReply hK)
    rintro _ _ ⟨rfl, hp⟩
    exact .parser hp
  | @lease holder point point' hp =>
    have hl : leasedLanguage point' = leasedLanguage point ∧ K.language (leasedLanguage point) := by
      cases hp with
      | @parser point hp => exact ⟨rfl, by cases point; exact hp.1⟩
      | lock hin ht => exact ⟨rfl, hK.language hin⟩
    refine .bind hK (Pool.mirrors_resumeLease hK hp hgiven) fun _ ht =>
      .andThen hK ht (fun hp => .lease holder hp) ?_
    rw [hl.1]
    exact mirrors_hold hK holder hl.2
  | holding hl hp =>
    refine .bind hK (Pool.mirrors_release hK hl) fun hle _ => .pure hK (.finish ?_)
    cases hgiven with
    | ok hr => exact .ok (.leased (hK.parser_mono hle hp))
    | error f => exact .error f
  | parse use hp => exact Tools.mirrors_used hK use (Parsing.mirrors_resume hK hp hgiven)

end Calls

end SourceTrees
