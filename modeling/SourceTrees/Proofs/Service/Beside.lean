import Mathlib.Logic.Function.Iterate
import SourceTrees.Proofs.Engine.Deeds
import SourceTrees.Proofs.Service.Pairing
import SourceTrees.Proofs.Service.Turns

/-!
# A service, and what is left of it when other languages are left out

One language is looked at.  A service stands beside another one in which nothing has been asked for other
languages: what the two know of the language corresponds, and of what the first does for others nothing is left
in the second.

## Protocol

* A **bond** tells by which names promises go in the second service, and which grammars and parsers of the
  language correspond.
* A task **away** from the language works for others, or waits for such tasks as a warm-up does.

## Results

* `Service.Beside` — the relation between the two services.
* `Service.mirrors_submit`, `Service.mirrors_attach`, … — what is done for the language in both.
* **`Service.pairing_lawful`** — services that stand beside each other are a lawful pairing.
-/

set_option autoImplicit false

namespace SourceTrees

open Loop

/-! ## Tasks away from a language -/

/-- The request for a lease is for such a language. -/
def LeaseStage.IsFor (L : String → Prop) : LeaseStage → Prop
  | parser point => point.IsFor L
  | lock language _ => L language

/-- The parse is for another language, and its job is none that is left. -/
def ParseStage.Away (N : Names) (language : String) : ParseStage → Prop
  | booting .. => False
  | leasing other _ _ point => other ≠ language ∧ point.IsFor (· ≠ language)
  | running other _ _ job | draining other job _ _ => other ≠ language ∧ N.Unnamed job
  | copying _ => True

/-- A call or a load for another language, or a warm-up that waits for what it has asked for. -/
inductive Stage.Away (N : Names) (language : String) : Stage → Prop
  | start {call : Call} {v : Json} (hv : call.language? = some v) (hne : v ≠ .str language) :
      Away N language (.start call)
  | fetch {point : FetchStage} (h : point.IsFor (· ≠ language)) : Away N language (.fetch point)
  | grammar {point : GrammarStage} (h : point.IsFor (· ≠ language)) : Away N language (.grammar point)
  | parser {point : PoolStage} (h : point.IsFor (· ≠ language)) : Away N language (.parser point)
  | lease (holder : String) {point : LeaseStage} (h : point.IsFor (· ≠ language)) :
      Away N language (.lease holder point)
  | holding {other : String} (hne : other ≠ language) (parser : Nat) : Away N language (.holding other parser)
  | parse (use : ParseUse) {point : ParseStage} (h : point.Away N language) : Away N language (.parse use point)
  | warm (languages : List Json) (members : List PromiseId) :
      Away N language (.warm (.gathering languages members))
  | enter (languages : List Json) (members : List PromiseId) :
      Away N language (.enter (.gathering languages members))

/-- A job for another language. -/
inductive Job.Away (c : Config) (engine language : String) : Job → Prop
  | grammar {other : String} (hne : other ≠ language) :
      Away c engine language (.grammar engine ((c.locators.get? other).getD ""))
  | parse (parser : Nat) (source : List UInt8) : Away c engine language (.parse parser source)
  | copy (other : String) (source : List UInt8) (root : Node) : Away c engine language (.copy other source root)

/-- What is left of a call that is for no language: of a warm-up, that availability is looked up. -/
def Call.probing (c : Config) : Call → Call
  | warm _ | enter => check (some c.locators)
  | call => call

/-! ## More corresponds later -/

section mono

variable {I I₁ : PromiseId → PromiseId → Prop} {P P₁ : Nat → Nat → Prop} {L M M₁ : String → Prop}
  {G G₁ : Grammar → Grammar → Prop} {N N₁ : Names} {c : Config} {engine language : String}

theorem Reply.Match.mono {r r' : Reply} (h : r.Match G P r') (hG : ∀ {g g'}, G g g' → G₁ g g')
    (hP : ∀ {p p'}, P p p' → P₁ p p') : r.Match G₁ P₁ r' := by
  cases h with
  | plain h => exact .plain h
  | grammar hg => exact .grammar (hG hg)
  | bound hp hg => exact .bound (hP hp) (hG hg)
  | leased hp => exact .leased (hP hp)

theorem LeaseStage.Match.mono {point point' : LeaseStage} (h : point.Match I L M point')
    (hI : ∀ {p p'}, I p p' → I₁ p p') (hM : ∀ {l}, M l → M₁ l) : point.Match I₁ L M₁ point' := by
  cases h with
  | parser h => exact .parser h
  | lock hl ht => exact .lock (hM hl) (hI ht)

theorem ParseStage.Match.mono {point point' : ParseStage} (h : point.Match I L M point')
    (hI : ∀ {p p'}, I p p' → I₁ p p') (hM : ∀ {l}, M l → M₁ l) : point.Match I₁ L M₁ point' := by
  cases h with
  | leasing hl source crew h => exact .leasing hl source crew (h.mono hI hM)
  | running hl source crew hj => exact .running hl source crew (hI hj)
  | draining hl hj hw f => exact .draining hl (hI hj) (hI hw) f
  | copying other => exact .copying other

theorem Stage.Match.mono {point point' : Stage} (h : point.Match I P L M point')
    (hI : ∀ {p p'}, I p p' → I₁ p p') (hP : ∀ {p p'}, P p p' → P₁ p p') (hM : ∀ {l}, M l → M₁ l) :
    point.Match I₁ P₁ L M₁ point' := by
  cases h with
  | start hv hl => exact .start hv hl
  | fetch h => exact .fetch h
  | grammar h => exact .grammar h
  | parser h => exact .parser h
  | lease holder h => exact .lease holder (h.mono hI hM)
  | holding hl hp => exact .holding hl (hP hp)
  | parse use h => exact .parse use (h.mono hI hM)

theorem Pooled.Match.mono {q q' : Pooled} (h : q.Match I P q') (hI : ∀ {p p'}, I p p' → I₁ p p')
    (hP : ∀ {p p'}, P p p' → P₁ p p') : q.Match I₁ P₁ q' :=
  ⟨hP h.parser, h.held, h.tickets.imp fun _ _ => hI, h.leases⟩

theorem Job.Match.mono {job job' : Job} (h : job.Match P L c engine job') (hP : ∀ {p p'}, P p p' → P₁ p p') :
    job.Match P₁ L c engine job' := by
  cases h with
  | grammar hl => exact .grammar hl
  | parse hp source => exact .parse (hP hp) source
  | copy other source root => exact .copy other source root

theorem ParseStage.Away.mono (hN : N.Le N₁) : ∀ {point : ParseStage}, point.Away N language →
    point.Away N₁ language
  | .leasing .., h => h
  | .running .., h => h.imp_right hN.unnamed
  | .draining .., h => h.imp_right hN.unnamed
  | .copying _, _ => trivial

theorem Stage.Away.mono {point : Stage} (h : point.Away N language) (hN : N.Le N₁) :
    point.Away N₁ language := by
  cases h with
  | start hv hne => exact .start hv hne
  | fetch h => exact .fetch h
  | grammar h => exact .grammar h
  | parser h => exact .parser h
  | lease holder h => exact .lease holder h
  | holding hne p => exact .holding hne p
  | parse use h => exact .parse use (h.mono hN)
  | warm languages members => exact .warm languages members
  | enter languages members => exact .enter languages members

end mono

namespace Service

/-! ## Bonds -/

/-- By which names promises go in the second of two services, which grammars and parsers of a language
    correspond, and whether the language has a pooled parser for sure. -/
structure Bond where
  names : Names
  grammars : List (Grammar × Grammar)
  parsers : List (Nat × Nat)
  pooled : Prop

namespace Bond

variable {k k₁ k₂ : Bond} {N₁ : Names}

/-- More and more corresponds. -/
structure Le (k k₁ : Bond) : Prop where
  names : k.names.Le k₁.names
  grammars : k.grammars <+: k₁.grammars
  parsers : k.parsers <+: k₁.parsers
  pooled : k.pooled → k₁.pooled

theorem Le.refl (k : Bond) : k.Le k := ⟨.refl _, List.prefix_refl _, List.prefix_refl _, id⟩

theorem Le.trans (h : k.Le k₁) (h' : k₁.Le k₂) : k.Le k₂ :=
  ⟨h.names.trans h'.names, h.grammars.trans h'.grammars, h.parsers.trans h'.parsers, h'.pooled ∘ h.pooled⟩

/-- Corresponding grammars. -/
def Grammars (k : Bond) : Grammar → Grammar → Prop := World.Among k.grammars

/-- Corresponding parsers. -/
def Parsers (k : Bond) (p p' : Nat) : Prop := (p, p') ∈ k.parsers

theorem le_names (h : k.names.Le N₁) : k.Le { k with names := N₁ } :=
  ⟨h, List.prefix_refl _, List.prefix_refl _, id⟩

end Bond

/-- What is looked at: with which configuration and engine, which language, and from which grammars and parsers
    of it on. -/
structure View where
  config : Config
  engine : String
  language : String
  start : Ledger

/-- What comes of the jobs for the language does not depend on those for others. -/
def View.Independent (V : View) : Prop := V.start.Independent V.config V.engine V.language

/-- The second world is what the first would be if nothing had been done for other languages. -/
abbrev View.Twin (V : View) : List (Grammar × Grammar) → List (Nat × Nat) → World → World → Prop :=
  World.Twin V.config V.engine V.language V.start

/-- What corresponds in the loops of the two services. -/
def kinds (V : View) (k : Bond) : Kinds Reply Stage Hook where
  value := Reply.Match k.Grammars k.Parsers
  point := Stage.Match k.names.Links k.Parsers (· = V.language) fun l => l = V.language ∧ k.pooled
  idle a a' := ∃ call : Call, a = .start call ∧ a' = .start (call.probing V.config) ∧ call.language? = none
  away := Stage.Away k.names V.language
  hook := (· = .grammar V.language)

/-- Corresponding tickets. -/
structure Ticket.Match (V : View) (k : Bond) (t t' : Ticket) : Prop where
  crew : t'.crew = t.crew
  job : Job.Match k.Parsers (· = V.language) V.config V.engine t.job t'.job
  promise : k.names.Links t.promise t'.promise

/-- A ticket for a job of which nothing is left. -/
structure Ticket.Away (V : View) (k : Bond) (t : Ticket) : Prop where
  job : t.job.Away V.config V.engine V.language
  promise : k.names.Unnamed t.promise

/-- Corresponding workers, caches, flights and pools. -/
structure Tables (V : View) (k : Bond) (s s' : Service) : Prop where
  config : s.config = V.config
  config' : s'.config = V.config
  ready : s.engine? = .ok V.engine
  ready' : s'.engine? = .ok V.engine
  holds : s'.holdsWorkers = s.holdsWorkers
  eager : s'.workers.eager = s.workers.eager
  dismissed : s'.workers.dismissed = s.workers.dismissed
  stuck : s'.workers.stuck = s.workers.stuck
  queue : Sifted (Ticket.Match V k) (Ticket.Away V k) s.workers.queue
    s'.workers.queue
  kept : Option.Rel k.Grammars (s.grammars.get? V.language) (s'.grammars.get? V.language)
  load : Option.Rel k.names.Links (s.grammarFlight.entries.get? V.language)
    (s'.grammarFlight.entries.get? V.language)
  loads : ∀ {other op}, other ≠ V.language → s.grammarFlight.entries.get? other = some op → k.names.Unnamed op
  boot : s.bootFlight.entries.get? () = none
  boot' : s'.bootFlight.entries.get? () = none
  pool : Option.Rel (Pooled.Match k.names.Links k.Parsers) (s.pool.get? V.language) (s'.pool.get? V.language)
  pooled : k.pooled → s.pool.contains V.language = true
  tickets : ∀ {other q t}, other ≠ V.language → s.pool.get? other = some q → t ∈ q.lock.tickets →
    k.names.Unnamed t

/-- **The second service is what is left of the first when other languages are left out.** -/
structure Beside (V : View) (k : Bond) (s s' : Service) : Prop where
  loop : s.loop.Counterpart k.names (kinds V k) s'.loop
  tables : Tables V k s s'
  worlds : V.Twin k.grammars k.parsers s.world s'.world

variable {V : View} {k k₁ : Bond} {N₁ : Names} {s s' : Service}

namespace Bond.Le

variable (h : k.Le k₁)

include h

theorem grammar {g g' : Grammar} (hg : k.Grammars g g') : k₁.Grammars g g' := hg.extend h.grammars

theorem parser {p p' : Nat} (hp : k.Parsers p p') : k₁.Parsers p p' := h.parsers.subset hp

theorem kinds : (kinds V k).Le (kinds V k₁) where
  value hr := hr.mono h.grammar h.parser
  point hp := hp.mono h.names.links h.parser fun hl => hl.imp_right h.pooled
  idle := id
  away hp := hp.mono h.names
  hook := id

end Bond.Le

theorem Tables.mono (h : Tables V k s s') (hle : k.Le k₁)
    (hp : k₁.pooled → s.pool.contains V.language = true) : Tables V k₁ s s' where
  config := h.config
  config' := h.config'
  ready := h.ready
  ready' := h.ready'
  holds := h.holds
  eager := h.eager
  dismissed := h.dismissed
  stuck := h.stuck
  queue := h.queue.mono (fun ht => ⟨ht.crew, ht.job.mono hle.parser, hle.names.links ht.promise⟩)
    fun ht => ⟨ht.job, hle.names.unnamed ht.promise⟩
  kept := Option.Rel.imp h.kept hle.grammar
  load := Option.Rel.imp h.load hle.names.links
  loads hne ho := hle.names.unnamed (h.loads hne ho)
  boot := h.boot
  boot' := h.boot'
  pool := Option.Rel.imp h.pool (·.mono hle.names.links hle.parser)
  pooled := hp
  tickets hne hq ht := hle.names.unnamed (h.tickets hne hq ht)

namespace Beside

/-- The loops have changed, and there are new promises. -/
theorem withLoop (h : Beside V k s s') (hN : k.names.Le N₁)
    {l l' : Loop Reply Stage Hook} (hl : l.Counterpart N₁ (kinds V k) l') :
    Beside V { k with names := N₁ } { s with loop := l } { s' with loop := l' } where
  loop := hl.mono (Bond.le_names hN).kinds
  tables := { h.tables.mono (Bond.le_names hN) h.tables.pooled with }
  worlds := h.worlds

end Beside

/-! ## What is done for the language -/

/-- Services that stand beside each other are paired.  All promises that are made for the language have names
    in both. -/
abbrev pairing (V : View) : Pairing Bond where
  le k k₁ := k.Le k₁ ∧ ∃ m, k₁.names = Names.push^[m] k.names
  promise k := k.names.Links
  grammar k := k.Grammars
  parser k := k.Parsers
  language l := l = V.language
  inPool k l := l = V.language ∧ k.pooled
  config := V.config
  engine := V.engine
  paired := Beside V

theorem grows : (pairing V).Grows where
  refl k := ⟨.refl k, 0, rfl⟩
  trans := by
    rintro k k₁ k₂ ⟨h, m, hm⟩ ⟨h', m', hm'⟩
    exact ⟨h.trans h', m' + m, by rw [hm', hm, Function.iterate_add_apply]⟩
  promise_mono h := h.1.names.links
  promise_iff h h' := h.eq_iff h'
  grammar_mono h := h.1.grammar
  parser_mono h := h.1.parser
  inPool_mono h hl := hl.imp_right h.1.pooled
  language hl := hl.1
  null _ := .inl ⟨rfl, rfl⟩

theorem Beside.kept (h : Beside V k s s') :
    Option.Rel k.Grammars (Grammars.kept? s V.language) (Grammars.kept? s' V.language) := by
  have hkept := h.tables.kept
  unfold Grammars.kept?
  generalize s.grammars.get? V.language = g at hkept ⊢
  generalize s'.grammars.get? V.language = g' at hkept ⊢
  cases hkept with
  | none => exact .none
  | @some g g' hg =>
    have hnone := (h.worlds.sameGrammar hg).none_iff
    cases g with
    | none =>
      rw [hnone.1 rfl]
      exact .none
    | some n =>
      cases g' with
      | none => cases hnone.2 rfl
      | some n' => exact .some hg

theorem agrees : (pairing V).Agrees where
  config h := ⟨h.tables.config, h.tables.config'⟩
  engine h := ⟨h.tables.ready, h.tables.ready'⟩
  holds h := h.tables.holds
  files h := h.worlds.files
  kept h hl := hl ▸ h.kept
  pooled h hl := hl ▸ h.tables.pool
  found h hl := hl.1 ▸ h.tables.pooled hl.2
  isPending h hp := h.loop.isPending hp
  isCancelled h hp := h.loop.isCancelled hp
  grammarOf h hp := h.worlds.bound hp

theorem follows (hx : V.Independent) : (pairing V).Follows where
  noted h counts log counts' log' := ⟨h.loop, { h.tables with }, h.worlds⟩
  keep {k s s' l g g'} h hl hg := by
    cases hl
    refine ⟨h.loop, { h.tables with kept := ?_ }, h.worlds⟩
    rw [Keyed.get?_put, Keyed.get?_put, if_pos rfl, if_pos rfl]
    exact .some hg
  pool {k s s' l q q'} h hl hq := by
    cases hl
    refine ⟨h.loop, { h.tables with pool := ?_, pooled := fun _ => ?_, tickets := fun {other q₁ t} hne hq₁ => ?_ },
      h.worlds⟩
    · rw [Keyed.get?_put, Keyed.get?_put, if_pos rfl, if_pos rfl]
      exact .some hq
    · simp [Keyed.contains]
    · rw [Keyed.get?_put, if_neg hne] at hq₁
      exact h.tables.tickets hne hq₁
  lend h hp holder := ⟨h.loop, { h.tables with }, h.worlds.lend hx hp holder⟩
  settle h hp ho := h.withLoop (.refl _) (h.loop.settle hp ho)
  unsubscribe h hp hw := h.withLoop (.refl _) (h.loop.unsubscribe hp hw)

/-- A promise that is made in both has a name. -/
theorem le_push (k : Bond) : (pairing V).le k { k with names := k.names.push } :=
  ⟨Bond.le_names k.names.le_push, 1, rfl⟩

/-- The load of the language is joined in both, or started in both. -/
theorem mirrors_attach (k : Bond) :
    (pairing V).Mirrors (fun k => k.names.Links) k (Grammars.attach V.language)
      (Grammars.attach V.language) := by
  intro s s' h
  have hrunning : Option.Rel k.names.Links (s.grammarFlight.running? s.loop V.language)
      (s'.grammarFlight.running? s'.loop V.language) := by
    have hload := h.tables.load
    unfold Flight.running?
    generalize s.grammarFlight.entries.get? V.language = op at hload ⊢
    generalize s'.grammarFlight.entries.get? V.language = op' at hload ⊢
    cases hload with
    | none => exact .none
    | some hop =>
      rw [Option.filter_some, Option.filter_some, h.loop.isPending hop]
      split
      · exact .some hop
      · exact .none
  rw [attach_grammar_eq, attach_grammar_eq]
  cases hr : s.grammarFlight.running? s.loop V.language <;>
    cases hr' : s'.grammarFlight.running? s'.loop V.language <;> rw [hr, hr'] at hrunning <;> cases hrunning
  · -- No load is running: one is started, and joined.
    rw [Flight.attach_idle hr, Flight.attach_idle hr']
    have hop := h.loop.promise_links
    have hpoint : (kinds V k).point (.fetch (.start V.language)) (.fetch (.start V.language)) :=
      .fetch (show V.language = V.language from rfl)
    have hlaunched := (h.loop.spawn hpoint).subscribe hop (.hook (k := Hook.grammar V.language) rfl)
    have hshielded := (hlaunched.shield hop).2
    have houter : k.names.push.push.Links (s.loop.promises.size + 1) (s'.loop.promises.size + 1) := by
      rw [h.loop.size, h.loop.size']
      exact k.names.push.push_links
    have hle : k.names.Le k.names.push.push := k.names.le_push.trans k.names.push.le_push
    have hbeside := h.withLoop hle hshielded
    refine ⟨_, ⟨Bond.le_names hle, 2, rfl⟩, ?_, hbeside.loop, { hbeside.tables with load := ?_, loads := ?_ },
      hbeside.worlds⟩
    · exact houter
    · show Option.Rel k.names.push.push.Links ((s.grammarFlight.entries.put V.language _).get? V.language)
        ((s'.grammarFlight.entries.put V.language _).get? V.language)
      rw [Keyed.get?_put, Keyed.get?_put, if_pos rfl, if_pos rfl]
      exact .some (k.names.push.le_push.links hop)
    · intro other op hne hop
      replace hop : (s.grammarFlight.entries.put V.language _).get? other = some op := hop
      rw [Keyed.get?_put, if_neg hne] at hop
      exact hle.unnamed (h.tables.loads hne hop)
  · rename_i op op' hop
    rw [Flight.attach_running hr, Flight.attach_running hr']
    obtain ⟨houter, hshielded⟩ := h.loop.shield hop
    have hbeside := h.withLoop k.names.le_push hshielded
    exact ⟨_, le_push k, houter, hbeside.loop, { hbeside.tables with }, hbeside.worlds⟩

/-- A job for the language is done in both worlds, and the same comes of it. -/
theorem Beside.perform (h : Beside V k s s') (hx : V.Independent)
    {job job' : Job} (hj : job.Match k.Parsers (· = V.language) V.config V.engine job') :
    ∃ gs, k.Le { k with grammars := gs } ∧
      ResultsMatch (Reply.Match (World.Among gs) k.Parsers) (job.run s.world).1 (job'.run s'.world).1 ∧
      Beside V { k with grammars := gs } { s with world := (job.run s.world).2 }
        { s' with world := (job'.run s'.world).2 } := by
  have hsame : ∀ {w w'}, V.Twin k.grammars k.parsers w w' →
      Beside V k { s with world := w } { s' with world := w' } := fun hw =>
    ⟨h.loop, { h.tables with }, hw⟩
  cases hj with
  | @grammar other hl =>
    cases hl
    cases hr : (Attempt.fetchGrammar V.engine ((V.config.locators.get? V.language).getD "")).run s.world with
    | mk r w =>
    cases hr' : (Attempt.fetchGrammar V.engine ((V.config.locators.get? V.language).getD "")).run s'.world with
    | mk r' w' =>
    simp only [Job.run, hr, hr']
    rcases h.worlds.fetch hx hr hr' with ⟨f, rfl, rfl, hw⟩ | ⟨g, g', rfl, rfl, hw⟩
    · exact ⟨k.grammars, .refl k, .error f, hsame hw⟩
    · have hle : k.Le { k with grammars := k.grammars ++ [(g, g')] } :=
        ⟨.refl _, List.prefix_append _ _, List.prefix_refl _, id⟩
      have hnew : World.Among (k.grammars ++ [(g, g')]) g g' := .inr (by simp)
      exact ⟨_, hle, .ok (.grammar hnew), h.loop.mono hle.kinds, { h.tables.mono hle h.tables.pooled with }, hw⟩
  | @parse p p' hp source =>
    cases hr : (Attempt.parse p source).run s.world with
    | mk r w =>
    cases hr' : (Attempt.parse p' source).run s'.world with
    | mk r' w' =>
    simp only [Job.run, hr, hr']
    obtain ⟨rfl, hw⟩ := h.worlds.parse hx hp hr hr'
    refine ⟨k.grammars, .refl k, ?_, hsame hw⟩
    cases r' with
    | ok root => exact .ok (.plain rfl)
    | error f => exact .error f
  | copy other source root => exact ⟨k.grammars, .refl k, .ok (.plain rfl), hsame h.worlds⟩

/-- A job is handed in in both. -/
theorem mirrors_submit (hx : V.Independent) (crew : Crew) {job job' : Job}
    (hj : job.Match k.Parsers (· = V.language) V.config V.engine job') :
    (pairing V).Mirrors (fun k => ResultsMatch k.names.Links) k (Work.submit crew job)
      (Work.submit crew job') := by
  intro s s' h
  rw [Work.submit_eq, Work.submit_eq, h.tables.dismissed]
  split
  · exact ⟨k, grows.refl k, .error _, h⟩
  unfold Work.handedIn
  rw [h.tables.eager]
  split
  · obtain ⟨gs, hle, hr, hdone⟩ := h.perform hx hj
    have hmade := hdone.withLoop k.names.le_push hdone.loop.promise
    refine ⟨_, ⟨hle.trans (Bond.le_names k.names.le_push), 1, rfl⟩, .ok h.loop.promise_links, ?_⟩
    exact hmade.withLoop (.refl _) (hmade.loop.enqueue (.deliver h.loop.promise_links hr))
  · have hmade := h.withLoop k.names.le_push h.loop.promise
    refine ⟨_, le_push k, .ok h.loop.promise_links, hmade.loop, { hmade.tables with queue := ?_ }, hmade.worlds⟩
    exact hmade.tables.queue.append (.one ⟨rfl, hj, h.loop.promise_links⟩)

/-- A parser is made in both. -/
theorem mirrors_bindParser (hx : V.Independent) {g g' : Grammar} (hg : k.Grammars g g') :
    (pairing V).Mirrors (fun k => ResultsMatch k.Parsers) k
      (Work.attempt (.bindParser V.engine g)) (Work.attempt (.bindParser V.engine g')) := by
  intro s s' h
  show ∃ k₁, _ ∧ ResultsMatch k₁.Parsers ((Attempt.bindParser V.engine g).run s.world).1
    ((Attempt.bindParser V.engine g').run s'.world).1 ∧ Beside V k₁
      { s with world := ((Attempt.bindParser V.engine g).run s.world).2 }
      { s' with world := ((Attempt.bindParser V.engine g').run s'.world).2 }
  cases hr : (Attempt.bindParser V.engine g).run s.world with
  | mk r w =>
  cases hr' : (Attempt.bindParser V.engine g').run s'.world with
  | mk r' w' =>
  rcases h.worlds.bind hx hg hr hr' with ⟨f, rfl, rfl, hw⟩ | ⟨p, p', rfl, rfl, hw⟩
  · exact ⟨k, grows.refl k, .error f, h.loop, { h.tables with }, hw⟩
  · have hle : k.Le { k with parsers := k.parsers ++ [(p, p')] } :=
      ⟨.refl _, List.prefix_refl _, List.prefix_append _ _, id⟩
    exact ⟨_, ⟨hle, 0, rfl⟩, .ok (by simp [Bond.Parsers]), h.loop.mono hle.kinds,
      { h.tables.mono hle h.tables.pooled with }, hw⟩

/-- **Services that stand beside each other are a lawful pairing.** -/
theorem pairing_lawful (hx : V.Independent) : (pairing V).Lawful where
  toGrows := grows
  toAgrees := agrees
  toFollows := follows hx
  enter {k s s' l} h hl hc := by
    cases hl
    have hle : k.Le { k with pooled := True } :=
      ⟨.refl _, List.prefix_refl _, List.prefix_refl _, fun _ => trivial⟩
    exact ⟨_, ⟨hle, 0, rfl⟩, ⟨rfl, trivial⟩, h.loop.mono hle.kinds, h.tables.mono hle fun _ => hc, h.worlds⟩
  newPromise k s s' h := ⟨_, le_push k, h.loop.promise_links, h.withLoop k.names.le_push h.loop.promise⟩
  shield {k p p'} hp s s' h := ⟨_, le_push k, (h.loop.shield hp).1, h.withLoop k.names.le_push (h.loop.shield hp).2⟩
  waiter {k p p'} hp s s' h := ⟨_, le_push k, (h.loop.waiter hp).1, h.withLoop k.names.le_push (h.loop.waiter hp).2⟩
  attach {k l} hl := by
    cases hl
    exact mirrors_attach k
  submit crew hj := mirrors_submit hx crew hj
  bindParser hg := mirrors_bindParser hx hg

end Service

end SourceTrees
