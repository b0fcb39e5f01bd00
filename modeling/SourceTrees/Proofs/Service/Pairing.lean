import SourceTrees.Proofs.Loop.Counterpart
import SourceTrees.Proofs.Service.Jobs
import SourceTrees.Service.Calls

/-!
# What is done for a language in two services

Two services are run side by side in which the promises, grammars and parsers of some languages correspond to
each other.  Whatever is done for such a language is done in both, and they correspond afterwards.

## Protocol

* A **pairing** says how promises, grammars and parsers correspond, which languages are looked at, and which
  services are paired.  As the services go on, more and more of them correspond.
* Work **mirrors** other work if in paired services they answer alike and leave the services paired.
* The engine is ready in both services, and neither is closed.

## Results

* `Pairing`, `Pairing.Lawful` — the notion, and what the parts of turns must do.
* `Pairing.Mirrors` — mirrored work, and how it is put together.
-/

set_option autoImplicit false

namespace SourceTrees

open Loop

/-! ## What corresponds to what -/

/-- The language that a call is for, which may be a value of any kind.  A file is for the language that its
    path tells. -/
def Call.language? : Call → Option Json
  | parse _ language | load language | getParser language | lease _ language | snippetTool _ language _ =>
    some language
  | parseFile _ path | fileTool path _ => (Parsing.detect path).map .str
  | _ => none

/-- The value names a language of the kind, if it names one. -/
def Json.Names (L : String → Prop) (v : Json) : Prop := ∀ name, v = .str name → L name

/-- The reply holds no grammar and no parser. -/
def Reply.isPlain : Reply → Bool
  | grammar _ | bound .. | leased _ => false
  | _ => true

/-- Corresponding replies: the same, but for grammars and parsers. -/
inductive Reply.Match (G : Grammar → Grammar → Prop) (P : Nat → Nat → Prop) : Reply → Reply → Prop
  | plain {r : Reply} (h : r.isPlain = true) : Match G P r r
  | grammar {g g' : Grammar} (hg : G g g') : Match G P (.grammar g) (.grammar g')
  | bound {p p' : Nat} {g g' : Grammar} (hp : P p p') (hg : G g g') : Match G P (.bound p g) (.bound p' g')
  | leased {p p' : Nat} (hp : P p p') : Match G P (.leased p) (.leased p')

/-- The load is of such a language. -/
def FetchStage.IsFor (L : String → Prop) : FetchStage → Prop
  | start language | fetching language _ => L language

/-- The request is for such a language, and waits for its load. -/
def GrammarStage.IsFor (L : String → Prop) : GrammarStage → Prop
  | booting _ => False
  | loading language => L language

/-- The request is for such a language, and waits for its load. -/
def PoolStage.IsFor (L : String → Prop) : PoolStage → Prop
  | grammar language point => L language ∧ point.IsFor L

section

variable (I : PromiseId → PromiseId → Prop) (P : Nat → Nat → Prop) (L M : String → Prop)

/-- Corresponding points of a lease, for languages of the first kind; those of the second have a pooled
    parser. -/
inductive LeaseStage.Match : LeaseStage → LeaseStage → Prop
  | parser {point : PoolStage} (h : point.IsFor L) : Match (.parser point) (.parser point)
  | lock {language : String} {ticket ticket' : PromiseId} (hl : M language) (ht : I ticket ticket') :
      Match (.lock language ticket) (.lock language ticket')

/-- Corresponding points of a parse. -/
inductive ParseStage.Match : ParseStage → ParseStage → Prop
  | leasing {language : String} (hl : L language) (source : List UInt8) (crew : Crew) {point point' : LeaseStage}
      (h : point.Match I L M point') :
      Match (.leasing language source crew point) (.leasing language source crew point')
  | running {language : String} (hl : L language) (source : List UInt8) (crew : Crew) {job job' : PromiseId}
      (hj : I job job') : Match (.running language source crew job) (.running language source crew job')
  | draining {language : String} (hl : L language) {job job' waiter waiter' : PromiseId} (hj : I job job')
      (hw : I waiter waiter') (cancellation : Fault) :
      Match (.draining language job waiter cancellation) (.draining language job' waiter' cancellation)
  | copying (language : String) : Match (.copying language) (.copying language)

/-- Corresponding points of calls and loads for a language. -/
inductive Stage.Match : Stage → Stage → Prop
  | start {call : Call} {v : Json} (hv : call.language? = some v) (hl : v.Names L) :
      Match (.start call) (.start call)
  | fetch {point : FetchStage} (h : point.IsFor L) : Match (.fetch point) (.fetch point)
  | grammar {point : GrammarStage} (h : point.IsFor L) : Match (.grammar point) (.grammar point)
  | parser {point : PoolStage} (h : point.IsFor L) : Match (.parser point) (.parser point)
  | lease (holder : String) {point point' : LeaseStage} (h : point.Match I L M point') :
      Match (.lease holder point) (.lease holder point')
  | holding {language : String} (hl : L language) {p p' : Nat} (hp : P p p') :
      Match (.holding language p) (.holding language p')
  | parse (use : ParseUse) {point point' : ParseStage} (h : point.Match I L M point') :
      Match (.parse use point) (.parse use point')

/-- Corresponding parsers of a pool. -/
structure Pooled.Match (q q' : Pooled) : Prop where
  parser : P q.parser q'.parser
  held : q'.lock.held = q.lock.held
  tickets : List.Forall₂ I q.lock.tickets q'.lock.tickets
  leases : q'.leases = q.leases

/-- Corresponding jobs: the grammar of a language is fetched, a source is parsed, or a tree is copied. -/
inductive Job.Match (c : Config) (engine : String) : Job → Job → Prop
  | grammar {language : String} (hl : L language) : Match c engine
      (.grammar engine ((c.locators.get? language).getD ""))
      (.grammar engine ((c.locators.get? language).getD ""))
  | parse {p p' : Nat} (hp : P p p') (source : List UInt8) : Match c engine (.parse p source) (.parse p' source)
  | copy (language : String) (source : List UInt8) (root : Node) :
      Match c engine (.copy language source root) (.copy language source root)

end

/-! ## Pairings -/

/-- How promises, grammars and parsers of two services correspond at a time, which come to be more, which
    languages are looked at, which of them have a pooled parser for sure, and which services are paired.  The
    services have the same configuration, and the engine is ready. -/
structure Pairing (W : Type) where
  le : W → W → Prop
  promise : W → PromiseId → PromiseId → Prop
  grammar : W → Grammar → Grammar → Prop
  parser : W → Nat → Nat → Prop
  language : String → Prop
  inPool : W → String → Prop
  config : Config
  engine : String
  paired : W → Service → Service → Prop

namespace Pairing

variable {W α β P Q : Type}

/-- Corresponding replies. -/
def reply (K : Pairing W) (k : W) : Reply → Reply → Prop := Reply.Match (K.grammar k) (K.parser k)

/-- Corresponding points of calls and loads. -/
def stage (K : Pairing W) (k : W) : Stage → Stage → Prop :=
  Stage.Match (K.promise k) (K.parser k) K.language (K.inPool k)

/-- The same point, of a kind. -/
def same (A : P → Prop) (_ : W) (a a' : P) : Prop := a' = a ∧ A a

/-- Turns that end alike. -/
def turn (K : Pairing W) (R : W → P → P → Prop) (S : W → α → α → Prop) (k : W) : Turn P α → Turn P α → Prop :=
  Turn.Match (K.promise k) (R k) (S k)

/-- The work answers alike in paired services, and leaves them paired. -/
def Mirrors (K : Pairing W) (R : W → α → α → Prop) (k : W) (f f' : Work α) : Prop :=
  ∀ ⦃s s' : Service⦄, K.paired k s s' →
    ∃ k₁, K.le k k₁ ∧ R k₁ (f s).1 (f' s').1 ∧ K.paired k₁ (f s).2 (f' s').2

/-- More and more corresponds, and goes on to, one promise to one. -/
structure Grows (K : Pairing W) : Prop where
  refl : ∀ k, K.le k k
  trans : ∀ {k k₁ k₂}, K.le k k₁ → K.le k₁ k₂ → K.le k k₂
  promise_mono : ∀ {k k₁ p p'}, K.le k k₁ → K.promise k p p' → K.promise k₁ p p'
  promise_iff : ∀ {k p p' q q'}, K.promise k p p' → K.promise k q q' → (p' = q' ↔ p = q)
  grammar_mono : ∀ {k k₁ g g'}, K.le k k₁ → K.grammar k g g' → K.grammar k₁ g g'
  parser_mono : ∀ {k k₁ p p'}, K.le k k₁ → K.parser k p p' → K.parser k₁ p p'
  inPool_mono : ∀ {k k₁ l}, K.le k k₁ → K.inPool k l → K.inPool k₁ l
  language : ∀ {k l}, K.inPool k l → K.language l
  null : ∀ k, K.grammar k none none

/-- Whatever is looked at corresponds. -/
structure Agrees (K : Pairing W) : Prop where
  config : ∀ {k s s'}, K.paired k s s' → s.config = K.config ∧ s'.config = K.config
  engine : ∀ {k s s'}, K.paired k s s' → s.engine? = .ok K.engine ∧ s'.engine? = .ok K.engine
  holds : ∀ {k s s'}, K.paired k s s' → s'.holdsWorkers = s.holdsWorkers
  files : ∀ {k s s'}, K.paired k s s' → s'.world.files = s.world.files
  kept : ∀ {k s s' l}, K.paired k s s' → K.language l →
    Option.Rel (K.grammar k) (Grammars.kept? s l) (Grammars.kept? s' l)
  pooled : ∀ {k s s' l}, K.paired k s s' → K.language l →
    Option.Rel (Pooled.Match (K.promise k) (K.parser k)) (s.pool.get? l) (s'.pool.get? l)
  found : ∀ {k s s' l}, K.paired k s s' → K.inPool k l → s.pool.contains l = true
  isPending : ∀ {k s s' p p'}, K.paired k s s' → K.promise k p p' →
    s'.loop.isPending p' = s.loop.isPending p
  isCancelled : ∀ {k s s' p p'}, K.paired k s s' → K.promise k p p' →
    s'.loop.isCancelled p' = s.loop.isCancelled p
  grammarOf : ∀ {k s s' p p'}, K.paired k s s' → K.parser k p p' →
    K.grammar k (s.world.grammarOf p) (s'.world.grammarOf p')

/-- What is changed alike goes on to correspond. -/
structure Follows (K : Pairing W) : Prop where
  noted : ∀ {k s s'}, K.paired k s s' → ∀ counts log counts' log',
    K.paired k { s with counts, log } { s' with counts := counts', log := log' }
  keep : ∀ {k s s' l g g'}, K.paired k s s' → K.language l → K.grammar k g g' →
    K.paired k { s with grammars := s.grammars.put l g } { s' with grammars := s'.grammars.put l g' }
  pool : ∀ {k s s' l q q'}, K.paired k s s' → K.language l → Pooled.Match (K.promise k) (K.parser k) q q' →
    K.paired k { s with pool := s.pool.put l q } { s' with pool := s'.pool.put l q' }
  lend : ∀ {k s s' p p'}, K.paired k s s' → K.parser k p p' → ∀ holder,
    K.paired k { s with world := s.world.note (.leased holder p) }
      { s' with world := s'.world.note (.leased holder p') }
  settle : ∀ {k s s' p p' o o'}, K.paired k s s' → K.promise k p p' → o.Match (K.reply k) o' →
    K.paired k { s with loop := s.loop.settle p o } { s' with loop := s'.loop.settle p' o' }
  unsubscribe : ∀ {k s s' p p' w w'}, K.paired k s s' → K.promise k p p' → K.promise k w w' →
    K.paired k { s with loop := s.loop.unsubscribe p (.signal w) }
      { s' with loop := s'.loop.unsubscribe p' (.signal w') }

/-- So does what is made alike: promises, loads, jobs and parsers.  A parser that is found in the pool is there
    from now on. -/
structure Lawful (K : Pairing W) : Prop extends K.Grows, K.Agrees, K.Follows where
  enter : ∀ {k s s' l}, K.paired k s s' → K.language l → s.pool.contains l = true →
    ∃ k₁, K.le k k₁ ∧ K.inPool k₁ l ∧ K.paired k₁ s s'
  newPromise : ∀ k, K.Mirrors K.promise k (Work.onLoop (·.promise)) (Work.onLoop (·.promise))
  shield : ∀ {k p p'}, K.promise k p p' →
    K.Mirrors K.promise k (Work.onLoop (·.shield p)) (Work.onLoop (·.shield p'))
  waiter : ∀ {k p p'}, K.promise k p p' →
    K.Mirrors K.promise k (Work.onLoop (·.waiter p)) (Work.onLoop (·.waiter p'))
  attach : ∀ {k l}, K.language l → K.Mirrors K.promise k (Grammars.attach l) (Grammars.attach l)
  submit : ∀ {k job job'} crew, Job.Match (K.parser k) K.language K.config K.engine job job' →
    K.Mirrors (fun k₁ => ResultsMatch (K.promise k₁)) k (Work.submit crew job) (Work.submit crew job')
  bindParser : ∀ {k g g'}, K.grammar k g g' →
    K.Mirrors (fun k₁ => ResultsMatch (K.parser k₁)) k (Work.attempt (.bindParser K.engine g))
      (Work.attempt (.bindParser K.engine g'))

/-! ## How mirrored work is put together -/

namespace Mirrors

variable {K : Pairing W} {k k₁ : W} {R : W → α → α → Prop} {S : W → β → β → Prop} {RP : W → P → P → Prop}
  {RQ : W → Q → Q → Prop} {a a' : α} {f f' : Work α} {point point' : P} {p p' : PromiseId}
  {turn turn' : Turn P α}

section

variable (hK : K.Lawful)

include hK

theorem pure (h : R k a a') : K.Mirrors R k (pure a) (pure a') := fun _ _ hs => ⟨k, hK.refl k, h, hs⟩

theorem done (h : R k a a') : K.Mirrors (K.turn RP R) k (Work.done a) (Work.done a') :=
  .pure hK (.finish (.ok h))

theorem fail (f : Fault) : K.Mirrors (K.turn RP R) k (Work.fail f) (Work.fail f) :=
  .pure hK (.finish (.error f))

theorem restOn (hp : K.promise k p p') (h : RP k point point') :
    K.Mirrors (K.turn RP R) k (Work.restOn p point) (Work.restOn p' point') :=
  .pure hK (.rest hp h)

theorem bind {g g' : α → Work β} (hf : K.Mirrors R k f f')
    (hg : ∀ {k₁ a a'}, K.le k k₁ → R k₁ a a' → K.Mirrors S k₁ (g a) (g' a')) :
    K.Mirrors S k (f >>= g) (f' >>= g') := by
  intro s s' hs
  obtain ⟨k₁, hle, hr, hs₁⟩ := hf hs
  obtain ⟨k₂, hle₂, hr₂, hs₂⟩ := hg hle hr hs₁
  exact ⟨k₂, hK.trans hle hle₂, hr₂, hs₂⟩

theorem change {g g' : Service → Service} (h : ∀ {s s'}, K.paired k s s' → K.paired k (g s) (g' s')) :
    K.Mirrors (fun _ _ _ => True) k (modify g : Work Unit) (modify g' : Work Unit) :=
  fun _ _ hs => ⟨k, hK.refl k, trivial, h hs⟩

omit hK in
theorem ite {b : Prop} [Decidable b] {g g' : Work α} (hf : K.Mirrors R k f f') (hg : K.Mirrors R k g g') :
    K.Mirrors R k (if b then f else g) (if b then f' else g') := by
  split
  · exact hf
  · exact hg

/-- A call made in turn, and what goes on from there. -/
theorem andThen {wrap : P → Q} {next next' : Except Fault α → Work (Turn Q β)}
    (h : K.turn RP R k turn turn') (hwrap : ∀ {a a'}, RP k a a' → RQ k (wrap a) (wrap a'))
    (hnext : ∀ {x x'}, ResultsMatch (R k) x x' → K.Mirrors (K.turn RQ S) k (next x) (next' x')) :
    K.Mirrors (K.turn RQ S) k (Work.andThen turn wrap next) (Work.andThen turn' wrap next') := by
  cases h with
  | rest hp ha => exact .pure hK (.rest hp (hwrap ha))
  | finish hx => exact hnext hx

theorem count (g g' : Counts → Counts) :
    K.Mirrors (fun _ _ _ => True) k (Work.count g) (Work.count g') :=
  .change hK fun {s s'} hs => hK.noted hs (g s.counts) s.log (g' s'.counts) s'.log

theorem log (line line' : LogLine) :
    K.Mirrors (fun _ _ _ => True) k (Work.log line) (Work.log line') :=
  .change hK fun {s s'} hs => hK.noted hs s.counts (s.log ++ [line]) s'.counts (s'.log ++ [line'])

end

/-- Work may look at paired services. -/
theorem look {g g' : Service → Work β} (h : ∀ {s s'}, K.paired k s s' → K.Mirrors S k (g s) (g' s')) :
    K.Mirrors S k ((MonadState.get : Work Service) >>= g) ((MonadState.get : Work Service) >>= g') :=
  fun _ _ hs => h hs hs

/-- Work may look whether there is a pooled parser, which is there from now on. -/
theorem lookInPool (hK : K.Lawful) {l : String} (hl : K.language l) {g g' : Service → Work β}
    (hin : ∀ {k₁ s s'}, K.le k k₁ → K.inPool k₁ l → K.paired k₁ s s' → s.pool.contains l = true →
      s'.pool.contains l = true → K.Mirrors S k₁ (g s) (g' s'))
    (hout : ∀ {s s'}, K.paired k s s' → s.pool.contains l = false → s'.pool.contains l = false →
      K.Mirrors S k (g s) (g' s')) :
    K.Mirrors S k ((MonadState.get : Work Service) >>= g) ((MonadState.get : Work Service) >>= g') := by
  intro s s' hs
  have hsame : s'.pool.contains l = s.pool.contains l := by
    have hq := hK.pooled hs hl
    unfold Keyed.contains
    generalize s.pool.get? l = q at hq ⊢
    generalize s'.pool.get? l = q' at hq ⊢
    cases hq <;> rfl
  cases hc : s.pool.contains l with
  | true =>
    obtain ⟨k₁, hle, hl₁, hs₁⟩ := hK.enter hs hl hc
    obtain ⟨k₂, hle₂, hr, hs₂⟩ := hin hle hl₁ hs₁ hc (hsame.trans hc) hs₁
    exact ⟨k₂, hK.trans hle hle₂, hr, hs₂⟩
  | false => exact hout hs hc (hsame.trans hc) hs

end Mirrors

end Pairing

end SourceTrees
