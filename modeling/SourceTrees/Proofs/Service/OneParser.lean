import SourceTrees.Proofs.Service.Pooling

/-!
# One parser for a language

However many calls ask for the parser of a language, whoever of them is cancelled, and however often
grammars cannot be fetched and parsers cannot be made, there is one parser for the language, and all
requests and leases that end well are given that one.  That is so in every run in which engine and
grammars raise ordinary faults, no null grammar is compiled, and nobody but callers is cancelled.

## Protocol

* A parser was **made** for a language if in some move of the run the engine came to have it, and the pool
  then had it for the language.
* Who has a pooled parser has a kept grammar, and who has a kept grammar has a locator.
* A lease is **held** from the moment when the lock has been taken until it is ended from outside.

## Results

* `Service.PoolsOnce` — the law for a run.
* **`Service.pools_once`** — every run of the kind obeys it.
-/

set_option autoImplicit false

namespace SourceTrees.Service

open Loop

variable {s s' : Service} {roles roles' : Roles Hook Job} {w : Woken} {m m' : Midst} {mv : Service.Move}
  {ms : List Service.Move} {c : PromiseId} {turn : Turn Stage Reply} {language : String} {n p : Nat}

/-! ## The law -/

/-- In the course of the run the parser was made for the language. -/
def Made (s : Service) (ms : List Service.Move) (language : String) (p : Nat) : Prop :=
  ∃ before mv after, ms = before ++ mv :: after ∧ (s.moves before).world.parsers.length < p ∧
    p ≤ (s.moves (before ++ [mv])).world.parsers.length ∧
    (s.moves (before ++ [mv])).parser? language = some p

/-- The law for the state that a run comes to. -/
structure PoolsOnce (s : Service) (ms : List Service.Move) : Prop where
  /-- A parser that was pooled on the way is pooled, and no other in its place. -/
  stays : ∀ {before after language p}, ms = before ++ after →
    (s.moves before).parser? language = some p → (s.moves ms).parser? language = some p
  /-- The pooled parsers are those that were made. -/
  made : ∀ {language p}, Made s ms language p ↔ (s.moves ms).parser? language = some p
  /-- One parser of a language at most was made. -/
  once : ∀ {language p p'}, Made s ms language p → Made s ms language p' → p = p'
  /-- Every parser that the run has bound to a grammar was made for a language. -/
  successful : ∀ {p x}, s.world.parsers.length < p → (s.moves ms).world.grammarOf p = some x →
    ∃ language, Made s ms language p
  /-- A pooled parser is bound to the grammar that is kept for its language. -/
  bound : ∀ {language p}, (s.moves ms).parser? language = some p →
    ∃ x, (s.moves ms).grammars.get? language = some x ∧ (s.moves ms).world.grammarOf p = x
  /-- Different languages have different parsers. -/
  apart : ∀ {language language' p}, (s.moves ms).parser? language = some p →
    (s.moves ms).parser? language' = some p → language = language'
  /-- As many parsers are counted as are pooled. -/
  created : (s.moves ms).counts.parsers.created = (s.moves ms).pool.size
  /-- The language of a pooled parser is loaded. -/
  loaded : ∀ {language}, (s.moves ms).pool.contains language = true →
    (s.moves ms).grammars.contains language = true
  /-- A language that is loaded has a locator. -/
  located : ∀ {language}, (s.moves ms).grammars.contains language = true →
    s.config.hasLocator language = true
  /-- The engine is ready as soon as anything is loaded or pooled. -/
  ready : ∀ {language}, (s.moves ms).grammars.contains language = true ∨
    (s.moves ms).pool.contains language = true → (s.moves ms).phase = .ready
  /-- A request for a parser that ends well is answered with the pooled one and its grammar. -/
  replied : ∀ {c v language}, Began s ms (.getParser language) c →
    (s.moves ms).loop.outcome? c = some (.value v) →
    ∃ name p x, language = .str name ∧ v = .bound p x ∧ (s.moves ms).parser? name = some p ∧
      (s.moves ms).grammars.get? name = some x
  /-- A lease is held on the pooled parser. -/
  held : ∀ {c holder language name p on}, Began s ms (.lease holder language) c →
    (s.moves ms).loop.place? c = some (.holding name p, on) →
    language = .str name ∧ (s.moves ms).parser? name = some p
  /-- A lease that ends well was one on the pooled parser. -/
  returned : ∀ {c v holder language}, Began s ms (.lease holder language) c →
    (s.moves ms).loop.outcome? c = some (.value v) →
    ∃ name p, language = .str name ∧ v = .leased p ∧ (s.moves ms).parser? name = some p

/-! ## Requests for parsers -/

theorem parser?_of_contains (h : s.pool.contains language = true) :
    s.parser? language = some (Pool.parserOf s language) := by
  obtain ⟨pooled, hp⟩ := exists_pooled h
  rw [parser?_of_get? hp, Pool.parserOf, hp]
  rfl

theorem contains_of_parser? (h : s.parser? language = some p) : s.pool.contains language = true := by
  obtain ⟨pooled, hp, _⟩ := Option.map_eq_some_iff.1 h
  exact contains_of_get? hp

/-- A call for the parser rests here. -/
def IsParserCall (language : Json) (stage : Stage) : Prop :=
  stage = .start (.getParser language) ∨ ∃ point : PoolStage, language = .str point.language ∧
    stage = .parser point

/-- A request whose parser is replied ends well with the pooled parser, and with what that is bound to. -/
theorem leads_goesParser {language : Json} {f : Work (Turn PoolStage String)}
    (h : Leads w m (f m.service) (PoolEnds w language)) :
    Leads w m ((do Work.andThen (← f) .parser Calls.parserReply : Work (Turn Stage Reply)) m.service)
      fun turn m' => Goes (IsParserCall language) (fun o => ∀ v, o = .value v → ∃ name p,
        language = .str name ∧ v = .bound p (m'.service.world.grammarOf p) ∧
          m'.service.parser? name = some p) turn := by
  refine .call h (fun on point m' hp => .inr ⟨point, hp.2.2, rfl⟩) fun result m' hf => ?_
  cases result with
  | error f => exact .pure fun v hv => by cases Program.ended_eq_value.1 hv
  | ok name =>
    obtain ⟨hname, hc⟩ := hf.2.1 name rfl
    refine .bind (.pure (.pure fun v hv => ?_))
    cases Program.ended_eq_value.1 hv
    exact ⟨name, _, hname, rfl, parser?_of_contains hc⟩

theorem leads_getParser {language : Json} (hs : IsParserCall language w.stage)
    (hc : w.stage.Coherent) :
    Leads w ⟨w.before, roles, w.stage.grip⟩ (Calls.resume w.stage w.given w.before)
      fun turn m' => Goes (IsParserCall language) (fun o => ∀ v, o = .value v → ∃ name p,
        language = .str name ∧ v = .bound p (m'.service.world.grammarOf p) ∧
          m'.service.parser? name = some p) turn := by
  rcases hs with hs | ⟨point, rfl, hs⟩
  · rw [hs]
    cases w.given with
    | error f => exact .pure fun v hv => by cases Program.ended_eq_value.1 hv
    | ok r => exact .bind (.pure (leads_goesParser (leads_requestParser language rfl)))
  · rw [hs] at hc ⊢
    exact leads_goesParser (leads_resumeParser (by rw [hs]; rfl) hc rfl)

/-- The outcome is a value only if it is the pooled parser with the kept grammar. -/
def WellIfPooled (language : Json) (s : Service) (o : Settled Reply) : Prop :=
  ∀ v, o = .value v → ∃ name p x, language = .str name ∧ v = .bound p x ∧
    s.parser? name = some p ∧ s.grammars.get? name = some x

/-- What becomes of requests for a parser. -/
theorem keeps_getParser (language : Json) :
    Keeps SparesOperations (Provided n) c (fun _ => IsParserCall language) (WellIfPooled language) where
  step ho _ hsp h hst := h.step ho hst hsp
  turn {s roles mv w m turn} _ _ _ ht _ h' hs := by
    obtain ⟨m', _, hm, hgoes⟩ := ht.of_leads (leads_getParser hs ht.coherent)
    refine hgoes.mono (fun _ => id) fun o hwell v hv => ?_
    obtain ⟨name, p, hname, hvp, hp⟩ := hwell v hv
    rw [hm] at hvp hp
    obtain ⟨_, _, x, hx, hb⟩ := h'.pooling.bound hp
    exact ⟨name, p, x, hname, hb ▸ hvp, hp, hx⟩
  stay _ _ _ _ := id
  keep ho h hst h' hwell v hv := by
    obtain ⟨name, p, x, hname, hvp, hp, hx⟩ := hwell v hv
    exact ⟨name, p, x, hname, hvp, hst.parser?_of_some ho hp,
      h.loaded.get?_stays ho hst h'.loaded hx⟩

/-! ## Leases -/

/-- A call for a lease rests here, and holds the pooled parser if any. -/
def IsLeaseCall (holder : String) (language : Json) (s : Service) (stage : Stage) : Prop :=
  stage = .start (.lease holder language) ∨
    (∃ point : LeaseStage, language = .str (Calls.leasedLanguage point) ∧ stage = .lease holder point) ∨
    ∃ name p, language = .str name ∧ s.parser? name = some p ∧ stage = .holding name p

/-- The outcome is a value only if it is the pooled parser. -/
def WellIfLent (language : Json) (s : Service) (o : Settled Reply) : Prop :=
  ∀ v, o = .value v → ∃ name p, language = .str name ∧ v = .leased p ∧ s.parser? name = some p

/-- A request for a lease is granted on the pooled parser. -/
theorem leads_goesLease {holder name : String} {language : Json} {f : Work (Turn LeaseStage Nat)}
    (hname : ∀ l, language = .str l → name = l) (h : Leads w m (f m.service) (LeaseEnds w language)) :
    Leads w m ((do
      let turn ← f
      Work.andThen turn (.lease holder) (Calls.hold holder name) : Work (Turn Stage Reply)) m.service)
      fun turn m' => Goes (IsLeaseCall holder language m'.service) (WellIfLent language m'.service)
        turn := by
  refine .call h (fun on point m' hp => .inr (.inl ⟨point, hp.2.2, rfl⟩)) fun result m' hf => ?_
  cases result with
  | error f => exact .pure fun v hv => by cases Program.ended_eq_value.1 hv
  | ok parser =>
    obtain ⟨l, hl, hg, rfl⟩ := hf
    obtain rfl := hname l hl
    refine .of_inTurn fun ht => .bind (.stride .gateMade (.pure ?_))
    refine .bind (.stride (.leaseNoted holder _) (.pure (.pure ?_)))
    have hc : m'.service.pool.contains name = true := by
      have hfits := ht.grip
      rw [hg] at hfits
      exact hfits
    exact .inr (.inr ⟨name, _, hl, parser?_of_contains hc, rfl⟩)

theorem leads_callLease {holder : String} {language : Json}
    (hs : IsLeaseCall holder language w.before w.stage) (hc : w.stage.Coherent) :
    Leads w ⟨w.before, roles, w.stage.grip⟩ (Calls.resume w.stage w.given w.before)
      fun turn m' => Goes (IsLeaseCall holder language m'.service) (WellIfLent language m'.service)
        turn := by
  rcases hs with hs | ⟨point, rfl, hs⟩ | ⟨name, p, hname, hp, hs⟩
  · rw [hs]
    cases w.given with
    | error f => exact .pure fun v hv => by cases Program.ended_eq_value.1 hv
    | ok r =>
      refine .bind (.pure (leads_goesLease (fun l hl => ?_) (leads_lease language rfl)))
      rw [hl]
  · rw [hs] at hc ⊢
    refine leads_goesLease (fun l hl => Json.str.inj hl) (leads_resumeLease (by rw [hs]; rfl) hc rfl)
  · rw [hs]
    intro ht
    obtain ⟨m', hst, hm, _⟩ := leads_release (m := ⟨w.before, roles, (Stage.holding name p).grip⟩)
      (.inl rfl) ht
    refine ⟨m', hst, hm, fun v hv => ?_⟩
    have hp' := Strides.parser?_of_some hst hp
    cases hg : w.given with
    | error f =>
      rw [hg] at hv
      cases Program.ended_eq_value.1 hv
    | ok r =>
      rw [hg] at hv
      cases Program.ended_eq_value.1 hv
      exact ⟨name, p, hname, rfl, hp'⟩

/-- What becomes of requests for a lease. -/
theorem keeps_lease (holder : String) (language : Json) :
    Keeps (fun _ _ => True) (fun _ _ => True) c (IsLeaseCall holder language) (WellIfLent language) where
  step _ _ _ _ _ := trivial
  turn {s roles mv w m turn} _ _ _ ht _ _ hs := by
    obtain ⟨i, hb⟩ := ht.before
    have hs' : IsLeaseCall holder language w.before w.stage := by
      rw [hb]
      exact hs
    obtain ⟨m', _, hm, hgoes⟩ := ht.of_leads (leads_callLease hs' ht.coherent)
    rw [hm] at hgoes
    exact hgoes
  stay ho _ hst _ hs := hs.imp_right <| Or.imp_right fun ⟨name, p, hname, hp, he⟩ =>
    ⟨name, p, hname, hst.parser?_of_some ho hp, he⟩
  keep ho _ hst _ hwell v hv := by
    obtain ⟨name, p, hname, hvp, hp⟩ := hwell v hv
    exact ⟨name, p, hname, hvp, hst.parser?_of_some ho hp⟩

/-! ## Runs -/

/-- Parsers that there are stay bound as they are. -/
theorem Step.grammarOf_eq (hst : Step s roles mv s' roles') (hp : 0 < p)
    (hle : p ≤ s.world.parsers.length) : s'.world.grammarOf p = s.world.grammarOf p :=
  World.grammarOf_of_prefix
    (hst.keeps (Attempt.keptByWork_parsers s.world.parsers) (List.prefix_refl _)) hp hle

/-- What is pooled on the way is pooled at the end. -/
theorem Ordered.parser?_moves (ho : AtRest s roles) (hp : s.parser? language = some p)
    (ms : List Service.Move) : (s.moves ms).parser? language = some p := by
  obtain ⟨_, _, _, hp'⟩ := exists_atRest (I := fun now _ => now.parser? language = some p)
    (fun ho _ hp hst => hst.parser?_of_some ho hp) ms ho hp
  exact hp'

theorem Ordered.parser?_of_made (ho : AtRest s roles) (hm : Made s ms language p) :
    (s.moves ms).parser? language = some p := by
  obtain ⟨before, mv, after, rfl, _, _, hp⟩ := hm
  obtain ⟨_, ho'⟩ := ho.atRest_moves (before ++ [mv])
  rw [List.append_cons, moves_append]
  exact ho'.parser?_moves hp after

theorem Ordered.config_moves (ho : AtRest s roles) (ms : List Service.Move) :
    (s.moves ms).config = s.config := by
  obtain ⟨_, _, _, hc⟩ := exists_atRest (I := fun now _ => now.config = s.config)
    (fun ho _ hc hst => (hst.engine_named ho).1.trans hc) ms ho rfl
  exact hc

namespace Provided

/-- A parser that comes into the pool has just been made. -/
theorem comes (h : Provided n s roles) (h' : Provided n s' roles') (ho : AtRest s roles)
    (hst : Step s roles mv s' roles') (hnone : s.parser? language = none)
    (hp : s'.parser? language = some p) : s.world.parsers.length < p := by
  by_contra hle
  obtain ⟨hn, _, x, hx, hb⟩ := h'.pooling.bound hp
  obtain ⟨x, rfl⟩ := Option.isSome_iff_exists.1 (h'.loaded.loading.kept hx).1
  -- One that there was is pooled for another language, and so it is still.
  rw [hst.grammarOf_eq (by omega) (by omega)] at hb
  obtain ⟨l, hl⟩ := h.pooling.made hn hb
  obtain rfl := h'.apart.distinct hp (hst.parser?_of_some ho hl)
  rw [hnone] at hl
  cases hl

theorem made_step (h : Provided n (s.moves ms) roles) (h' : Provided n (s.moves (ms ++ [mv])) roles')
    (ho : AtRest (s.moves ms) roles)
    (hst : Step (s.moves ms) roles mv (s.moves (ms ++ [mv])) roles')
    (hmade : ∀ {l p}, (s.moves ms).parser? l = some p → Made s ms l p)
    (hp : (s.moves (ms ++ [mv])).parser? language = some p) : Made s (ms ++ [mv]) language p := by
  cases hold : (s.moves ms).parser? language with
  | some q =>
    cases (hst.parser?_of_some ho hold).symm.trans hp
    obtain ⟨before, mv', after, rfl, hm⟩ := hmade hold
    exact ⟨before, mv', after ++ [mv], by simp, hm⟩
  | none => exact ⟨ms, mv, [], rfl, h.comes h' ho hst hold hp, (h'.pooling.bound hp).2.1, hp⟩

theorem ready (h : Provided n s roles) (hc : s.grammars.contains language = true) : s.phase = .ready := by
  obtain ⟨x, hx⟩ := Option.isSome_iff_exists.1 hc
  obtain ⟨_, t, hr, _⟩ := h.loaded.loading.kept hx
  exact h.loaded.loading.begun hr

theorem contains_grammars (h : Provided n s roles) (hc : s.pool.contains language = true) :
    s.grammars.contains language = true := by
  obtain ⟨_, _, x, hx, _⟩ := h.pooling.bound (parser?_of_contains hc)
  exact contains_of_get? hx

end Provided

/-- **There is one parser for a language.**  In every run of a new service, on any configuration, the law
    holds: whatever imports, pointers, compilers and parser makers come to, provided that imports,
    pointers and compilers raise ordinary faults only and no null grammar is compiled, and whatever is
    called and cancelled, provided that nobody but callers is. -/
theorem pools_once (config : Config) (world : World) (eager : Bool) (stuck : Option Fault)
    (log : List LogLine) (ms : List Service.Move) (hw : world.FetchesWell)
    (hsp : Along SparesOperations (opened config world eager stuck log) ms) :
    PoolsOnce (opened config world eager stuck log) ms := by
  have ho : AtRest (opened config world eager stuck log) fun _ => .unused :=
    (Ordered.opened config world eager stuck log).rest
  have h := Provided.opened hw config eager stuck log
  have hempty : ∀ {l p}, (opened config world eager stuck log).parser? l = some p →
      Made (opened config world eager stuck log) [] l p := by
    intro l p hp
    simp [parser?] at hp
  obtain ⟨roles, ho', h', hmade⟩ := exists_course
    (I := fun ms now roles => Provided world.parsers.length now roles ∧
      ∀ {l p}, now.parser? l = some p → Made (opened config world eager stuck log) ms l p)
    ho ⟨h, hempty⟩
    (fun ho _ hsp h hst => by
      have h' := h.1.step ho hst hsp
      exact ⟨h', h.1.made_step h' ho hst h.2⟩) ms hsp
  have hbase : (opened config world eager stuck log).world.parsers.length = world.parsers.length := by
    rw [world_opened]
  generalize opened config world eager stuck log = s at *
  refine ⟨?_, ⟨ho.parser?_of_made, hmade⟩, fun hm hm' => ?_, fun {p x} hn hb => ?_, fun hp => ?_,
    h'.apart.distinct, h'.pooling.created, h'.contains_grammars, fun {language} hc => ?_,
    fun hc => h'.ready (hc.elim id h'.contains_grammars), ?_, ?_, ?_⟩
  · rintro before after language p rfl hp
    obtain ⟨_, ho₁⟩ := ho.atRest_moves before
    rw [moves_append]
    exact ho₁.parser?_moves hp after
  · exact Option.some.inj ((ho.parser?_of_made hm).symm.trans (ho.parser?_of_made hm'))
  · obtain ⟨language, hp⟩ := h'.pooling.made (hbase ▸ hn) hb
    exact ⟨language, hmade hp⟩
  · exact (h'.pooling.bound hp).2.2
  · obtain ⟨x, hx⟩ := Option.isSome_iff_exists.1 hc
    rw [← ho.config_moves ms]
    exact h'.located.kept hx
  · intro c v language hc hv
    exact outcome_of_began (keeps_getParser language) (fun _ => .inl rfl) ho hsp h hc hv v rfl
  · intro c holder language name p on hc hp
    rcases stage_of_began (keeps_lease holder language) (fun _ => .inl rfl) ho
      (.mono (fun _ _ _ => trivial) ms hsp) trivial hc hp with he | ⟨_, _, he⟩ | ⟨l, q, hl, hq, he⟩
    · cases he
    · cases he
    · cases he
      exact ⟨hl, hq⟩
  · intro c v holder language hc hv
    exact outcome_of_began (keeps_lease holder language) (fun _ => .inl rfl) ho
      (.mono (fun _ _ _ => trivial) ms hsp) trivial hc hv v rfl

/-- A world whose first parser cannot be made. -/
def stumblingParser : World where
  modules :=
    (Keyed.empty.put "tree_sitter"
      { members := (Keyed.empty.put makerName
            (.maker ⟨[.fault (.plain .running "not yet"), .parser]⟩ .parser)).put compilerName
          (.compiler ⟨[]⟩) }).put "tree_sitter_python"
      { members := Keyed.empty.put "language" (.pointer (.str "python")) }

/-- Two calls ask for the parser at once, and a third one for a lease. -/
def askedAtOnce : List Service.Move :=
  [.act (.spawn (.getParser (.str "python"))), .act (.spawn (.getParser (.str "python"))),
    .act (.spawn (.lease "reader" (.str "python")))] ++ List.replicate 23 (.serve 0)

/-- All three have missed the pool and waited for one load; the first one makes no parser, the second one
    makes it, and the third one is lent it. -/
theorem pools_once_stumbling :
    stumblingParser.FetchesWell ∧
      Along SparesOperations (opened {} stumblingParser true none []) askedAtOnce ∧
      PoolsOnce (opened {} stumblingParser true none []) askedAtOnce ∧
      ((opened {} stumblingParser true none []).moves askedAtOnce).counts.parsers = ⟨1, 0, 3⟩ ∧
      ((opened {} stumblingParser true none []).moves askedAtOnce).world.events.contains
        (.leased "reader" 1) = true := by
  have hw : stumblingParser.FetchesWell := .of_entries (by decide +kernel)
  have hsp : Along SparesOperations (opened {} stumblingParser true none []) askedAtOnce := by
    decide +kernel
  exact ⟨hw, hsp, pools_once {} stumblingParser true none [] askedAtOnce hw hsp, by decide +kernel,
    by decide +kernel⟩

end SourceTrees.Service
