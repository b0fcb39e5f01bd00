import SourceTrees.Proofs.Service.Beside
import SourceTrees.Proofs.Service.Closing

/-!
# The turns of tasks for other languages

A service stands beside what is left of it when other languages than one are left out.  The turn of a task for
another language is looked through function by function: the second service needs not do anything for the two
to stand beside each other afterwards.

## Protocol

* Work **skips** the second service if it need not be done there.  Promises that it makes have no names.
* A turn that is **aloof** ends on such a promise, or finishes.

## Results

* `Service.Skips` — the notion, and how such work is put together.
* `Grammars.skips_request`, `Pool.skips_lease`, `Parsing.skips_request`, … — the parts of turns.
* **`Calls.skips_resume`** — the turn of a call for another language, or of its load, skips the second service.
-/

set_option autoImplicit false

namespace SourceTrees

open Loop Work Service

variable {α β P Q : Type} {V : View} {k : Bond} {N N₁ : Names} {s s' : Service} {p : PromiseId}
  {other : String} {v : Json} {given : Except Fault Reply}

/-! ## What need not be done in the second service -/

namespace Service.Beside

/-- The first loop has changed, and there are new promises. -/
theorem withFirst (h : Beside V k s s') (hN : k.names.Le N₁) {l : Loop Reply Stage Hook}
    (hl : l.Counterpart N₁ (kinds V k) s'.loop) :
    Beside V { k with names := N₁ } { s with loop := l } s' where
  loop := hl.mono (Bond.le_names hN).kinds
  tables := { h.tables.mono (Bond.le_names hN) h.tables.pooled with }
  worlds := h.worlds

theorem noted (h : Beside V k s s') (counts : Counts) (log : List LogLine) :
    Beside V k { s with counts, log } s' := ⟨h.loop, { h.tables with }, h.worlds⟩

/-- Something is done for another language in the world. -/
theorem deed (h : Beside V k s s') {d : Deed} (hd : d.isOther = true) (hne : d ≠ .fetchOther V.language) :
    Beside V k { s with
      world := ((s.world.ledger k.grammars k.parsers).act V.config V.engine V.language d).2.world } s' :=
  ⟨h.loop, { h.tables with }, h.worlds.other hd hne⟩

/-- A job for another language is done. -/
theorem performOther (h : Beside V k s s') {job : Job} (hj : job.Away V.config V.engine V.language) :
    Beside V k { s with world := (job.run s.world).2 } s' := by
  cases hj with
  | @grammar other hne => exact h.deed (d := .fetchOther other) rfl fun he => hne (Deed.fetchOther.inj he)
  | parse parser source => exact h.deed (d := .parseOther parser source) rfl nofun
  | copy => exact h

section

variable (hne : other ≠ V.language)

include hne

/-- The grammar of another language is kept. -/
theorem keepOther (h : Beside V k s s') (g : Grammar) :
    Beside V k { s with grammars := s.grammars.put other g } s' := by
  refine ⟨h.loop, { h.tables with kept := ?_ }, h.worlds⟩
  rw [Keyed.get?_put, if_neg (Ne.symm hne)]
  exact h.tables.kept

/-- The pooled parser of another language is changed. -/
theorem poolOther (h : Beside V k s s') {q : Pooled} (ht : ∀ t ∈ q.lock.tickets, k.names.Unnamed t) :
    Beside V k { s with pool := s.pool.put other q } s' := by
  refine ⟨h.loop, { h.tables with pool := ?_, pooled := fun hp => ?_, tickets := fun {l q' t} hl hq htq => ?_ },
    h.worlds⟩
  · rw [Keyed.get?_put, if_neg (Ne.symm hne)]
    exact h.tables.pool
  · show ((s.pool.put other q).get? V.language).isSome = true
    rw [Keyed.get?_put, if_neg (Ne.symm hne)]
    exact h.tables.pooled hp
  · rw [Keyed.get?_put] at hq
    split at hq
    · exact ht t (Option.some.inj hq ▸ htq)
    · exact h.tables.tickets hl hq htq

end

end Service.Beside

/-! ## Work that skips the second service -/

namespace Service

/-- The engine is not booted again. -/
theorem attachBoot_eq {engine : String} (hready : s.engine? = .ok engine) : Boot.attach s = (none, s) := by
  have hphase : s.phase = .ready := by
    unfold engine? at hready
    split at hready
    · assumption
    · cases hready
  simp [Boot.attach, hphase]

theorem le_iterate_grow (N : Names) (m : Nat) : N.Le (Names.grow^[m] N) := by
  induction m with
  | zero => exact .refl N
  | succ m ih =>
    rw [Function.iterate_succ_apply']
    exact ih.trans (Names.le_grow _)

/-- The work leaves the first service beside the second one, in which it is not done. -/
def Skips (V : View) (R : Names → α → Prop) (k : Bond) (f : Work α) : Prop :=
  ∀ ⦃s s' : Service⦄, Beside V k s s' → ∃ m, R (Names.grow^[m] k.names) (f s).1 ∧
    Beside V { k with names := Names.grow^[m] k.names } (f s).2 s'

/-- The turn ends on a promise without a name, at a point of the kind, or finishes as said. -/
def Aloof (A : Names → P → Prop) (S : α → Prop) (N : Names) : Turn P α → Prop
  | .rest p point => N.Unnamed p ∧ A N point
  | .giveWay _ => False
  | .finish x => ∀ a, x = .ok a → S a

namespace Skips

variable {R : Names → α → Prop} {R' : Names → β → Prop} {A : Names → P → Prop} {A' : Names → Q → Prop}
  {S : α → Prop} {S' : β → Prop} {turn : Turn P α} {f f' : Work α} {a : α} {point : P}

theorem pure (h : R k.names a) : Skips V R k (pure a) := fun _ _ hs => ⟨0, h, hs⟩

theorem done (h : S a) : Skips V (Aloof A S) k (Work.done a) := .pure fun _ he => Except.ok.inj he ▸ h

theorem fail (f : Fault) : Skips V (Aloof A S) k (Work.fail f) := .pure nofun

theorem restOn (hp : k.names.Unnamed p) (h : A k.names point) : Skips V (Aloof A S) k (Work.restOn p point) :=
  .pure ⟨hp, h⟩

theorem bind {g : α → Work β} (hf : Skips V R k f)
    (hg : ∀ {k₁ a}, k.names.Le k₁.names → R k₁.names a → Skips V R' k₁ (g a)) :
    Skips V R' k (f >>= g) := by
  intro s s' hs
  obtain ⟨m, hr, hs₁⟩ := hf hs
  obtain ⟨m', hr', hs₂⟩ := hg (le_iterate_grow k.names m) hr hs₁
  rw [← Function.iterate_add_apply] at hr' hs₂
  exact ⟨m' + m, hr', hs₂⟩

/-- Work may look at the first service. -/
theorem look {g : Service → Work β} (h : ∀ {s s'}, Beside V k s s' → Skips V R' k (g s)) :
    Skips V R' k ((MonadState.get : Work Service) >>= g) := fun _ _ hs => h hs hs

theorem change {g : Service → Service} (h : ∀ {s s'}, Beside V k s s' → Beside V k (g s) s') :
    Skips V (fun _ _ => True) k (modify g : Work Unit) := fun _ _ hs => ⟨0, trivial, h hs⟩

theorem count (g : Counts → Counts) : Skips V (fun _ _ => True) k (Work.count g) :=
  .change fun {s _} hs => hs.noted (g s.counts) s.log

theorem log (line : LogLine) : Skips V (fun _ _ => True) k (Work.log line) :=
  .change fun {s _} hs => hs.noted s.counts (s.log ++ [line])

theorem ite {b : Prop} [Decidable b] (hf : Skips V R k f) (hf' : Skips V R k f') :
    Skips V R k (if b then f else f') := by
  split
  · exact hf
  · exact hf'

/-- A call made in turn, and what goes on from there. -/
theorem andThen {wrap : P → Q} {next : Except Fault α → Work (Turn Q β)} (h : Aloof A S k.names turn)
    (hwrap : ∀ {a}, A k.names a → A' k.names (wrap a))
    (hnext : ∀ {x : Except Fault α}, (∀ a, x = .ok a → S a) → Skips V (Aloof A' S') k (next x)) :
    Skips V (Aloof A' S') k (Work.andThen turn wrap next) := by
  cases turn with
  | rest on point => exact .pure ⟨h.1, hwrap h.2⟩
  | giveWay point => cases h
  | finish x => exact hnext h

/-- Promises that are made have no names. -/
theorem promise : Skips V Names.Unnamed k (onLoop (·.promise)) := fun _ _ hs =>
  ⟨1, hs.loop.promise_unnamed, hs.withFirst k.names.le_grow hs.loop.promiseStray⟩

theorem shield (hp : k.names.Unnamed p) : Skips V Names.Unnamed k (onLoop (·.shield p)) := fun _ _ hs =>
  ⟨1, (hs.loop.shieldStray hp).1, hs.withFirst k.names.le_grow (hs.loop.shieldStray hp).2⟩

theorem waiter (hp : k.names.Unnamed p) : Skips V Names.Unnamed k (onLoop (·.waiter p)) := fun _ _ hs =>
  ⟨1, (hs.loop.waiterStray hp).1, hs.withFirst k.names.le_grow (hs.loop.waiterStray hp).2⟩

theorem settle (hp : k.names.Unnamed p) (o : Settled Reply) :
    Skips V (fun _ _ => True) k (changeLoop (·.settle p o)) :=
  .change fun hs => hs.withFirst (.refl _) (hs.loop.settleStray hp.strays o)

theorem unsubscribe (hp : k.names.Unnamed p) (r : Reaction Hook) :
    Skips V (fun _ _ => True) k (changeLoop (·.unsubscribe p r)) :=
  .change fun hs => hs.withFirst (.refl _) (hs.loop.unsubscribeStray hp r)

/-- A job for another language is handed in. -/
theorem submit (crew : Crew) {job : Job} (hj : job.Away V.config V.engine V.language) :
    Skips V (fun N r => ∀ p, r = .ok p → N.Unnamed p) k (Work.submit crew job) := by
  intro s s' hs
  rw [submit_eq]
  split
  · exact ⟨0, nofun, hs⟩
  have hp : k.names.grow.Unnamed s.loop.promises.size := hs.loop.promise_unnamed
  refine ⟨1, fun q hq => Except.ok.inj hq ▸ hp, ?_⟩
  unfold handedIn
  split
  · have hmade := (hs.performOther hj).withFirst k.names.le_grow hs.loop.promiseStray
    exact hmade.withFirst (.refl _) (hmade.loop.enqueueStray (.deliver hp))
  · have hmade := hs.withFirst k.names.le_grow hs.loop.promiseStray
    have hticket : Ticket.Away V { k with names := k.names.grow } ⟨crew, job, s.loop.promises.size⟩ := ⟨hj, hp⟩
    have hqueue := hmade.tables.queue.append (.drop hticket .nil)
    rw [List.append_nil] at hqueue
    exact ⟨hmade.loop, { hmade.tables with queue := hqueue }, hmade.worlds⟩

theorem attachBoot : Skips V (fun _ r => r = none) k Boot.attach := by
  intro s s' hs
  rw [attachBoot_eq hs.tables.ready]
  exact ⟨0, rfl, hs⟩

end Skips

/-- A language that has a locator is a text. -/
theorem eq_of_validate {name : String} (h : s.validate v = .ok name) : v = .str name := by
  unfold validate at h
  split at h
  · split at h <;> cases h
    rfl
  · cases h

end Service

/-! ## Grammars -/

namespace Grammars

variable (hne : other ≠ V.language)

/-- Requests for grammars of other languages. -/
abbrev aloof (V : View) : Names → Turn GrammarStage Grammar → Prop :=
  Aloof (fun _ point => point.IsFor (· ≠ V.language)) fun _ => True

/-- Loads of grammars of other languages. -/
abbrev aloofFetch (V : View) : Names → Turn FetchStage Grammar → Prop :=
  Aloof (fun _ point => point.IsFor (· ≠ V.language)) fun _ => True

theorem skips_fetchFailed (locator : String) (f : Fault) :
    Skips V (aloofFetch V) k (fetchFailed other locator f) :=
  .ite (.bind (.count _) fun _ _ => .bind (.log _) fun _ _ => .fail _) (.fail f)

include hne

theorem skips_fetched (g : Grammar) : Skips V (aloofFetch V) k (fetched other g) :=
  .bind (.change fun hs => hs.keepOther hne g) fun _ _ => .bind (.count _) fun _ _ => .bind (.log _) fun _ _ =>
    .done trivial

theorem skips_startFetch : Skips V (aloofFetch V) k (startFetch other) := by
  refine .look fun {s s'} hs => ?_
  rw [hs.tables.config, hs.tables.ready]
  cases kept? s other with
  | some g => exact .done trivial
  | none =>
    refine .bind (.submit _ (.grammar hne)) fun {_ r} _ hr => ?_
    cases r with
    | ok p => exact .restOn (hr p rfl) hne
    | error f => exact skips_fetchFailed _ f

theorem skips_attach : Skips V Names.Unnamed k (attach other) := by
  intro s s' hs
  rw [attach_grammar_eq]
  cases hr : s.grammarFlight.running? s.loop other with
  | some op =>
    rw [Flight.attach_running hr]
    obtain ⟨hop, -⟩ := Option.filter_eq_some_iff.1 hr
    obtain ⟨houter, hshielded⟩ := hs.loop.shieldStray (hs.tables.loads hne hop)
    have hbeside := hs.withFirst k.names.le_grow hshielded
    exact ⟨1, houter, hbeside.loop, { hbeside.tables with }, hbeside.worlds⟩
  | none =>
    rw [Flight.attach_idle hr]
    have hop := hs.loop.promise_unnamed
    have hpoint : (kinds V k).away (.fetch (.start other)) := by
      show Stage.Away k.names V.language (.fetch (.start other))
      exact .fetch hne
    have hlaunched := (hs.loop.spawnStray hpoint).subscribeStray (r := .hook (Hook.grammar other)) hop nofun
    obtain ⟨houter, hshielded⟩ := hlaunched.shieldStray hop
    have hle : k.names.Le k.names.grow.grow := k.names.le_grow.trans k.names.grow.le_grow
    have hbeside := hs.withFirst hle hshielded
    refine ⟨2, ?_, hbeside.loop, { hbeside.tables with load := ?_, loads := fun {l op} hl hop' => ?_ },
      hbeside.worlds⟩
    · show k.names.grow.grow.Unnamed (s.loop.promises.size + 1)
      rw [hs.loop.size]
      exact k.names.grow.grow_unnamed
    · show Option.Rel _ ((s.grammarFlight.entries.put other _).get? V.language) _
      rw [Keyed.get?_put, if_neg (Ne.symm hne)]
      exact hbeside.tables.load
    · replace hop' : (s.grammarFlight.entries.put other _).get? l = some op := hop'
      rw [Keyed.get?_put] at hop'
      split at hop'
      · cases hop'
        exact k.names.grow.le_grow.unnamed hop
      · exact hle.unnamed (hs.tables.loads hl hop')

theorem skips_load : Skips V (aloof V) k (attach other >>= fun p => restOn p (.loading other)) :=
  .bind (skips_attach hne) fun _ hp => .restOn hp hne

omit hne

theorem skips_resumeFetch {point : FetchStage} (h : point.IsFor (· ≠ V.language)) :
    Skips V (aloofFetch V) k (resumeFetch point given) := by
  cases point with
  | start other =>
    cases given with
    | ok r => exact skips_startFetch h
    | error f => exact .fail f
  | fetching other locator =>
    cases given with
    | ok r => exact skips_fetched h _
    | error f => exact skips_fetchFailed locator f

theorem skips_request (hv : v ≠ .str V.language) : Skips V (aloof V) k (request v) := by
  refine .look fun {s s'} hs => ?_
  cases hval : s.validate v with
  | error f => exact .fail f
  | ok name =>
    have hne : name ≠ V.language := fun he => hv (he ▸ eq_of_validate hval)
    dsimp only
    cases kept? s name with
    | some g => exact .bind (.count _) fun _ _ => .done trivial
    | none =>
      refine .bind .attachBoot fun _ hr => ?_
      cases hr
      exact skips_load hne

theorem skips_resume {point : GrammarStage} (h : point.IsFor (· ≠ V.language)) :
    Skips V (aloof V) k (resume point given) := by
  cases point with
  | booting => cases h
  | loading other =>
    cases given with
    | ok r => exact .done trivial
    | error f => exact .fail f

end Grammars

/-! ## The pool -/

namespace Pool

/-- Requests for parsers of other languages. -/
abbrev aloof (V : View) : Names → Turn PoolStage String → Prop :=
  Aloof (fun _ point => point.IsFor (· ≠ V.language)) (· ≠ V.language)

/-- Requests for leases of other languages. -/
abbrev aloofLease (V : View) : Names → Turn LeaseStage Nat → Prop :=
  Aloof (fun _ point => point.IsFor (· ≠ V.language)) fun _ => True

section

variable (hne : other ≠ V.language)

include hne

theorem skips_create (g : Grammar) : Skips V (aloof V) k (create other g) := by
  refine .look fun {s s'} hs => ?_
  rw [hs.tables.ready]
  refine .bind (R := fun _ _ => True) (fun s s' hs => ⟨0, trivial, ?_⟩) fun {_ r} _ _ => ?_
  · exact hs.deed (d := .bindOther g) rfl nofun
  · cases r with
    | ok parser =>
      exact .bind (.change fun hs => hs.poolOther hne nofun) fun _ _ => .bind (.count _) fun _ _ => .done hne
    | error f => exact .ite (.bind (.log _) fun _ _ => .look fun _ => .fail _) (.fail f)

theorem skips_grammarCame (x : Except Fault Grammar) : Skips V (aloof V) k (grammarCame other x) := by
  cases x with
  | error f => exact .fail f
  | ok g => exact .look fun _ => .ite (.done hne) (skips_create hne g)

/-- The pooled parser of another language is changed, but for the tickets that wait for it. -/
theorem skips_change {f : Pooled → Pooled}
    (hf : ∀ q : Pooled, ∀ t ∈ (f q).lock.tickets, t ∈ q.lock.tickets ∨ k.names.Unnamed t) :
    Skips V (fun _ _ => True) k (change other f) := by
  refine .change fun {s s'} hs => ?_
  unfold Keyed.adjust
  cases hq : s.pool.get? other with
  | none => exact hs
  | some q => exact hs.poolOther hne fun t ht => (hf q t ht).elim (hs.tables.tickets hne hq) id

theorem skips_callNext : Skips V (fun _ _ => True) k (callNext other) := by
  refine .look fun {s s'} hs => ?_
  cases ht : (lockOf s other).tickets with
  | nil => exact .pure trivial
  | cons t ts =>
    refine .settle ?_ _
    unfold lockOf at ht
    cases hq : s.pool.get? other with
    | none =>
      rw [hq] at ht
      cases ht
    | some q =>
      rw [hq] at ht
      exact hs.tables.tickets hne hq (ht ▸ List.mem_cons_self)

theorem skips_release : Skips V (fun _ _ => True) k (release other) :=
  .bind (skips_change hne fun _ _ => .inl) fun _ _ => skips_callNext hne

theorem skips_take : Skips V (aloofLease V) k (take other) :=
  .bind (skips_change hne fun _ _ => .inl) fun _ _ => .look fun _ => .done trivial

end

theorem skips_acquire {x : Except Fault String} (hx : ∀ l, x = .ok l → l ≠ V.language) :
    Skips V (aloofLease V) k (acquire x) := by
  cases x with
  | error f => exact .fail f
  | ok other =>
    have hne := hx other rfl
    refine .look fun _ => .ite (skips_take hne) (.bind .promise fun {k₁ t} _ ht => ?_)
    refine .bind (skips_change hne fun q t' ht' => ?_) fun hle _ => .restOn (hle.unnamed ht) hne
    rcases List.mem_append.1 ht' with ht' | ht'
    · exact .inl ht'
    · exact .inr (List.mem_singleton.1 ht' ▸ ht)

theorem skips_request (hv : v ≠ .str V.language) : Skips V (aloof V) k (request v) := by
  refine .look fun {s s'} _ => ?_
  cases hval : s.validate v with
  | error f => exact .fail f
  | ok name =>
    cases eq_of_validate hval
    have hne : name ≠ V.language := fun he => hv (congrArg _ he)
    refine .ite (.bind (.count _) fun _ _ => .done hne) (.bind (.count _) fun _ _ => ?_)
    exact .bind (Grammars.skips_request hv) fun _ ht =>
      .andThen ht (fun hp => ⟨hne, hp⟩) fun _ => skips_grammarCame hne _

theorem skips_resume {point : PoolStage} (h : point.IsFor (· ≠ V.language)) :
    Skips V (aloof V) k (resume point given) := by
  obtain ⟨other, point⟩ := point
  exact .bind (Grammars.skips_resume h.2) fun _ ht =>
    .andThen ht (fun hp => ⟨h.1, hp⟩) fun _ => skips_grammarCame h.1 _

theorem skips_lease (hv : v ≠ .str V.language) : Skips V (aloofLease V) k (lease v) :=
  .bind (skips_request hv) fun _ ht => .andThen ht id skips_acquire

theorem skips_resumeLease {point : LeaseStage} (h : point.IsFor (· ≠ V.language)) :
    Skips V (aloofLease V) k (resumeLease point given) := by
  cases point with
  | parser point => exact .bind (skips_resume h) fun _ ht => .andThen ht id skips_acquire
  | lock other ticket =>
    refine .bind (skips_change h fun _ _ ht => .inl (List.mem_of_mem_filter ht)) fun _ _ => ?_
    cases given with
    | ok r => exact skips_take h
    | error f =>
      refine .look fun _ => ?_
      dsimp only
      split
      · exact .fail f
      · exact .bind (skips_callNext h) fun _ _ => .fail f

end Pool

/-! ## Parsing -/

namespace Parsing

/-- Parses for other languages. -/
abbrev aloof (V : View) {α : Type} : Names → Turn ParseStage α → Prop :=
  Aloof (fun N point => point.Away N V.language) fun _ => True

theorem skips_copy (other : String) (source : List UInt8) (crew : Crew) (root : Node) :
    Skips V (aloof V) k (copy other source crew root) := by
  refine .bind (.submit crew (.copy other source root)) fun {_ r} _ hr => ?_
  cases r with
  | ok p => exact .restOn (hr p rfl) trivial
  | error f => exact .fail f

section

variable (hne : other ≠ V.language) (source : List UInt8) (crew : Crew)

include hne

theorem skips_parsed (root : Option Node) : Skips V (aloof V) k (parsed other source crew root) := by
  refine .bind (Pool.skips_release hne) fun _ _ => ?_
  cases root with
  | some root => exact skips_copy other source crew root
  | none => exact .bind (.count _) fun _ _ => .fail _

theorem skips_leased (x : Except Fault Nat) : Skips V (aloof V) k (leased other source crew x) := by
  cases x with
  | error f => exact .fail f
  | ok parser =>
    refine .bind (.submit crew (.parse parser source)) fun {_ r} _ hr => ?_
    cases r with
    | error f => exact .bind (Pool.skips_release hne) fun _ _ => .fail f
    | ok job => exact .bind (.shield (hr job rfl)) fun hle hs => .restOn hs ⟨hne, hle.unnamed (hr job rfl)⟩

theorem skips_borrow : Skips V (aloof V) k (borrow other source) :=
  .look fun _ => .bind (Pool.skips_lease fun he => hne (Json.str.inj he)) fun _ ht =>
    .andThen ht (fun hp => ⟨hne, hp⟩) fun _ => skips_leased hne source _ _

theorem skips_raised (f : Fault) : Skips V (aloof V) k (raised other f) :=
  .bind (.count _) fun _ _ => .bind (.log _) fun _ _ => .bind (Pool.skips_release hne) fun _ _ => .fail _

theorem skips_drain {job : PromiseId} (hj : k.names.Unnamed job) (f : Fault) :
    Skips V (aloof V) k (drain other job f) :=
  .look fun _ => .ite (.bind (.waiter hj) fun hle hw => .restOn hw ⟨hne, hle.unnamed hj⟩)
    (.bind (Pool.skips_release hne) fun _ _ => .fail f)

end

theorem skips_request (code : Code) (hv : v ≠ .str V.language) : Skips V (aloof V) k (request code v) := by
  refine .look fun {s s'} _ => ?_
  cases hval : s.validate v with
  | error f => exact .fail f
  | ok name =>
    have hne : name ≠ V.language := fun he => hv (he ▸ eq_of_validate hval)
    cases code.toSource with
    | error f => exact .fail f
    | ok source =>
      refine .bind .attachBoot fun _ hr => ?_
      cases hr
      exact skips_borrow hne source

theorem skips_resume {point : ParseStage} (h : point.Away k.names V.language) :
    Skips V (aloof V) k (resume point given) := by
  cases point with
  | booting => cases h
  | leasing other source crew point =>
    exact .bind (Pool.skips_resumeLease h.2) fun _ ht =>
      .andThen ht (fun hp => ⟨h.1, hp⟩) fun _ => skips_leased h.1 source crew _
  | running other source crew job =>
    cases given with
    | ok r => exact skips_parsed h.1 source crew _
    | error f =>
      exact .ite (skips_drain h.1 h.2 f) (.ite (skips_raised h.1 f)
        (.bind (Pool.skips_release h.1) fun _ _ => .fail f))
  | draining other job waiter cancellation =>
    exact .bind (.unsubscribe h.2 _) fun hle _ => skips_drain h.1 (hle.unnamed h.2) cancellation
  | copying other =>
    cases given with
    | error f => exact .fail f
    | ok r =>
      cases r with
      | tree t => exact .bind (.count _) fun _ _ => .done trivial
      | _ => exact .fail _

end Parsing

/-! ## Tools and calls -/

namespace Calls

/-- Calls and loads for other languages, and warm-ups that wait. -/
abbrev aloof (V : View) : Names → Turn Stage Reply → Prop :=
  Aloof (fun N point => point.Away N V.language) fun _ => True

end Calls

namespace Tools

theorem skips_finish (use : ParseUse) (x : Except Fault Tree) :
    Skips V (Parsing.aloof V) k (finish use x) := by
  cases x with
  | ok t => cases use <;> exact .done trivial
  | error f =>
    cases use with
    | tree => exact .fail f
    | snippet | file => exact .ite (.bind (.log _) fun _ _ => .done trivial) (.fail f)

/-- A parse for some use, from how it is asked for or goes on. -/
theorem skips_used (use : ParseUse) {f : Work (Turn ParseStage Tree)} (hf : Skips V (Parsing.aloof V) k f) :
    Skips V (Calls.aloof V) k (do
      let turn ← f
      andThen (← andThen turn id (finish use)) (.parse use) (fun r => return .finish r)) :=
  .bind hf fun _ ht => .bind (.andThen ht id fun _ => skips_finish use _) fun _ ht' =>
    .andThen ht' (fun hp => .parse use hp) fun _ => .pure fun _ _ => trivial

theorem skips_parseAs (use : ParseUse) (code : Code) {path : Json} {name : String}
    (hpath : Parsing.detect path = some name) (hne : name ≠ V.language) :
    Skips V (Calls.aloof V) k (parseAs use code path) := by
  unfold parseAs
  rw [hpath]
  exact skips_used use (Parsing.skips_request code fun he => hne (Json.str.inj he))

theorem skips_parseFile {path : Json} {name : String} (depth : Option Int)
    (hpath : Parsing.detect path = some name) (hne : name ≠ V.language) :
    Skips V (Calls.aloof V) k (parseFile path depth) := by
  refine .look fun {s s'} _ => ?_
  rw [hpath]
  cases path with
  | str file =>
    dsimp only
    split
    · exact .done trivial
    · cases s.world.readFile file with
      | ok content => exact skips_parseAs _ _ hpath hne
      | error f => exact .ite (.done trivial) (.fail f)
  | _ => exact .done trivial

end Tools

/-! ## Closing -/

namespace Service

/-- The work leaves the first service beside the second one, unless it dismisses the workers. -/
def SkipsOpen (V : View) (R : Names → α → Prop) (k : Bond) (f : Work α) : Prop :=
  ∀ ⦃s s' : Service⦄, Beside V k s s' → (f s).2.workers.dismissed = false → ∃ m,
    R (Names.grow^[m] k.names) (f s).1 ∧ Beside V { k with names := Names.grow^[m] k.names } (f s).2 s'

variable {R : Names → α → Prop} {R' : Names → β → Prop} {f : Work α}

theorem Skips.ifOpen (h : Skips V R k f) : SkipsOpen V R k f := fun _ _ hs _ => h hs

theorem Skips.bindOpen {g : α → Work β} (hf : Skips V R k f)
    (hg : ∀ {k₁ a}, k.names.Le k₁.names → R k₁.names a → SkipsOpen V R' k₁ (g a)) :
    SkipsOpen V R' k (f >>= g) := by
  intro s s' hs hopen
  obtain ⟨m, hr, hs₁⟩ := hf hs
  obtain ⟨m', hr', hs₂⟩ := hg (le_iterate_grow k.names m) hr hs₁ hopen
  rw [← Function.iterate_add_apply] at hr' hs₂
  exact ⟨m' + m, hr', hs₂⟩

/-- Closing the service changes nothing but what is counted and logged, since it holds no workers or they cannot
    be dismissed. -/
def CannotClose (s : Service) : Prop := s.holdsWorkers = true → s.workers.stuck ≠ none

theorem cannotClose (hopen : (close s).2.workers.dismissed = false) : CannotClose s := by
  intro hholds hstuck
  have hd := @dismiss_eq s
  rw [hstuck] at hd
  have hr : (dismiss s).1 = .ok () := by simp [dismiss, hstuck]
  have hclosed : (close s).2.workers.dismissed = (dismiss s).2.workers.dismissed := by
    simp [close, hholds, hr, Work.log]
  rw [hclosed, hd] at hopen
  cases hopen

theorem CannotClose.close (h : CannotClose s) : ∃ r dismissals log,
    close s = (r, { s with workers := { s.workers with dismissals }, log }) := by
  by_cases hholds : s.holdsWorkers = true
  · have hd := @dismiss_eq s
    cases hstuck : s.workers.stuck with
    | none => exact absurd hstuck (h hholds)
    | some f =>
      rw [hstuck] at hd
      have hr : (dismiss s).1 = .error f := by simp [dismiss, hstuck]
      cases ho : f.kind.isOrdinary with
      | true =>
        exact ⟨.ok (), s.workers.dismissals + 1,
          s.log ++ [.error ("Error shutting down ThreadPoolExecutor: " ++ f.message)],
          by simp [Work.close, hholds, hr, hd, ho, Work.log]⟩
      | false =>
        exact ⟨.error f, s.workers.dismissals + 1, s.log, by simp [Work.close, hholds, hr, hd, ho]⟩
  · exact ⟨_, s.workers.dismissals, s.log, close_eq_of_not_holds (Bool.eq_false_iff.2 hholds)⟩

theorem Beside.dismissals (h : Beside V k s s') (dismissals : Nat) (log : List LogLine) :
    Beside V k { s with workers := { s.workers with dismissals }, log } s' :=
  ⟨h.loop, { h.tables with }, h.worlds⟩

/-- The service is closed at the end of a turn. -/
theorem skipsOpen_close {g : Except Fault Unit → Work (Turn Stage Reply)}
    (hg : ∀ r, ∃ x, g r = Pure.pure (.finish x)) : SkipsOpen V (Calls.aloof V) k (close >>= g) := by
  intro s s' hs hopen
  have hpure : ((close >>= g) s).2 = (close s).2 := by
    obtain ⟨x, hx⟩ := hg (close s).1
    rw [run_bind, hx]
    rfl
  rw [hpure] at hopen
  obtain ⟨r, dismissals, log, he⟩ := (cannotClose hopen).close
  obtain ⟨x, hx⟩ := hg r
  rw [run_bind, he]
  dsimp only
  rw [hx]
  exact ⟨0, fun _ _ => trivial, hs.dismissals dismissals log⟩

end Service

namespace Calls

theorem skips_replying {P α : Type} {A : Names → P → Prop} {S : α → Prop} {turn : Turn P α} {wrap : P → Stage}
    {f : α → Reply} (h : Aloof A S k.names turn)
    (hwrap : ∀ {a}, A k.names a → (wrap a).Away k.names V.language) :
    Skips V (aloof V) k (replying turn wrap f) :=
  .andThen h hwrap fun _ => .pure fun _ _ => trivial

theorem skips_parserReply (x : Except Fault String) : Skips V (aloof V) k (parserReply x) := by
  cases x with
  | error f => exact .fail f
  | ok name => exact .look fun _ => .done trivial

theorem skips_hold (holder : String) (hne : other ≠ V.language) (x : Except Fault Nat) :
    Skips V (aloof V) k (hold holder other x) := by
  cases x with
  | error f => exact .fail f
  | ok parser =>
    refine .bind .promise fun _ hg => .bind (.change fun hs => ?_) fun hle _ =>
      .restOn (hle.unnamed hg) (.holding hne parser)
    exact hs.deed (d := .lendOther holder parser) rfl nofun

/-- A call for another language begins. -/
theorem skips_start {call : Call} (hv : call.language? = some v) (hne : v ≠ .str V.language) :
    Skips V (aloof V) k (start call) := by
  have hpath : ∀ {path : Json}, (Parsing.detect path).map Json.str = some v →
      ∃ name, Parsing.detect path = some name ∧ name ≠ V.language := by
    intro path h
    obtain ⟨name, hd, rfl⟩ := Option.map_eq_some_iff.1 h
    exact ⟨name, hd, fun he => hne (congrArg _ he)⟩
  cases call with
  | parse code language =>
    cases hv
    exact .look fun _ => Tools.skips_used .tree (Parsing.skips_request code hne)
  | snippetTool code language depth =>
    cases hv
    exact .look fun _ => Tools.skips_used _ (Parsing.skips_request code hne)
  | parseFile code path =>
    obtain ⟨name, hd, hl⟩ := hpath hv
    exact .look fun _ => Tools.skips_parseAs .tree code hd hl
  | fileTool path depth =>
    obtain ⟨name, hd, hl⟩ := hpath hv
    exact .look fun _ => Tools.skips_parseFile depth hd hl
  | load language =>
    cases hv
    exact .look fun _ => .bind (Grammars.skips_request hne) fun _ ht => skips_replying ht .grammar
  | getParser language =>
    cases hv
    exact .look fun _ => .bind (Pool.skips_request hne) fun _ ht =>
      .andThen ht .parser fun _ => skips_parserReply _
  | lease holder language =>
    cases hv
    cases v with
    | str name =>
      exact .look fun _ => .bind (Pool.skips_lease hne) fun _ ht =>
        .andThen ht (.lease holder) fun _ => skips_hold holder (fun he => hne (congrArg _ he)) _
    | _ => exact fun s s' hs => ⟨0, fun _ _ => trivial, hs⟩
  | _ => cases hv

/-- A warm-up that has waited for what it has asked for goes over what has come of it. -/
theorem skips_review (results : List (Json × Except Fault Unit)) (all : Bool) :
    Skips V (Aloof (fun _ (_ : WarmStage) => False) fun _ => True) k (Warmup.review results all) := by
  induction results generalizing k all with
  | nil => exact .done trivial
  | cons e rest ih =>
    obtain ⟨l, x⟩ := e
    cases x with
    | ok _ => exact .bind (.log _) fun _ _ => ih all
    | error f => exact .ite (.bind (.log _) fun _ _ => ih _) (.fail f)

theorem skips_gathered (languages : List Json) (members : List PromiseId) :
    Skips V (Aloof (fun _ (_ : WarmStage) => False) fun _ => True) k
      (Warmup.resume (.gathering languages members) given) := by
  cases given with
  | error f => exact .fail f
  | ok r => exact .look fun _ => skips_review _ true

theorem skipsOpen_entered (x : Except Fault Bool) : SkipsOpen V (aloof V) k (entered x) := by
  cases x with
  | ok all =>
    cases all with
    | true => exact (Skips.bind (.log _) fun _ _ => .done trivial).ifOpen
    | false => exact (Skips.bind (.log _) fun _ _ => .done trivial).ifOpen
  | error f =>
    unfold entered
    dsimp only
    split
    · exact Skips.bindOpen (.log _) fun _ _ => skipsOpen_close fun r => by cases r <;> exact ⟨_, rfl⟩
    · exact skipsOpen_close fun r => by cases r <;> exact ⟨_, rfl⟩

/-- **The turn of a call for another language, or of its load, need not be had in the second service**; nor need
    the last turn of a warm-up, unless it closes the service. -/
theorem skips_resume {stage : Stage} (h : stage.Away k.names V.language) :
    SkipsOpen V (aloof V) k (resume stage given) := by
  cases h with
  | start hv hne =>
    cases given with
    | ok r => exact (skips_start hv hne).ifOpen
    | error f => exact (Skips.fail f).ifOpen
  | fetch hp =>
    exact (Skips.bind (Grammars.skips_resumeFetch hp) fun _ ht => skips_replying ht .fetch).ifOpen
  | grammar hp =>
    exact (Skips.bind (Grammars.skips_resume hp) fun _ ht => skips_replying ht .grammar).ifOpen
  | parser hp =>
    exact (Skips.bind (Pool.skips_resume hp) fun _ ht =>
      .andThen ht .parser fun _ => skips_parserReply _).ifOpen
  | @lease holder point hp =>
    have hne : leasedLanguage point ≠ V.language := by
      cases point with
      | parser point => cases point; exact hp.1
      | lock => exact hp
    exact (Skips.bind (Pool.skips_resumeLease hp) fun _ ht =>
      .andThen ht (.lease holder) fun _ => skips_hold holder hne _).ifOpen
  | holding hne p =>
    exact (Skips.bind (Pool.skips_release hne) fun _ _ => .pure fun _ _ => trivial).ifOpen
  | parse use hp => exact (Tools.skips_used use (Parsing.skips_resume hp)).ifOpen
  | warm languages members =>
    exact (Skips.bind (skips_gathered languages members) fun _ ht => skips_replying ht False.elim).ifOpen
  | enter languages members =>
    refine Skips.bindOpen (skips_gathered languages members) fun {_ turn} _ ht => ?_
    cases turn with
    | rest on point => cases ht.2
    | giveWay point => cases ht
    | finish x => exact skipsOpen_entered x

end Calls

end SourceTrees
