import SourceTrees.Proofs.Service.Whole

/-!
# What requests come to

The turn of a request for a lease, and that of a parse up to the parser's job, as a function of the service
in which it begins: where it comes to rest, with what it ends, and what it has changed by then.

## Protocol

* A request leaves alone what the service has come to know; it changes the pool, and the world by making a
  parser.
* `Service.Leases` says what a request for a lease comes to that meets no fault, and `Service.Borrows` what
  a parse comes to from there.

## Results

* `Service.leases_lease`, `Service.leases_resume` — the turns of a request for a lease.
* `Service.borrows_borrow`, `Service.borrows_resume` — the turns of a parse until its job is handed in.
-/

set_option autoImplicit false

namespace SourceTrees

/-- The world, or what has become of it as a parser was to be made. -/
def World.Tried (w w' : World) : Prop := w' = w ∨ ∃ engine g, w' = ((Attempt.bindParser engine g).run w).2

/-- The fault that comes out of making a parser. -/
def Pool.raised (language : String) (locator : Option String) (f : Fault) : Fault :=
  if f.kind.isOrdinary then .unbindable language locator f else f

namespace Service

open Loop

/-- The leases of all pooled parsers. -/
def lent (s : Service) : Nat := s.pool.sum (·.leases)

variable {s s' s₁ : Service} {roles : Roles Hook Job} {language : Json} {name : String}
  {source : List UInt8} {crew : Crew} {came : Prop}

/-- What requests leave alone. -/
structure Knows (s s' : Service) : Prop where
  config : s'.config = s.config
  workers : s'.workers = s.workers
  phase : s'.phase = s.phase
  engine : s'.engine = s.engine
  grammars : s'.grammars = s.grammars

namespace Knows

theorem refl (s : Service) : Knows s s := ⟨rfl, rfl, rfl, rfl, rfl⟩

theorem trans {s'' : Service} (h : Knows s s') (h' : Knows s' s'') : Knows s s'' :=
  ⟨h'.config.trans h.config, h'.workers.trans h.workers, h'.phase.trans h.phase,
    h'.engine.trans h.engine, h'.grammars.trans h.grammars⟩

theorem kept? (h : Knows s s') (name : String) : Grammars.kept? s' name = Grammars.kept? s name := by
  rw [Grammars.kept?, h.grammars, Grammars.kept?]

theorem engine? (h : Knows s s') : s'.engine? = s.engine? := by
  rw [Service.engine?, h.phase, h.engine, h.config, Service.engine?]

theorem counted (s : Service) (counts : Counts) : Knows s { s with counts } := ⟨rfl, rfl, rfl, rfl, rfl⟩

end Knows

/-! ## Requests for leases -/

/-- What a request for a lease comes to.  A parser is made only from a grammar that is kept, or that has
    just come. -/
inductive Leases (s : Service) (name : String) (came : Prop) : Turn LeaseStage Nat → Service → Prop
  | booting {p : PromiseId} {s' : Service} (hn : s.pool.contains name = false)
      (hk : Grammars.kept? s name = none) (hp : s.phase ≠ .ready) (hs : Knows s s')
      (hpool : s'.pool = s.pool) (hworld : s'.world = s.world) :
      Leases s name came (.rest p (.parser (.grammar name (.booting name)))) s'
  | loading {p : PromiseId} {s' : Service} (hs : Knows s s') (hpool : s'.pool = s.pool)
      (hworld : s'.world = s.world) :
      Leases s name came (.rest p (.parser (.grammar name (.loading name)))) s'
  | engineless {f : Fault} {s' : Service} (hf : s.engine? = .error f) (hs : Knows s s')
      (hpool : s'.pool = s.pool) (hg : (∃ g, Grammars.kept? s name = some g) ∨ came) :
      Leases s name came (.finish (.error f)) s'
  | unbound {engine : String} {g : Grammar} {f : Fault} {s' : Service} (he : s.engine? = .ok engine)
      (hn : s.pool.contains name = false) (hg : Grammars.kept? s name = some g ∨ came)
      (hb : (Attempt.bindParser engine g).run s.world = (.error f, s'.world)) (hs : Knows s s')
      (hpool : s'.pool = s.pool) (hl : s'.loop = s.loop) :
      Leases s name came (.finish (.error (Pool.raised name (s.config.locators.get? name) f))) s'
  | queued {k : PromiseId} {s' : Service} (hs : Knows s s') (hw : s.world.Tried s'.world)
      (ht : s'.loop.tasks = s.loop.tasks) (hc : s'.pool.contains name = true) (hlent : s'.lent = s.lent) :
      Leases s name came (.rest k (.lock name k)) s'
  | taken {pooled : Pooled} {s' : Service} (hs : Knows s s') (hw : s.world.Tried s'.world)
      (hl : s'.loop = s.loop) (hp : s'.pool.get? name = some pooled) (hlent : s'.lent = s.lent + 1) :
      Leases s name came (.finish (.ok pooled.parser)) s'

theorem lent_congr (h : s'.pool = s.pool) : s'.lent = s.lent := by rw [lent, h, lent]

/-- One pooled parser is lent so many times more. -/
theorem lent_put {pooled pooled' : Pooled} (n : Nat) (hp : s.pool.get? name = some pooled)
    (h : s'.pool = s.pool.put name pooled') (hn : pooled'.leases = pooled.leases + n) :
    s'.lent = s.lent + n := by
  have hsum := s.pool.sum_put name pooled' (·.leases)
  simp only [hp, hn, Option.map_some, Option.getD_some] at hsum
  rw [lent, lent, h]
  omega

/-- What has merely been counted before makes no difference. -/
theorem Leases.of_knows {turn : Turn LeaseStage Nat} (h : Leases s₁ name came turn s')
    (hs : Knows s s₁) (hpool : s₁.pool = s.pool) (hworld : s₁.world = s.world)
    (hl : s₁.loop = s.loop) : Leases s name came turn s' := by
  cases h with
  | booting hn hk hp hs' hpool' hworld' =>
    exact .booting (hpool ▸ hn) (hs.kept? name ▸ hk) (hs.phase ▸ hp) (hs.trans hs') (hpool'.trans hpool)
      (hworld'.trans hworld)
  | loading hs' hpool' hworld' =>
    exact .loading (hs.trans hs') (hpool'.trans hpool) (hworld'.trans hworld)
  | engineless hf hs' hpool' hg =>
    rw [hs.kept?] at hg
    exact .engineless (hs.engine? ▸ hf) (hs.trans hs') (hpool'.trans hpool) hg
  | unbound he hn hg hb hs' hpool' hl' =>
    rw [hs.config]
    exact .unbound (hs.engine? ▸ he) (hpool ▸ hn) (hs.kept? name ▸ hg) (hworld ▸ hb) (hs.trans hs')
      (hpool'.trans hpool) (hl'.trans hl)
  | queued hs' hw ht hc hlent =>
    exact .queued (hs.trans hs') (hworld ▸ hw) (ht.trans (congrArg _ hl)) hc (lent_congr hpool ▸ hlent)
  | taken hs' hw hl' hp hlent =>
    exact .taken (hs.trans hs') (hworld ▸ hw) (hl'.trans hl) hp (lent_congr hpool ▸ hlent)

/-- What a lease has changed that was granted. -/
theorem Leases.of_ok {parser : Nat} (h : Leases s name came (.finish (.ok parser)) s') :
    Knows s s' ∧ s.world.Tried s'.world ∧ s'.loop = s.loop := by
  cases h with
  | taken hs hw hl hp => exact ⟨hs, hw, hl⟩

/-- A lease is counted when it is granted. -/
theorem Leases.lent_of_ok {parser : Nat} (h : Leases s name came (.finish (.ok parser)) s') :
    s'.lent = s.lent + 1 := by
  cases h with
  | taken _ _ _ _ hlent => exact hlent

/-- No lease is counted that is not granted. -/
theorem Leases.lent_eq {turn : Turn LeaseStage Nat} (h : Leases s name came turn s')
    (hr : ∀ parser, turn ≠ .finish (.ok parser)) : s'.lent = s.lent := by
  cases h with
  | booting _ _ _ _ hpool => exact lent_congr hpool
  | loading _ hpool => exact lent_congr hpool
  | engineless _ _ hpool _ => exact lent_congr hpool
  | unbound _ _ _ _ _ hpool _ => exact lent_congr hpool
  | queued _ _ _ _ hlent => exact hlent
  | taken => exact absurd rfl (hr _)

theorem take_eq {pooled : Pooled} (hp : s.pool.get? name = some pooled) :
    Pool.take name s = (.finish (.ok pooled.parser), { s with
      pool := s.pool.put name
        { pooled with lock := { pooled.lock with held := true }, leases := pooled.leases + 1 } }) := by
  simp only [Pool.take, Work.run_bind, change_eq hp, Work.run_get, Pool.parserOf, Keyed.get?_put, if_pos,
    Option.map_some, Option.getD_some]
  rfl

/-- The lock of a pooled parser is taken. -/
theorem leases_take {pooled : Pooled} (hs : Knows s s₁) (hw : s.world.Tried s₁.world)
    (hl : s₁.loop = s.loop) (hlent : s₁.lent = s.lent) (hp : s₁.pool.get? name = some pooled) :
    Leases s name came (Pool.take name s₁).1 (Pool.take name s₁).2 := by
  rw [take_eq hp]
  let taken : Pooled :=
    { pooled with lock := { pooled.lock with held := true }, leases := pooled.leases + 1 }
  have hget : (s₁.pool.put name taken).get? name = some taken := (Keyed.get?_put ..).trans (if_pos rfl)
  show Leases s name came (.finish (.ok taken.parser)) _
  refine .taken ⟨hs.config, hs.workers, hs.phase, hs.engine, hs.grammars⟩ hw hl hget ?_
  exact hlent ▸ lent_put 1 hp rfl rfl

/-- The lock is taken, or a ticket is drawn. -/
theorem leases_acquire (hs : Knows s s₁) (hw : s.world.Tried s₁.world) (hl : s₁.loop = s.loop)
    (hlent : s₁.lent = s.lent) (hc : s₁.pool.contains name = true) :
    Leases s name came (Pool.acquire (.ok name) s₁).1 (Pool.acquire (.ok name) s₁).2 := by
  obtain ⟨pooled, hp⟩ := exists_pooled hc
  have hlock : Pool.lockOf s₁ name = pooled.lock := by
    rw [Pool.lockOf, hp]
    rfl
  unfold Pool.acquire
  simp only [Work.run_bind, Work.run_get, hlock]
  split
  · exact leases_take hs hw hl hlent hp
  · have hp' : ({ s₁ with loop := s₁.loop.promise.2 } : Service).pool.get? name = some pooled := hp
    simp only [Work.run_bind, Work.run_onLoop, Pool.changeLock, change_eq hp']
    have hdrawn : ∀ s' : Service, s'.pool = s₁.pool.put name { pooled with
        lock := { pooled.lock with tickets := pooled.lock.tickets ++ [s₁.loop.promise.1] } } →
        s'.lent = s₁.lent := fun s' hs' => lent_put 0 hp hs' rfl
    exact .queued ⟨hs.config, hs.workers, hs.phase, hs.engine, hs.grammars⟩ hw
      (show s₁.loop.tasks = _ from congrArg Loop.tasks hl)
      (contains_of_get? ((Keyed.get?_put ..).trans (if_pos rfl))) ((hdrawn _ rfl).trans hlent)

/-- A request for the parser goes on to the lock. -/
abbrev leaseFrom (f : Work (Turn PoolStage String)) : Work (Turn LeaseStage Nat) := do
  Work.andThen (← f) .parser Pool.acquire

theorem leaseFrom_finish {f : Work (Turn PoolStage String)} {result : Except Fault String}
    (h : f s = (.finish result, s₁)) : leaseFrom f s = Pool.acquire result s₁ := by
  simp only [leaseFrom, Work.run_bind, h, Work.andThen]

theorem leaseFrom_rest {f : Work (Turn PoolStage String)} {p : PromiseId} {point : PoolStage}
    (h : f s = (.rest p point, s₁)) : leaseFrom f s = (.rest p (.parser point), s₁) := by
  simp only [leaseFrom, Work.run_bind, h, Work.andThen, Work.run_pure]

/-- A parser that is put into the pool has not been lent. -/
theorem lent_made {parser : Nat} (hn : s.pool.contains name = false)
    (h : s'.pool = s.pool.put name { parser }) : s'.lent = s.lent := by
  have hnone : s.pool.get? name = none := Option.isNone_iff_eq_none.1 (by simpa [Keyed.contains] using hn)
  have hsum := s.pool.sum_put name { parser } (·.leases)
  rw [hnone] at hsum
  rw [lent, h]
  exact hsum

theorem create_engineless {g : Grammar} {f : Fault} (he : s.engine? = .error f) :
    Pool.create name g s = (.finish (.error f), s) := by
  simp only [Pool.create, Work.run_bind, Work.run_get, he]
  rfl

theorem create_made {g : Grammar} {engine : String} {parser : Nat} {world : World}
    (he : s.engine? = .ok engine) (hb : (Attempt.bindParser engine g).run s.world = (.ok parser, world)) :
    Pool.create name g s = (.finish (.ok name), { s with
      world, pool := s.pool.put name { parser }
      counts := { s.counts with
        parsers := { s.counts.parsers with created := s.counts.parsers.created + 1 } } }) := by
  simp only [Pool.create, Work.run_bind, Work.run_get, he, attempt_eq hb]
  rfl

theorem create_unbound {g : Grammar} {engine : String} {f : Fault} {world : World}
    (he : s.engine? = .ok engine) (hb : (Attempt.bindParser engine g).run s.world = (.error f, world)) :
    ∃ log, Pool.create name g s = (.finish (.error (Pool.raised name (s.config.locators.get? name) f)),
      { s with world, log }) := by
  simp only [Pool.create, Work.run_bind, Work.run_get, he, attempt_eq hb, Pool.raised]
  split
  · exact ⟨_, rfl⟩
  · exact ⟨_, rfl⟩

/-- A parser is made, or cannot be made. -/
theorem leases_create {g : Grammar} (hn : s.pool.contains name = false)
    (hg : Grammars.kept? s name = some g ∨ came) :
    Leases s name came (leaseFrom (Pool.create name g) s).1 (leaseFrom (Pool.create name g) s).2 := by
  cases he : s.engine? with
  | error f =>
    rw [leaseFrom_finish (create_engineless he)]
    exact .engineless he (.refl s) rfl (hg.imp_left fun hg => ⟨g, hg⟩)
  | ok engine =>
    obtain ⟨r, world, hb⟩ : ∃ r world, (Attempt.bindParser engine g).run s.world = (r, world) :=
      ⟨_, _, rfl⟩
    cases r with
    | ok parser =>
      rw [leaseFrom_finish (create_made he hb)]
      refine leases_acquire ⟨rfl, rfl, rfl, rfl, rfl⟩ (.inr ⟨engine, g, by rw [hb]⟩) rfl (lent_made hn rfl)
        (contains_of_get? ((Keyed.get?_put ..).trans (if_pos rfl)))
    | error f =>
      obtain ⟨log, h⟩ := @create_unbound s name _ _ _ _ he hb
      rw [leaseFrom_finish h]
      exact .unbound he hn hg hb ⟨rfl, rfl, rfl, rfl, rfl⟩ rfl rfl

theorem grammarCame_pooled {g : Grammar} (hc : s.pool.contains name = true) :
    Pool.grammarCame name (.ok g) s = (.finish (.ok name), s) := by
  simp only [Pool.grammarCame, Work.run_bind, Work.run_get, hc]
  rfl

theorem grammarCame_new {g : Grammar} (hc : s.pool.contains name = false) :
    Pool.grammarCame name (.ok g) s = Pool.create name g s := by
  simp only [Pool.grammarCame, Work.run_bind, Work.run_get, hc]
  rfl

/-- The grammar has come. -/
theorem leases_grammarCame {g : Grammar} (hg : Grammars.kept? s name = some g ∨ came) :
    Leases s name came (leaseFrom (Pool.grammarCame name (.ok g)) s).1
      (leaseFrom (Pool.grammarCame name (.ok g)) s).2 := by
  cases hc : s.pool.contains name with
  | true =>
    rw [leaseFrom_finish (grammarCame_pooled hc)]
    exact leases_acquire (.refl s) (.inl rfl) rfl rfl hc
  | false =>
    have he : leaseFrom (Pool.grammarCame name (.ok g)) s = leaseFrom (Pool.create name g) s := by
      simp only [leaseFrom, Work.run_bind, grammarCame_new hc]
    rw [he]
    exact leases_create hc hg

/-- Joining a boot, or starting one. -/
theorem knows_attachBoot {p : PromiseId} (h : Boot.attach s = (some p, s')) :
    s.phase ≠ .ready ∧ Knows s s' ∧ s'.pool = s.pool ∧ s'.world = s.world := by
  rw [attach_boot_eq] at h
  split at h
  · cases h
  · rename_i hp
    cases h
    exact ⟨hp, ⟨rfl, rfl, rfl, rfl, rfl⟩, rfl, rfl⟩

/-- The grammar is asked for, the parser not being in the pool. -/
abbrev askGrammar (name : String) : Work (Turn PoolStage String) := do
  Work.andThen (← Grammars.request (.str name)) (.grammar name) (Pool.grammarCame name)

theorem leases_askGrammar (hv : s.validate (.str name) = .ok name) (hc : s.pool.contains name = false) :
    Leases s name came (leaseFrom (askGrammar name) s).1 (leaseFrom (askGrammar name) s).2 := by
  cases hk : Grammars.kept? s name with
  | some g =>
    have hg : Grammars.request (.str name) s =
        (.finish (.ok g), { s with counts := s.counts.note .grammarHit }) := by
      simp only [Grammars.request, Work.run_bind, Work.run_get, hv, hk]
      rfl
    have he : leaseFrom (askGrammar name) s = leaseFrom (Pool.grammarCame name (.ok g))
        { s with counts := s.counts.note .grammarHit } := by
      simp only [leaseFrom, askGrammar, Work.run_bind, hg, Work.andThen]
    rw [he]
    have hk' : Grammars.kept? { s with counts := s.counts.note .grammarHit } name = some g := hk
    exact (leases_grammarCame (.inl hk')).of_knows (.counted s _) rfl rfl rfl
  | none =>
    obtain ⟨r, s₁, hb⟩ : ∃ r s₁, Boot.attach s = (r, s₁) := ⟨_, _, rfl⟩
    cases r with
    | some p =>
      have hg : Grammars.request (.str name) s = (.rest p (.booting name), s₁) := by
        simp only [Grammars.request, Work.run_bind, Work.run_get, hv, hk, hb]
        rfl
      obtain ⟨hp, hs, hpool, hworld⟩ := knows_attachBoot hb
      have he : askGrammar name s = (.rest p (.grammar name (.booting name)), s₁) := by
        simp only [askGrammar, Work.run_bind, hg, Work.andThen, Work.run_pure]
      rw [leaseFrom_rest he]
      exact .booting hc hk hp hs hpool hworld
    | none =>
      have hs₁ : s₁ = s := by
        rw [attach_boot_eq] at hb
        split at hb <;> cases hb
        rfl
      subst hs₁
      have hg : Grammars.request (.str name) s₁ =
          (.rest (Grammars.attach name s₁).1 (.loading name), (Grammars.attach name s₁).2) := by
        simp only [Grammars.request, Work.run_bind, Work.run_get, hv, hk, hb]
        rfl
      have he : askGrammar name s₁ = (.rest (Grammars.attach name s₁).1 (.grammar name (.loading name)),
          (Grammars.attach name s₁).2) := by
        simp only [askGrammar, Work.run_bind, hg, Work.andThen, Work.run_pure]
      rw [leaseFrom_rest he]
      exact .loading ⟨rfl, rfl, rfl, rfl, rfl⟩ rfl rfl

/-- A request for the lease of a language that has a locator. -/
theorem leases_lease (hv : s.validate (.str name) = .ok name) :
    Leases s name came (Pool.lease (.str name) s).1 (Pool.lease (.str name) s).2 := by
  have hlease : Pool.lease (.str name) s = leaseFrom (Pool.request (.str name)) s := rfl
  rw [hlease]
  cases hc : s.pool.contains name with
  | true =>
    have h : Pool.request (.str name) s =
        (.finish (.ok name), { s with counts := s.counts.note .poolHit }) := by
      simp only [Pool.request, Work.run_bind, Work.run_get, hv, hc]
      rfl
    rw [leaseFrom_finish h]
    exact leases_acquire (.counted s _) (.inl rfl) rfl rfl hc
  | false =>
    -- The miss is counted, and then the grammar is asked for.
    have h : leaseFrom (Pool.request (.str name)) s =
        leaseFrom (askGrammar name) { s with counts := s.counts.note .poolMiss } := by
      simp only [leaseFrom, Pool.request, Work.run_bind, Work.run_get, hv, hc]
      rfl
    rw [h]
    exact (leases_askGrammar (s := { s with counts := s.counts.note .poolMiss }) hv hc).of_knows
      (.counted s _) rfl rfl rfl

/-- A request for a lease goes on that has met no fault. -/
theorem leases_resume {point : LeaseStage} (r : Reply) (hc : point.Coherent)
    (hg : point.grip.Fits roles s.pool) :
    Leases s (Calls.leasedLanguage point)
      (∃ name language, point = .parser (.grammar name (.loading language)))
      (Pool.resumeLease point (.ok r) s).1 (Pool.resumeLease point (.ok r) s).2 := by
  cases point with
  | parser point =>
    obtain ⟨name, point⟩ := point
    have hlease : Pool.resumeLease (.parser (.grammar name point)) (.ok r) s =
        leaseFrom (Pool.resume (.grammar name point) (.ok r)) s := rfl
    rw [hlease]
    cases point with
    | booting language =>
      obtain rfl : language = name := hc
      have h : Pool.resume (.grammar language (.booting language)) (.ok r) s =
          (.rest (Grammars.attach language s).1 (.grammar language (.loading language)),
            (Grammars.attach language s).2) := rfl
      rw [leaseFrom_rest h]
      exact .loading ⟨rfl, rfl, rfl, rfl, rfl⟩ rfl rfl
    | loading language =>
      have h : Pool.resume (.grammar name (.loading language)) (.ok r) s =
          Pool.grammarCame name (.ok r.toGrammar) s := rfl
      have he : leaseFrom (Pool.resume (.grammar name (.loading language)) (.ok r)) s =
          leaseFrom (Pool.grammarCame name (.ok r.toGrammar)) s := by
        simp only [leaseFrom, Work.run_bind, h]
      rw [he]
      exact leases_grammarCame (.inr ⟨name, language, rfl⟩)
  | lock name k =>
    obtain ⟨pooled, hp⟩ := exists_pooled hg.2
    have hw : Pool.changeLock name (fun l => { l with tickets := l.tickets.filter (· ≠ k) }) s = ((), { s with
        pool := s.pool.put name { pooled with
          lock := { pooled.lock with tickets := pooled.lock.tickets.filter (· ≠ k) } } }) :=
      change_eq hp _
    simp only [Pool.resumeLease, Work.run_bind, hw]
    exact leases_take ⟨rfl, rfl, rfl, rfl, rfl⟩ (.inl rfl) rfl (lent_put 0 hp rfl rfl)
      ((Keyed.get?_put ..).trans (if_pos rfl))

/-- A request for a lease ends with the fault that it meets. -/
theorem resumeLease_error (point : LeaseStage) (f : Fault) :
    (Pool.resumeLease point (.error f) s).1 = .finish (.error f) := by
  cases point with
  | parser point =>
    obtain ⟨name, point⟩ := point
    cases point <;> rfl
  | lock name k =>
    simp only [Pool.resumeLease, Work.run_bind]
    split
    · rfl
    · rfl

/-! ## Parses -/

/-- What a parse comes to that borrows its parser: its job has been handed in, or it waits for the lease,
    or ends without. -/
inductive Borrows (s : Service) (name : String) (source : List UInt8) (came : Prop) :
    Turn ParseStage Tree → Service → Prop
  | leasing {p : PromiseId} {crew : Crew} {point : LeaseStage} {s' : Service}
      (h : Leases s name came (.rest p point) s') :
      Borrows s name source came (.rest p (.leasing name source crew point)) s'
  | denied {f : Fault} {s' : Service} (h : Leases s name came (.finish (.error f)) s') :
      Borrows s name source came (.finish (.error f)) s'
  | refused {s' : Service} (hd : s.workers.dismissed = true) :
      Borrows s name source came (.finish (.error .poolClosed)) s'
  | running {crew : Crew} {pooled : Pooled} {s₁ : Service}
      (h : Leases s name came (.finish (.ok pooled.parser)) s₁) (hp : s₁.pool.get? name = some pooled) :
      Borrows s name source came
        (.rest ((Work.handedIn s₁ crew (.parse pooled.parser source)).loop.promises.size)
          (.running name source crew s.loop.promises.size))
        { Work.handedIn s₁ crew (.parse pooled.parser source) with
          loop := ((Work.handedIn s₁ crew (.parse pooled.parser source)).loop.shield
            s.loop.promises.size).2 }

/-- The lease has come to something. -/
theorem borrows_of_leases {turn : Turn LeaseStage Nat} (h : Leases s name came turn s₁) :
    Borrows s name source came
      (Work.andThen turn (.leasing name source crew) (Parsing.leased name source crew) s₁).1
      (Work.andThen turn (.leasing name source crew) (Parsing.leased name source crew) s₁).2 := by
  cases turn with
  | rest p point => exact .leasing h
  | giveWay point => cases h
  | finish result =>
    cases result with
    | error f => exact .denied h
    | ok parser =>
      have h' := h
      cases h' with
      | taken hs hw hl hp =>
        simp only [Work.andThen, Parsing.leased, Work.run_bind, Work.submit_eq]
        split
        · rename_i hc
          exact .refused (hs.workers ▸ hc.2)
        · simp only [Work.run_bind, Work.run_onLoop]
          rw [hl]
          exact .running h hp

/-- A parse borrows its parser. -/
theorem borrows_borrow (hv : s.validate (.str name) = .ok name) :
    Borrows s name source came (Parsing.borrow name source s).1 (Parsing.borrow name source s).2 := by
  simp only [Parsing.borrow, Work.run_bind, Work.run_get]
  exact borrows_of_leases (leases_lease hv)

/-- A parse goes on that waits for its lease and meets no fault. -/
theorem borrows_resume {point : LeaseStage} (r : Reply)
    (hc : (ParseStage.leasing name source crew point).Coherent) (hg : point.grip.Fits roles s.pool) :
    Borrows s name source (∃ name language, point = .parser (.grammar name (.loading language)))
      (Parsing.resume (.leasing name source crew point) (.ok r) s).1
      (Parsing.resume (.leasing name source crew point) (.ok r) s).2 := by
  obtain ⟨hc, hname⟩ := hc
  simp only [Parsing.resume, Work.run_bind]
  have h := leases_resume r hc hg
  rw [hname] at h
  exact borrows_of_leases h

/-- A request for a parse begins with its language and its code. -/
theorem request_refused {code : Code} {f : Fault}
    (h : s.validate language = .error f ∨ (∃ name, s.validate language = .ok name) ∧
      code.toSource = .error f) :
    Parsing.request code language s = (.finish (.error f), s) := by
  simp only [Parsing.request, Work.run_bind, Work.run_get]
  rcases h with h | ⟨⟨name, hn⟩, hc⟩
  · rw [h]
    rfl
  · rw [hn, hc]
    rfl

/-- A request for a parse that is not refused waits for the boot, or borrows its parser. -/
theorem request_accepted {code : Code} (hn : s.validate language = .ok name)
    (hc : code.toSource = .ok source) :
    (∃ p s', Parsing.request code language s = (.rest p (.booting name source), s') ∧
      s.phase ≠ .ready ∧ Knows s s' ∧ s'.pool = s.pool ∧ s'.world = s.world) ∨
    s.phase = .ready ∧ Parsing.request code language s = Parsing.borrow name source s := by
  simp only [Parsing.request, Work.run_bind, Work.run_get, hn, hc]
  obtain ⟨r, s₁, hb⟩ : ∃ r s₁, Boot.attach s = (r, s₁) := ⟨_, _, rfl⟩
  rw [hb]
  cases r with
  | some p => exact .inl ⟨p, s₁, rfl, knows_attachBoot hb⟩
  | none =>
    rw [attach_boot_eq] at hb
    split at hb <;> cases hb
    exact .inr ⟨‹_›, rfl⟩

/-- Calling the next ticket touches the loop only. -/
theorem callNext_eq (name : String) (s : Service) :
    ∃ loop, Pool.callNext name s = ((), { s with loop }) := by
  simp only [Pool.callNext, Work.run_bind, Work.run_get]
  cases (Pool.lockOf s name).tickets with
  | nil => exact ⟨s.loop, rfl⟩
  | cons k ks => exact ⟨_, rfl⟩

/-- Giving a lock back touches the pool and the loop only. -/
theorem knows_release (name : String) (s : Service) :
    Knows s (Pool.release name s).2 ∧ (Pool.release name s).2.world = s.world := by
  simp only [Pool.release, Pool.changeLock, Pool.change, Work.run_bind, Work.run_modify]
  obtain ⟨loop, h⟩ := callNext_eq name { s with
    pool := s.pool.adjust name fun p => { p with lock := { p.lock with held := false } } }
  rw [h]
  exact ⟨⟨rfl, rfl, rfl, rfl, rfl⟩, rfl⟩

/-- The parser has given no tree. -/
theorem resume_none {job : PromiseId} {r : Reply} (hr : r.toEngineTree = none) :
    (Parsing.resume (.running name source crew job) (.ok r) s).1 = .finish (.error (.noTree name)) := by
  simp only [Parsing.resume, Parsing.parsed, hr, Work.run_bind]
  rfl

/-- The parser has given a tree: it is to be copied, unless the workers have been dismissed. -/
theorem resume_some {job : PromiseId} {r : Reply} {root : Node} (hr : r.toEngineTree = some root) :
    Parsing.resume (.running name source crew job) (.ok r) s =
      if crew = .own ∧ s.workers.dismissed = true then
        (.finish (.error .poolClosed), (Pool.release name s).2)
      else
        (.rest (Pool.release name s).2.loop.promises.size (.copying name),
          Work.handedIn (Pool.release name s).2 crew (.copy name source root)) := by
  simp only [Parsing.resume, Parsing.parsed, Parsing.copy, hr, Work.run_bind, Work.submit_eq,
    (knows_release name s).1.workers]
  split
  · rfl
  · rfl

/-- The parser has raised a fault. -/
theorem resume_raised {job : PromiseId} {f : Fault} (hf : f.kind.isOrdinary = true) :
    (Parsing.resume (.running name source crew job) (.error f) s).1 =
      .finish (.error (.parserRaised name f)) := by
  have hk : f.kind ≠ .cancelled := fun hk => by
    rw [hk] at hf
    cases hf
  simp only [Parsing.resume, hk, hf, if_false, if_true, Parsing.raised, Work.run_bind]
  rfl

/-- A parse waits its job out, or ends in its cancellation. -/
theorem drain_cases (name : String) (job : PromiseId) (f : Fault) (s : Service) :
    (∃ w, (Parsing.drain name job f s).1 = .rest w (.draining name job w f)) ∨
      (Parsing.drain name job f s).1 = .finish (.error f) := by
  unfold Parsing.drain
  rw [Work.run_bind, Work.run_get]
  cases s.loop.isPending job with
  | true => exact .inl ⟨_, rfl⟩
  | false => exact .inr rfl

/-- A fault that the parse meets while its job is at work comes to no tree: it is waited out, or it ends
    the parse. -/
theorem resume_error (job : PromiseId) (f : Fault) :
    f.kind = .cancelled ∧ (∃ w, (Parsing.resume (.running name source crew job) (.error f) s).1 =
        .rest w (.draining name job w f)) ∨
      ∃ g, (Parsing.resume (.running name source crew job) (.error f) s).1 = .finish (.error g) := by
  by_cases hk : f.kind = .cancelled
  · have he : Parsing.resume (.running name source crew job) (.error f) s =
        Parsing.drain name job f s := by
      simp only [Parsing.resume, hk, if_true]
    rw [he]
    exact (drain_cases name job f s).imp (fun h => ⟨hk, h⟩) fun h => ⟨f, h⟩
  · refine .inr ?_
    cases ho : f.kind.isOrdinary with
    | true => exact ⟨_, resume_raised ho⟩
    | false =>
      refine ⟨f, ?_⟩
      simp only [Parsing.resume, hk, ho, if_false]
      rfl

/-- A parse that waits its job out waits on, or ends in its cancellation. -/
theorem resume_draining (name : String) (job waiter : PromiseId) (f : Fault)
    (given : Except Fault Reply) (s : Service) :
    (∃ w, (Parsing.resume (.draining name job waiter f) given s).1 = .rest w (.draining name job w f)) ∨
      (Parsing.resume (.draining name job waiter f) given s).1 = .finish (.error f) := by
  have he : Parsing.resume (.draining name job waiter f) given s = Parsing.drain name job f
      { s with loop := s.loop.unsubscribe job (.signal waiter) } := rfl
  rw [he]
  exact drain_cases ..

/-! ## Calls for a parse -/

/-- The turn of a call for a parse, given that of the parse. -/
def replyTree : Turn ParseStage Tree → Turn Stage Reply
  | .rest p point => .rest p (.parse .tree point)
  | .giveWay point => .giveWay (.parse .tree point)
  | .finish result => .finish (Work.reply .tree result)

/-- A parse whose tree is replied. -/
theorem replyTree_eq (f : Work (Turn ParseStage Tree)) (s : Service) :
    (do
      let turn ← f
      Work.andThen (← Work.andThen turn id (Tools.finish .tree)) (.parse .tree)
        (fun r => return .finish r) : Work (Turn Stage Reply)) s = (replyTree (f s).1, (f s).2) := by
  simp only [Work.run_bind]
  cases (f s).1 with
  | rest p point => rfl
  | giveWay point => rfl
  | finish result => cases result <;> rfl

theorem resumeParse_eq (point : ParseStage) (given : Except Fault Reply) (s : Service) :
    Calls.resume (.parse .tree point) given s =
      (replyTree (Parsing.resume point given s).1, (Parsing.resume point given s).2) :=
  replyTree_eq _ s

theorem startParse_eq (code : Code) (language : Json) (r : Reply) (s : Service) :
    Calls.resume (.start (.parse code language)) (.ok r) s =
      (replyTree (Parsing.request code language s).1, (Parsing.request code language s).2) :=
  replyTree_eq _ s

end Service

end SourceTrees
