import SourceTrees.Proofs.Service.Manned

/-!
# One call at a time on every parser

A parser keeps state between parses, so it must never be at work for two calls.  That is so in every run:
whatever calls come, whenever they are cancelled and however often, in whatever order errands are served,
jobs are done and leases are ended, and also when the service is closed in between.

## Protocol

* A task is **inside** a lease while it holds the parser, has a job at work on it, or waits that job out
  after a cancellation.
* A job was **handed in** by a task if at some moment of the run the task rested with it.

## Results

* `Service.ExclusiveUse` — the law for a run.
* **`Service.exclusive_use`** — every run of every new service obeys it.
-/

set_option autoImplicit false

namespace SourceTrees.Service

open Loop

variable {s s' : Service} {roles roles' : Roles Hook Job} {mv : Service.Move} {ms : List Service.Move}
  {t t' job job' : PromiseId} {language : String}

/-- The task is inside a lease on the parser of the language. -/
def Inside (s : Service) (t : PromiseId) (language : String) : Prop := (s.gripAt t).Holds language

/-- On the way, or at its end, the task rests with the job on the parser of the language. -/
def HandedIn (s : Service) (ms : List Service.Move) (t : PromiseId) (language : String)
    (job : PromiseId) : Prop :=
  ∃ before after, ms = before ++ after ∧ (s.moves before).gripAt t = .job language job

/-- The law for the state that a run comes to.  An **unfinished** job is one whose promise is open. -/
structure ExclusiveUse (s : Service) (ms : List Service.Move) : Prop where
  /-- The task that handed in an unfinished job is still inside its lease, with that job. -/
  waited : ∀ {t language job}, HandedIn s ms t language job →
    (s.moves ms).loop.isPending job = true → (s.moves ms).gripAt t = .job language job
  /-- One job at most is unfinished on the parser of a language. -/
  single : ∀ {t t' language job job'}, HandedIn s ms t language job →
    (s.moves ms).loop.isPending job = true → HandedIn s ms t' language job' →
    (s.moves ms).loop.isPending job' = true → t = t' ∧ job = job'
  /-- Who is inside a lease holds the lock. -/
  held : ∀ {t language}, (s.moves ms).Inside t language →
    (Pool.lockOf (s.moves ms) language).held = true
  /-- One task at most is inside a lease on the parser of a language. -/
  alone : ∀ {t t' language}, (s.moves ms).Inside t language → (s.moves ms).Inside t' language → t = t'
  /-- A job that waits for a worker is such a job, on the parser that is pooled for its language. -/
  queued : ∀ {k parser source}, k ∈ (s.moves ms).workers.queue → k.job = .parse parser source →
    ∃ t language, HandedIn s ms t language k.promise ∧
      (s.moves ms).loop.isPending k.promise = true ∧ (s.moves ms).parser? language = some parser
  /-- No two jobs on one parser wait for a worker. -/
  apart : ∀ {k k' parser source source'}, k ∈ (s.moves ms).workers.queue →
    k' ∈ (s.moves ms).workers.queue → k.job = .parse parser source → k'.job = .parse parser source' →
    k = k'

/-- What carries the law from step to step. -/
structure Lending (s : Service) (roles : Roles Hook Job) : Prop where
  locked : Locked none s roles s.gripAt
  queued : Queued s
  apart : Apart s
  manned : Manned s roles s.gripAt

namespace Lending

theorem opened (config : Config) (world : World) (eager : Bool) (stuck : Option Fault)
    (log : List LogLine) : Lending (Service.opened config world eager stuck log) fun _ => .unused := by
  refine ⟨?_, .opened .., .opened .., ?_⟩
  · rw [gripAt_opened]
    exact .opened ..
  · rw [gripAt_opened]
    exact .opened ..

theorem step (h : Lending s roles) (ho : AtRest s roles) (hst : Step s roles mv s' roles') :
    Lending s' roles' :=
  ⟨h.locked.step ho hst, h.queued.step ho hst, h.apart.step ho hst, h.manned.step ho hst⟩

/-- A task that has a job in hand has it until the job is settled, however the run goes on. -/
theorem stays (ho : AtRest s roles) (hg : s.gripAt t = .job language job) (ms : List Service.Move)
    (hp : (s.moves ms).loop.isPending job = true) : (s.moves ms).gripAt t = .job language job := by
  have hstep : ∀ {s s' roles roles' mv}, AtRest s roles → AtRest s' roles' →
      (s.gripAt t = .job language job ∨ ∃ o, s.loop.outcome? job = some o) →
      Step s roles mv s' roles' →
      s'.gripAt t = .job language job ∨ ∃ o, s'.loop.outcome? job = some o := by
    rintro s s' roles roles' mv ho ho' (hg | ⟨o, hs⟩) hst
    · exact hst.job_stays ho hg
    · exact .inr ⟨o, hst.outcome?_of_some hs⟩
  obtain ⟨roles', _, _, hfin⟩ := exists_atRest (I := fun s _ => s.gripAt t = .job language job ∨
    ∃ o, s.loop.outcome? job = some o) hstep ms ho (.inl hg)
  rcases hfin with hg' | ⟨o, hs⟩
  · exact hg'
  · rw [isPending_of_outcome? hs] at hp
    cases hp

/-- A job that was handed in and is open is in hand. -/
theorem waited (ho : AtRest s roles) (hj : HandedIn s ms t language job)
    (hp : (s.moves ms).loop.isPending job = true) : (s.moves ms).gripAt t = .job language job := by
  obtain ⟨before, after, rfl, hg⟩ := hj
  obtain ⟨_, ho'⟩ := ho.atRest_moves before
  rw [moves_append] at hp ⊢
  exact stays ho' hg after hp

/-- Who is inside a lease holds the lock. -/
theorem held (h : Lending s roles) (ho : AtRest s roles) (hi : s.Inside t language) :
    (Pool.lockOf s language).held = true := by
  have hpooled : s.pool.contains language = true := by
    have hfits := ho.gripAt_fits t
    unfold Inside at hi
    cases hg : s.gripAt t <;> rw [hg] at hi hfits <;> try exact hi.elim
    · exact hi ▸ hfits
    · exact hi ▸ hfits.2
  obtain ⟨pooled, hp⟩ := Option.isSome_iff_exists.1 hpooled
  rw [Pool.lockOf, hp]
  exact h.locked.held hi hp

/-- Two jobs in hand on one parser are one. -/
theorem single (h : Lending s roles) (hg : s.gripAt t = .job language job)
    (hg' : s.gripAt t' = .job language job') : t = t' ∧ job = job' := by
  have ht : t = t' := h.locked.single (show (s.gripAt t).Holds language by rw [hg]; rfl) (by rw [hg']; rfl)
  subst ht
  rw [hg] at hg'
  cases hg'
  exact ⟨rfl, rfl⟩

/-- A parser's job in the queue is in hand, and runs the parser of the language. -/
theorem inHand (h : Lending s roles) (ho : AtRest s roles) {k : Ticket} {parser : Nat}
    {source : List UInt8} (hk : k ∈ s.workers.queue) (hj : k.job = .parse parser source) :
    ∃ t language, s.gripAt t = .job language k.promise ∧ s.parser? language = some parser := by
  have hrole : roles k.promise = .job (.parse parser source) := hj ▸ ho.queued hk
  obtain ⟨t, language, hg⟩ := h.manned.owner hrole (h.queued.isOpen hk hj)
  obtain ⟨p, source', hp, hrole'⟩ := h.manned.parser hg
  rw [hrole] at hrole'
  cases hrole'
  exact ⟨t, language, hg, hp⟩

end Lending

/-- **One call at a time on every parser.** -/
theorem exclusive_use (config : Config) (world : World) (eager : Bool) (stuck : Option Fault)
    (log : List LogLine) (ms : List Service.Move) :
    ExclusiveUse (opened config world eager stuck log) ms := by
  have ho : AtRest (opened config world eager stuck log) fun _ => .unused :=
    (Ordered.opened config world eager stuck log).rest
  obtain ⟨roles, ho', _, h⟩ := exists_atRest (I := Lending)
    (fun ho _ h hst => h.step ho hst) ms ho (.opened config world eager stuck log)
  refine ⟨Lending.waited ho, fun hj hp hj' hp' => ?_, h.held ho', h.locked.single,
    fun {k parser source} hk hj => ?_, fun {k k' parser source source'} hk hk' hj hj' => ?_⟩
  · exact h.single (Lending.waited ho hj hp) (Lending.waited ho hj' hp')
  · obtain ⟨t, language, hg, hp⟩ := h.inHand ho' hk hj
    exact ⟨t, language, ⟨ms, [], (List.append_nil ms).symm, hg⟩, h.queued.isOpen hk hj, hp⟩
  · obtain ⟨t, language, hg, hp⟩ := h.inHand ho' hk hj
    obtain ⟨t', language', hg', hp'⟩ := h.inHand ho' hk' hj'
    obtain rfl := h.apart.distinct hp hp'
    exact h.queued.eq_of_promise hk hk' (h.single hg hg').2

end SourceTrees.Service
