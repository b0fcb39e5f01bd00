import SourceTrees.Service.Workers
import SourceTrees.Proofs.Engine.Attempts
import SourceTrees.Proofs.Loop.Roles

/-!
# What workers do to a service

A job works on the world and on nothing else; its outcome is put on the agenda.

## Results

* `Job.run` — a job as a function of the world; `Work.perform_eq` — doing a job is running it.
* `Work.submit_eq` — handing a job in makes one promise, and does the job or queues it.
* `Work.workOff_eq`, `Work.dismiss_eq` — doing queued jobs.
-/

set_option autoImplicit false

namespace SourceTrees

/-- Does a job in a world. -/
def Job.run (job : Job) (w : World) : Except Fault Reply × World :=
  match job with
  | .boot engine =>
    let (r, w) := (Attempt.loadEngine engine).run w
    (Work.reply (fun _ => .engine engine) r, w)
  | .grammar engine locator =>
    let (r, w) := (Attempt.fetchGrammar engine locator).run w
    (Work.reply .grammar r, w)
  | .parse parser source =>
    let (r, w) := (Attempt.parse parser source).run w
    (Work.reply .engineTree r, w)
  | .copy language source root => (.ok (.tree (.ofEngine language source root)), w)

/-- Does jobs one after the other.  The answer is what is put on the agenda. -/
def Ticket.runAll : List Ticket → World → List (Errand Reply Hook) × World
  | [], w => ([], w)
  | t :: ts, w =>
    let (outcome, w) := t.job.run w
    let (es, w) := runAll ts w
    (.deliver t.promise outcome :: es, w)

/-! ## Worlds -/

/-- A job keeps what importing and fetching keep. -/
theorem Job.keeps {F : Fault → Prop} {G : Grammar → Prop} {P : World → Prop}
    (h : Attempt.KeptByFetches F G P) (job : Job) {w : World} (hw : P w) : P (job.run w).2 := by
  cases job with
  | boot engine =>
    have hm : Attempt.Meets P (.loadEngine engine) _ _ :=
      Attempt.meets_loadEngine h.toKeptByImports fun _ _ => trivial
    exact (hm.mono (fun _ => id) (fun _ _ => id) fun _ _ he => he.2).world hw
  | grammar engine locator =>
    have hm := Attempt.meets_fetchGrammar h engine locator
    exact (hm.mono (fun _ => id) (fun _ _ he => he.2) fun _ _ he => he.2).world hw
  | parse parser source => exact (Attempt.keeps_parse h parser source).world hw
  | copy language source root => exact hw

theorem Ticket.keeps {F : Fault → Prop} {G : Grammar → Prop} {P : World → Prop}
    (h : Attempt.KeptByFetches F G P) : ∀ (ts : List Ticket) {w : World}, P w → P (runAll ts w).2
  | [], _, hw => hw
  | t :: ts, _, hw => Ticket.keeps h ts (t.job.keeps h hw)

/-- What is put on the agenda are the outcomes of the jobs, each in a world that jobs have come to and
    others go on from. -/
theorem Ticket.mem_runAll {ts : List Ticket} : ∀ {w : World} {e : Errand Reply Hook},
    e ∈ (runAll ts w).1 → ∃ t ∈ ts, ∃ w', e = .deliver t.promise (t.job.run w').1 ∧
      ∀ {F G P}, Attempt.KeptByFetches F G P →
        (P w → P w') ∧ (P (t.job.run w').2 → P (runAll ts w).2) := by
  induction ts with
  | nil =>
    intro w e he
    cases he
  | cons t ts ih =>
    intro w e he
    rcases List.mem_cons.1 he with rfl | he
    · exact ⟨t, List.mem_cons_self, w, rfl, fun h => ⟨id, Ticket.keeps h ts⟩⟩
    · obtain ⟨t', ht', w', rfl, hk⟩ := ih he
      exact ⟨t', List.mem_cons_of_mem _ ht', w', rfl, fun h =>
        ⟨fun hw => (hk h).1 (t.job.keeps h hw), (hk h).2⟩⟩

namespace Work

variable {s : Service} {crew : Crew} {job : Job}

/-! The steps of work, as functions of the state. -/

section Run

variable {α β : Type}

@[simp] theorem run_pure (a : α) : (pure a : Work α) s = (a, s) := rfl

@[simp] theorem run_bind (x : Work α) (k : α → Work β) : (x >>= k) s = k (x s).1 (x s).2 := rfl

theorem run_ite (b : Prop) [Decidable b] (x y : Work α) :
    (if b then x else y) s = if b then x s else y s := by
  split <;> rfl

@[simp] theorem run_map (f : α → β) (x : Work α) : (f <$> x) s = (f (x s).1, (x s).2) := rfl

@[simp] theorem run_get : (get : Work Service) s = (s, s) := rfl

@[simp] theorem run_set (s' : Service) : (set s' : Work Unit) s = ((), s') := rfl

@[simp] theorem run_modify (f : Service → Service) : (modify f : Work Unit) s = ((), f s) := rfl

@[simp] theorem run_modifyGet (f : Service → α × Service) :
    (modifyGet f : Work α) s = ((f s).1, (f s).2) := rfl

@[simp] theorem run_onLoop (f : Loop Reply Stage Hook → α × Loop Reply Stage Hook) :
    onLoop f s = ((f s.loop).1, { s with loop := (f s.loop).2 }) := rfl

@[simp] theorem run_changeLoop (f : Loop Reply Stage Hook → Loop Reply Stage Hook) :
    changeLoop f s = ((), { s with loop := f s.loop }) := rfl

end Run

theorem perform_eq : perform job s = ((job.run s.world).1, { s with world := (job.run s.world).2 }) := by
  cases job <;> rfl

/-- The state after a job has been handed in. -/
def handedIn (s : Service) (crew : Crew) (job : Job) : Service :=
  if s.workers.eager then
    { s with
      world := (job.run s.world).2
      loop := s.loop.promise.2.enqueue (.deliver s.loop.promises.size (job.run s.world).1) }
  else
    { s with
      loop := s.loop.promise.2
      workers := { s.workers with
        queue := s.workers.queue ++ [⟨crew, job, s.loop.promises.size⟩] } }

/-- Workers that have not been dismissed take the job. -/
theorem submit_eq : submit crew job s =
    if crew = .own ∧ s.workers.dismissed = true then (.error .poolClosed, s)
    else (.ok s.loop.promises.size, handedIn s crew job) := by
  unfold submit handedIn
  cases hd : s.workers.dismissed <;> cases crew <;> cases he : s.workers.eager <;>
    simp [hd, he, perform_eq]

/-- What doing a queued job does. -/
theorem performTicket_eq (t : Ticket) : performTicket t s = ((),
    { s with
      world := (t.job.run s.world).2
      loop := s.loop.enqueue (.deliver t.promise (t.job.run s.world).1) }) := by
  simp [performTicket, perform_eq]

theorem performAll_eq (ts : List Ticket) : ∀ s : Service, (forM ts performTicket : Work Unit) s = ((),
    { s with
      world := (Ticket.runAll ts s.world).2
      loop := { s.loop with agenda := s.loop.agenda ++ (Ticket.runAll ts s.world).1 } }) := by
  induction ts with
  | nil =>
    intro s
    show ((), s) = _
    simp [Ticket.runAll]
  | cons t ts ih =>
    intro s
    show (forM ts performTicket : Work Unit) (performTicket t s).2 = _
    rw [performTicket_eq, ih]
    simp [Ticket.runAll, Loop.enqueue]

/-- Doing the job at a position of the queue. -/
theorem workOff_eq {i : Nat} {t : Ticket} (h : s.workers.queue[i]? = some t) : workOff i s = ((),
    { s with
      workers := { s.workers with queue := s.workers.queue.eraseIdx i }
      world := (t.job.run s.world).2
      loop := s.loop.enqueue (.deliver t.promise (t.job.run s.world).1) }) := by
  simp [workOff, h, performTicket_eq]

/-- Dismissing the workers, unless that fails. -/
theorem dismiss_eq : (dismiss s).2 =
    match s.workers.stuck with
    | some _ => { s with workers := { s.workers with dismissals := s.workers.dismissals + 1 } }
    | none =>
      let own := s.workers.queue.filter fun t => t.crew = .own
      { s with
        workers := { s.workers with
          dismissals := s.workers.dismissals + 1
          queue := s.workers.queue.filter fun t => !decide (t.crew = .own)
          dismissed := true }
        world := (Ticket.runAll own s.world).2
        loop := { s.loop with agenda := s.loop.agenda ++ (Ticket.runAll own s.world).1 } } := by
  cases hs : s.workers.stuck with
  | some f =>
    simp [dismiss, hs]
  | none =>
    simp [dismiss, hs, List.partition_eq_filter_filter, performAll_eq, Function.comp_def]

/-! ## What jobs leave alone -/

@[simp] theorem tasks_handedIn : (handedIn s crew job).loop.tasks = s.loop.tasks := by
  unfold handedIn
  split <;> rfl

@[simp] theorem groups_handedIn : (handedIn s crew job).loop.groups = s.loop.groups := by
  unfold handedIn
  split <;> rfl

@[simp] theorem pool_handedIn : (handedIn s crew job).pool = s.pool := by
  unfold handedIn
  split <;> rfl

/-- Handing a job in leaves alone what the service has come to know. -/
theorem known_handedIn : (handedIn s crew job).config = s.config ∧
    (handedIn s crew job).phase = s.phase ∧ (handedIn s crew job).engine = s.engine ∧
    (handedIn s crew job).grammars = s.grammars ∧ (handedIn s crew job).counts = s.counts := by
  unfold handedIn
  split <;> exact ⟨rfl, rfl, rfl, rfl, rfl⟩

/-- So does dismissing the workers. -/
theorem known_dismiss : (dismiss s).2.config = s.config ∧ (dismiss s).2.phase = s.phase ∧
    (dismiss s).2.engine = s.engine ∧ (dismiss s).2.grammars = s.grammars ∧
    (dismiss s).2.counts = s.counts := by
  rw [dismiss_eq]
  split <;> exact ⟨rfl, rfl, rfl, rfl, rfl⟩

theorem keeps_handedIn {F : Fault → Prop} {G : Grammar → Prop} {P : World → Prop}
    (h : Attempt.KeptByFetches F G P) (hw : P s.world) : P (handedIn s crew job).world := by
  unfold handedIn
  split
  · exact job.keeps h hw
  · exact hw

theorem keeps_dismiss {F : Fault → Prop} {G : Grammar → Prop} {P : World → Prop}
    (h : Attempt.KeptByFetches F G P) (hw : P s.world) : P (dismiss s).2.world := by
  rw [dismiss_eq]
  split
  · exact hw
  · exact Ticket.keeps h _ hw

@[simp] theorem size_handedIn :
    (handedIn s crew job).loop.promises.size = s.loop.promises.size + 1 := by
  unfold handedIn
  split
  · exact Loop.size_promise
  · exact Loop.size_promise

@[simp] theorem outcome?_handedIn {p : PromiseId} :
    (handedIn s crew job).loop.outcome? p = s.loop.outcome? p := by
  unfold handedIn
  split
  · exact Loop.outcome?_promise
  · exact Loop.outcome?_promise

@[simp] theorem outcome?_dismiss {p : PromiseId} :
    (dismiss s).2.loop.outcome? p = s.loop.outcome? p := by
  rw [dismiss_eq]
  split <;> rfl

@[simp] theorem tasks_dismiss : (dismiss s).2.loop.tasks = s.loop.tasks := by
  rw [dismiss_eq]
  split <;> rfl

@[simp] theorem groups_dismiss : (dismiss s).2.loop.groups = s.loop.groups := by
  rw [dismiss_eq]
  split <;> rfl

@[simp] theorem pool_dismiss : (dismiss s).2.pool = s.pool := by
  rw [dismiss_eq]
  split <;> rfl

end Work

end SourceTrees
