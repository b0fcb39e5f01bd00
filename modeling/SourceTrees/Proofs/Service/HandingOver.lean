import SourceTrees.Proofs.Service.ParserJobs
import SourceTrees.Proofs.Service.Remote

/-!
# Locks are handed over

Who waits for a lock waits for a call of its ticket.  A lock that is given back is handed over at once:
between turns no lock is free while the first in its queue has not been called.

## Protocol

* All that calls do to the pool, they do by a few operations: making a parser, taking the lock or drawing
  a ticket, giving up a ticket, and giving the lock back.  Whatever these keep within, and remote work
  does, all requests for leases and all parses keep within.
* A lock is **awake** if it is held, or nobody waits for it, or the first who waits has been called or
  cancelled.

## Results

* `Pool.KeptWithin` — the operations keep within a relation; then so do requests for leases and parses.
* `Service.HandsOver` — every lock is awake; `Service.HandsOver.step` — every step keeps it.
-/

set_option autoImplicit false

namespace SourceTrees

open Loop Service Work

variable {R : Service → Service → Prop} {s s' : Service} {language : String} {pooled : Pooled}

/-- Remote work, and making a parser that is not in the pool, keep within the relation. -/
structure Pool.MadeWithin (R : Service → Service → Prop) : Prop where
  remote : ∀ {s s'}, Remote s s' → R s s'
  grammarCame : ∀ language result, Within R (Pool.grammarCame language result)

/-- Remote work and all that is done to the pool keep within the relation. -/
structure Pool.KeptWithin (R : Service → Service → Prop) : Prop extends Pool.MadeWithin R where
  acquire : ∀ result, Within R (Pool.acquire result)
  withdraw : ∀ language ticket given, Within R (Pool.resumeLease (.lock language ticket) given)
  release : ∀ language, Within R (Pool.release language)

/-- Whatever is counted, except of parses, keeps within the relation. -/
abbrev Pool.CountsWithin (R : Service → Service → Prop) : Prop :=
  ∀ {f : Counts → Counts}, (∀ c, (f c).parses = c.parses) → Within R (count f)

namespace Pool

theorem MadeWithin.of_remote {α : Type} {f : Work α} (h : MadeWithin R) (hf : Within Remote f) :
    Within R f :=
  hf.mono fun _ _ => h.remote

/-- It is enough to look at how parsers are made. -/
theorem within_grammarCame [IsPreorder Service R] (h : ∀ language g, Within R (create language g))
    (language : String) (result : Except Fault Grammar) : Within R (grammarCame language result) := by
  cases result with
  | error f => exact .fail f
  | ok g => exact .bind .get fun s => .ite (.done _) (h language g)

end Pool

/-! ## Requests for parsers -/

namespace Pool.MadeWithin

variable [IsPreorder Service R] (h : Pool.MadeWithin R)

include h

theorem request (hn : Pool.CountsWithin R) (language : Json) : Within R (Pool.request language) := by
  refine .bind .get fun s => ?_
  cases s.validate language with
  | error f => exact .fail f
  | ok name =>
    refine .ite (.bind (hn fun _ => rfl) fun _ => .done _) (.bind (hn fun _ => rfl) fun _ => ?_)
    exact .bind (h.of_remote (Grammars.remote_request language)) fun _ => .andThen (h.grammarCame name)

theorem resume (point : PoolStage) (given : Except Fault Reply) : Within R (Pool.resume point given) := by
  obtain ⟨language, point⟩ := point
  exact .bind (h.of_remote (Grammars.remote_resume point given)) fun _ => .andThen (h.grammarCame language)

end Pool.MadeWithin

/-! ## Requests for leases -/

namespace Pool.KeptWithin

variable [IsPreorder Service R] (h : Pool.KeptWithin R)

include h

theorem lease (hn : Pool.CountsWithin R) (language : Json) : Within R (Pool.lease language) :=
  .bind (h.request hn language) fun _ => .andThen h.acquire

theorem resumeLease (point : LeaseStage) (given : Except Fault Reply) :
    Within R (Pool.resumeLease point given) := by
  cases point with
  | parser point => exact .bind (h.resume point given) fun _ => .andThen h.acquire
  | lock language ticket => exact h.withdraw language ticket given

/-! ## Parses -/

theorem leased (language : String) (source : List UInt8) (crew : Crew) (result : Except Fault Nat) :
    Within R (Parsing.leased language source crew result) := by
  cases result with
  | error f => exact .fail f
  | ok parser =>
    refine .bind (h.of_remote (remote_submit _ _)) fun r => ?_
    cases r with
    | error f => exact .bind (h.release language) fun _ => .fail f
    | ok job => exact .bind (h.of_remote (remote_onLoop fun _ => .shield job)) fun _ => .restOn _ _

theorem borrow (hn : Pool.CountsWithin R) (language : String) (source : List UInt8) :
    Within R (Parsing.borrow language source) :=
  .bind .get fun _ => .bind (h.lease hn _) fun _ => .andThen (h.leased language source _)

theorem requestParse (hn : Pool.CountsWithin R) (code : Code) (language : Json) :
    Within R (Parsing.request code language) := by
  refine .bind .get fun s => ?_
  cases s.validate language with
  | error f => exact .fail f
  | ok name =>
    cases code.toSource with
    | error f => exact .fail f
    | ok source =>
      refine .bind (h.of_remote Boot.remote_attach) fun r => ?_
      cases r with
      | some p => exact .restOn _ _
      | none => exact h.borrow hn name source

theorem copy (language : String) (source : List UInt8) (crew : Crew) (root : Node) :
    Within R (Parsing.copy language source crew root) := by
  refine .bind (h.of_remote (remote_submit _ _)) fun r => ?_
  cases r with
  | ok p => exact .restOn _ _
  | error f => exact .fail f

theorem drain (language : String) (job : PromiseId) (cancellation : Fault) :
    Within R (Parsing.drain language job cancellation) :=
  .bind .get fun _ => .ite
    (.bind (h.of_remote (remote_onLoop fun _ => .waiter job)) fun _ => .restOn _ _)
    (.bind (h.release language) fun _ => .fail _)

end Pool.KeptWithin

/-! ## Calls

What keeps within a relation to which all counting belongs. -/

section

variable [IsPreorder Service R] (h : Pool.KeptWithin R)

include h

/-- A parse for some use keeps within what the parse itself keeps within. -/
theorem Tools.within_used (use : ParseUse) {f : Work (Turn ParseStage Tree)} (hf : Within R f) :
    Within R (do
      let turn ← f
      andThen (← andThen turn id (finish use)) (.parse use) (fun r => return .finish r) :
        Work (Turn Stage Reply)) :=
  .bind hf fun _ => .bind (.andThen fun r => h.of_remote (remote_finish use r)) fun _ =>
    .andThen fun _ => .pure _

/-- A parse goes on that has not just booted, and does not end. -/
theorem Parsing.within_leasing (language : String) (source : List UInt8) (crew : Crew) (point : LeaseStage)
    (given : Except Fault Reply) : Within R (resume (.leasing language source crew point) given) :=
  .bind (h.resumeLease point given) fun _ => .andThen (h.leased language source crew)

/-- A parse goes on that has asked for its lease: it counts nothing but parses from there. -/
theorem Parsing.within_further
    (hc : ∀ {f : Counts → Counts}, (∀ c, (f c).parsers = c.parsers) → Within R (count f))
    (point : ParseStage) (hpoint : ∀ language source, point ≠ .booting language source)
    (given : Except Fault Reply) : Within R (resume point given) := by
  cases point with
  | booting language source => exact absurd rfl (hpoint language source)
  | leasing language source crew point => exact within_leasing h language source crew point given
  | running language source crew job =>
    cases given with
    | ok r =>
      refine .bind (h.release language) fun _ => ?_
      cases r.toEngineTree with
      | some root => exact h.copy language source crew root
      | none => exact .bind (hc fun _ => rfl) fun _ => .fail _
    | error f =>
      refine .ite (h.drain language job f) (.ite ?_ (.bind (h.release language) fun _ => .fail f))
      exact .bind (hc fun _ => rfl) fun _ => .bind (h.of_remote (remote_log _)) fun _ =>
        .bind (h.release language) fun _ => .fail _
  | draining language job waiter cancellation =>
    exact .bind (h.of_remote (remote_changeLoop fun _ => .unsubscribe _ _)) fun _ =>
      h.drain language job cancellation
  | copying language =>
    cases given with
    | error f => exact .fail f
    | ok r =>
      cases r with
      | tree t => exact .bind (hc fun _ => rfl) fun _ => .done t
      | _ => exact .fail _

variable (hc : ∀ f, Within R (count f))

include hc

theorem Parsing.within_resume (point : ParseStage) (given : Except Fault Reply) :
    Within R (resume point given) := by
  cases point with
  | booting language source =>
    cases given with
    | ok r => exact h.borrow (fun _ => hc _) language source
    | error f => exact .fail f
  | _ => exact within_further h (fun _ => hc _) _ (by simp) given

theorem Tools.within_parse (use : ParseUse) (code : Code) (language : Json) :
    Within R (parse use code language) :=
  within_used h use (h.requestParse (fun _ => hc _) code language)

theorem Tools.within_parseAs (use : ParseUse) (code : Code) (path : Json) :
    Within R (parseAs use code path) := by
  unfold parseAs
  split
  · exact within_parse h hc use code _
  · exact .bind (hc _) fun _ => .done _

theorem Tools.within_parseFile (path : Json) (depth : Option Int) : Within R (parseFile path depth) := by
  refine .bind .get fun s => ?_
  split
  · split
    · exact .done _
    · split
      · exact .ite (.done _) (.fail _)
      · exact within_parseAs h hc _ _ _
  · exact .done _

/-- A call that asks for a parser is begun. -/
theorem Calls.within_start {call : Call} (hcall : call.asksParser = true) : Within R (start call) := by
  refine .bind .get fun s => ?_
  cases call with
  | parse code language => exact Tools.within_parse h hc .tree code language
  | parseFile code path => exact Tools.within_parseAs h hc .tree code path
  | snippetTool code language depth =>
    exact Tools.within_parse h hc (.snippet language depth) code language
  | fileTool path depth => exact Tools.within_parseFile h hc path depth
  | getParser language =>
    exact .bind (h.request (fun _ => hc _) language) fun _ =>
      .andThen fun r => h.of_remote (remote_parserReply r)
  | lease holder language =>
    exact .bind (h.lease (fun _ => hc _) language) fun _ =>
      .andThen fun r => h.of_remote (remote_hold _ _ r)
  | _ => cases hcall

/-- A task that asks for a parser has its turn. -/
theorem Calls.within_asking {stage : Stage} (hstage : stage.asksParser = true)
    (given : Except Fault Reply) : Within R (resume stage given) := by
  cases stage with
  | start call =>
    cases given with
    | ok _ => exact within_start h hc hstage
    | error f => exact .fail f
  | parser point =>
    exact .bind (h.resume point given) fun _ => .andThen fun r => h.of_remote (remote_parserReply r)
  | lease holder point =>
    exact .bind (h.resumeLease point given) fun _ => .andThen fun r => h.of_remote (remote_hold _ _ r)
  | holding language parser => exact .bind (h.release language) fun _ => .pure _
  | parse use point => exact Tools.within_used h use (Parsing.within_resume h hc point given)
  | _ => cases hstage

/-- Whatever a task does in its turn, if it does not close the service. -/
theorem Calls.within_resume {stage : Stage} (hstage : stage.closes = false)
    (given : Except Fault Reply) : Within R (resume stage given) := by
  cases hasks : stage.asksParser with
  | false => exact h.of_remote (remote_resume hasks hstage given)
  | true => exact within_asking h hc hasks given

end

/-! ## Locks that are awake -/

/-- The lock can be taken at once: it is not held, and who waits has been cancelled. -/
def Lock.IsFree (l : Loop Reply Stage Hook) (lock : Lock) : Prop :=
  lock.held = false ∧ ∀ k ∈ lock.tickets, l.isCancelled k = true

/-- The lock is held, or nobody waits for it, or the first who waits has been called or cancelled. -/
structure Lock.Awake (l : Loop Reply Stage Hook) (lock : Lock) : Prop where
  known : ∀ k ∈ lock.tickets, k < l.promises.size
  called : lock.held = false → ∀ k, lock.tickets.head? = some k → l.isPending k = false

theorem Lock.Awake.later {l l' : Loop Reply Stage Hook} {lock : Lock} (h : lock.Awake l)
    (hl : l.Later l') : lock.Awake l' where
  known k hk := Nat.lt_of_lt_of_le (h.known k hk) hl.size_le
  called hheld k hk := hl.isPending_eq_false (h.known k (List.mem_of_head? hk)) (h.called hheld k hk)

namespace Service

/-- Every lock is awake. -/
structure HandsOver (s : Service) : Prop where
  awake : ∀ {language pooled}, s.pool.get? language = some pooled → pooled.lock.Awake s.loop

/-- Who hands locks over before does so after. -/
def KeepsHanding (s s' : Service) : Prop := s.HandsOver → s'.HandsOver

instance : IsPreorder Service KeepsHanding where
  refl _ h := h
  trans _ _ _ h h' hs := h' (h hs)

namespace HandsOver

theorem opened (config : Config) (world : World) (eager : Bool) (stuck : Option Fault)
    (log : List LogLine) : HandsOver (Service.opened config world eager stuck log) := by
  refine ⟨fun hp => ?_⟩
  rw [pool_opened] at hp
  cases hp

/-- Nothing is done to the pool. -/
theorem congr (h : HandsOver s) (hp : s'.pool = s.pool) (hl : s.loop.Later s'.loop) : HandsOver s' :=
  ⟨fun hp' => (h.awake (hp ▸ hp')).later hl⟩

/-- One pooled parser is changed, whose lock is awake afterwards. -/
theorem put (h : HandsOver s)
    (hp : ∀ l, s'.pool.get? l = if l = language then some pooled else s.pool.get? l)
    (hl : s.loop.Later s'.loop) (ha : pooled.lock.Awake s'.loop) : HandsOver s' := by
  refine ⟨fun {l p} hp' => ?_⟩
  rw [hp] at hp'
  split at hp'
  · cases hp'
    exact ha
  · exact (h.awake hp').later hl

end HandsOver

end Service

namespace Pool

theorem changeLock_eq (hp : s.pool.get? language = some pooled) (f : Lock → Lock) :
    changeLock language f s =
      ((), { s with pool := s.pool.put language { pooled with lock := f pooled.lock } }) :=
  change_eq hp _

/-- A parser that is not there is not changed. -/
theorem change_none (hp : s.pool.get? language = none) (f : Pooled → Pooled) :
    change language f s = ((), s) := by
  have : s.pool.adjust language f = s.pool := by rw [Keyed.adjust, hp]
  simp only [change, run_modify, this]

theorem lockOf_eq (hp : s.pool.get? language = some pooled) : lockOf s language = pooled.lock := by
  rw [lockOf, hp]
  rfl

theorem lockOf_none (hp : s.pool.get? language = none) : lockOf s language = {} := by
  rw [lockOf, hp]
  rfl

/-- Calling the first ticket. -/
theorem callNext_run (language : String) (s : Service) : callNext language s = ((),
    match (lockOf s language).tickets with
    | [] => s
    | k :: _ => { s with loop := s.loop.settle k (.value .nothing) }) := by
  unfold callNext
  rw [run_bind, run_get]
  cases (lockOf s language).tickets <;> rfl

/-- The lock, not being held, is awake once the first ticket is called. -/
theorem awake_callNext (hp : s.pool.get? language = some pooled)
    (hk : ∀ k ∈ pooled.lock.tickets, k < s.loop.promises.size) :
    pooled.lock.Awake (callNext language s).2.loop ∧ (callNext language s).2.pool = s.pool ∧
      s.loop.Later (callNext language s).2.loop := by
  rw [callNext_run, lockOf_eq hp]
  cases ht : pooled.lock.tickets with
  | nil => exact ⟨⟨fun k hk' => hk k hk', fun _ k hk' => by rw [ht] at hk'; cases hk'⟩, rfl, .refl _⟩
  | cons k ks =>
    refine ⟨⟨fun k' hk' => ?_, fun _ k' hk' => ?_⟩, rfl, .settle _ _⟩
    · exact Nat.lt_of_lt_of_le (hk k' hk') (Later.settle k _).size_le
    · rw [ht] at hk'
      cases hk'
      simp [isPending_settle]

theorem handing_of_afar (h : Afar s s') : KeepsHanding s s' := fun hs => hs.congr h.pool h.later

theorem handing_of_remote (h : Remote s s') : KeepsHanding s s' := handing_of_afar h.toAfar

theorem handing_count (f : Counts → Counts) : Within KeepsHanding (count f) :=
  fun _ hs => hs.congr rfl (.refl _)

theorem handing_create (language : String) (g : Grammar) : Within KeepsHanding (create language g) := by
  refine .bind .get fun s₀ => ?_
  cases s₀.engine? with
  | error f => exact .fail f
  | ok engine =>
    refine .bind ((remote_attempt _).mono fun _ _ => handing_of_remote) fun r => ?_
    cases r with
    | ok parser =>
      refine .bind (.modify fun s hs => ?_) fun _ => .bind (handing_count _) fun _ => .done _
      have hawake : Lock.Awake s.loop {} :=
        ⟨fun k hk => (List.not_mem_nil hk).elim, fun _ k hk => by cases hk⟩
      exact hs.put (fun l => Keyed.get?_put s.pool language l { parser }) (.refl _) hawake
    | error f =>
      exact .ite (.bind ((remote_log _).mono fun _ _ => handing_of_remote) fun _ =>
        .bind .get fun _ => .fail _) (.fail f)

/-! ### Taking the lock and giving it back -/

theorem take_none (hp : s.pool.get? language = none) : take language s = (.finish (.ok 0), s) := by
  rw [take, run_bind, change_none hp]
  simp only [run_bind, run_get, parserOf, hp]
  rfl

/-- Without a parser in the pool there is nothing to wait for. -/
theorem acquire_none (hp : s.pool.get? language = none) :
    acquire (.ok language) s = (.finish (.ok 0), s) := by
  have : acquire (.ok language) s = take language s := by
    simp only [acquire, run_bind, run_get, lockOf_none hp]
    rfl
  rw [this, take_none hp]

theorem acquire_free (hp : s.pool.get? language = some pooled) (hf : pooled.lock.IsFree s.loop) :
    acquire (.ok language) s = (.finish (.ok pooled.parser), { s with
      pool := s.pool.put language
        { pooled with lock := { pooled.lock with held := true }, leases := pooled.leases + 1 } }) := by
  have hc : (!pooled.lock.held && pooled.lock.tickets.all s.loop.isCancelled) = true := by
    rw [hf.1, List.all_eq_true.2 hf.2]
    rfl
  simp only [acquire, run_bind, run_get, lockOf_eq hp, hc, if_true, take_eq hp]

theorem acquire_drawn (hp : s.pool.get? language = some pooled) (hf : ¬ pooled.lock.IsFree s.loop) :
    acquire (.ok language) s =
      (.rest s.loop.promises.size (.lock language s.loop.promises.size), { s with
        loop := s.loop.promise.2
        pool := s.pool.put language { pooled with lock := { pooled.lock with
          tickets := pooled.lock.tickets ++ [s.loop.promises.size] } } }) := by
  have hc : ¬ (!pooled.lock.held && pooled.lock.tickets.all s.loop.isCancelled) = true := by
    rw [Bool.and_eq_true, Bool.not_eq_true', List.all_eq_true]
    exact hf
  have hd : onLoop (·.promise) s = (s.loop.promises.size, { s with loop := s.loop.promise.2 }) := rfl
  simp only [acquire, run_bind, run_get, lockOf_eq hp, if_neg hc, hd,
    changeLock_eq (s := { s with loop := s.loop.promise.2 }) hp]
  rfl

theorem release_none (hp : s.pool.get? language = none) : release language s = ((), s) := by
  rw [release, run_bind, changeLock, change_none hp, callNext_run, lockOf_none hp]

theorem release_run (hp : s.pool.get? language = some pooled) :
    release language s = callNext language
      { s with pool := s.pool.put language { pooled with lock := { pooled.lock with held := false } } } := by
  rw [release, run_bind, changeLock_eq hp]

/-- The lock as it is without a ticket. -/
def withoutTicket (pooled : Pooled) (k : PromiseId) : Pooled :=
  { pooled with lock := { pooled.lock with tickets := pooled.lock.tickets.filter (· ≠ k) } }

theorem withdraw_none {k : PromiseId} {f : Fault} (hp : s.pool.get? language = none) :
    resumeLease (.lock language k) (.error f) s = (.finish (.error f), s) := by
  have hn : callNext language s = ((), s) := by rw [callNext_run, lockOf_none hp]
  simp only [resumeLease, run_bind, changeLock, change_none hp, run_get, lockOf_none hp]
  exact congrArg (fun x : Unit × Service => ((.finish (.error f) : Turn LeaseStage Nat), x.2)) hn

/-- Who was called gives up the ticket and takes the lock. -/
theorem withdraw_ok {k : PromiseId} {r : Reply} (hp : s.pool.get? language = some pooled) :
    resumeLease (.lock language k) (.ok r) s =
      take language { s with pool := s.pool.put language (withoutTicket pooled k) } := by
  simp only [resumeLease, run_bind, changeLock_eq hp]
  rfl

/-- Who was cancelled gives up the ticket, and calls the next one unless the lock is held. -/
theorem withdraw_error {k : PromiseId} {f : Fault} (hp : s.pool.get? language = some pooled) :
    resumeLease (.lock language k) (.error f) s = (.finish (.error f),
      if pooled.lock.held then { s with pool := s.pool.put language (withoutTicket pooled k) }
      else (callNext language { s with pool := s.pool.put language (withoutTicket pooled k) }).2) := by
  have hl : lockOf { s with pool := s.pool.put language (withoutTicket pooled k) } language =
      (withoutTicket pooled k).lock := lockOf_eq (by rw [Keyed.get?_put, if_pos rfl])
  have hw : changeLock language (fun l => { l with tickets := l.tickets.filter (· ≠ k) }) s =
      ((), { s with pool := s.pool.put language (withoutTicket pooled k) }) := changeLock_eq hp _
  simp only [resumeLease, run_bind, hw, run_get, hl]
  by_cases hh : pooled.lock.held = true
  · rw [if_pos (show (withoutTicket pooled k).lock.held = true from hh), if_pos hh]
    rfl
  · rw [if_neg (show ¬ (withoutTicket pooled k).lock.held = true from hh), if_neg hh]
    rfl

/-! ### Locks stay awake -/

/-- The lock is taken of a parser all of whose tickets are known. -/
theorem handing_take (hs : s.HandsOver) (hp : s.pool.get? language = some pooled) (pooled' : Pooled)
    (ht : ∀ k ∈ pooled'.lock.tickets, k ∈ pooled.lock.tickets) :
    HandsOver (take language { s with pool := s.pool.put language pooled' }).2 := by
  rw [take_eq ((Keyed.get?_put ..).trans (if_pos rfl))]
  have hput : ∀ l, ((s.pool.put language pooled').put language { pooled' with
      lock := { pooled'.lock with held := true }, leases := pooled'.leases + 1 }).get? l =
      if l = language then some { pooled' with
        lock := { pooled'.lock with held := true }, leases := pooled'.leases + 1 }
      else s.pool.get? l := by
    intro l
    simp only [Keyed.get?_put]
    split <;> rfl
  exact hs.put hput (.refl _) ⟨fun k hk => (hs.awake hp).known k (ht k hk), fun hfree => by cases hfree⟩

/-- A lock is changed that nobody holds afterwards, and its first ticket is called. -/
theorem handing_callNext (hs : s.HandsOver) (hp : s.pool.get? language = some pooled) (pooled' : Pooled)
    (ht : ∀ k ∈ pooled'.lock.tickets, k ∈ pooled.lock.tickets) :
    HandsOver (callNext language { s with pool := s.pool.put language pooled' }).2 := by
  have hput : (s.pool.put language pooled').get? language = some pooled' :=
    (Keyed.get?_put ..).trans (if_pos rfl)
  obtain ⟨ha, hpool, hl⟩ := awake_callNext (s := { s with pool := s.pool.put language pooled' }) hput
    fun k hk => (hs.awake hp).known k (ht k hk)
  exact hs.put (fun l => by rw [hpool, Keyed.get?_put]) hl ha

theorem handing_acquire (result : Except Fault String) : Within KeepsHanding (acquire result) := by
  cases result with
  | error f => exact .fail f
  | ok language =>
    intro s hs
    cases hp : s.pool.get? language with
    | none =>
      rw [acquire_none hp]
      exact hs
    | some pooled =>
      by_cases hf : pooled.lock.IsFree s.loop
      · rw [acquire_free hp hf]
        exact hs.put (fun l => Keyed.get?_put ..) (.refl _) ⟨(hs.awake hp).known, nofun⟩
      · rw [acquire_drawn hp hf]
        refine hs.put (fun l => Keyed.get?_put ..) .promise ⟨fun k hk => ?_, fun hheld k hk => ?_⟩
        · rw [size_promise]
          rcases List.mem_append.1 hk with hk | hk
          · exact Nat.lt_succ_of_lt ((hs.awake hp).known k hk)
          · rw [List.mem_singleton.1 hk]
            exact Nat.lt_succ_self _
        · -- The lock is not free, so somebody waits before the new ticket.
          cases ht : pooled.lock.tickets with
          | nil => exact absurd ⟨hheld, fun k hk => by simp [ht] at hk⟩ hf
          | cons k' ks =>
            have hk' : pooled.lock.tickets.head? = some k := by
              rw [ht]
              simpa [ht] using hk
            exact Later.promise.isPending_eq_false ((hs.awake hp).known k (List.mem_of_head? hk'))
              ((hs.awake hp).called hheld k hk')

theorem handing_release (language : String) : Within KeepsHanding (release language) := by
  intro s hs
  cases hp : s.pool.get? language with
  | none =>
    rw [release_none hp]
    exact hs
  | some pooled =>
    rw [release_run hp]
    exact handing_callNext hs hp _ fun _ => id

theorem handing_withdraw (language : String) (ticket : PromiseId) (given : Except Fault Reply) :
    Within KeepsHanding (resumeLease (.lock language ticket) given) := by
  intro s hs
  have hsub : ∀ {pooled : Pooled}, ∀ k ∈ (withoutTicket pooled ticket).lock.tickets,
      k ∈ pooled.lock.tickets := fun k hk => (List.mem_filter.1 hk).1
  cases hp : s.pool.get? language with
  | none =>
    cases given with
    | ok r =>
      have h : resumeLease (.lock language ticket) (.ok r) s = take language s := by
        simp only [resumeLease, run_bind, changeLock, change_none hp]
      rw [h, take_none hp]
      exact hs
    | error f =>
      rw [withdraw_none hp]
      exact hs
  | some pooled =>
    cases given with
    | ok r =>
      rw [withdraw_ok hp]
      exact handing_take hs hp _ hsub
    | error f =>
      rw [withdraw_error hp]
      dsimp only
      split
      · rename_i hheld
        refine hs.put (fun l => Keyed.get?_put ..) (.refl _)
          ⟨fun k hk => (hs.awake hp).known k (hsub k hk), fun hf => ?_⟩
        exact absurd (hheld.symm.trans hf) (by decide)
      · exact handing_callNext hs hp _ hsub

theorem keptWithin_keepsHanding : KeptWithin KeepsHanding where
  remote := handing_of_remote
  grammarCame := within_grammarCame handing_create
  acquire := handing_acquire
  withdraw := handing_withdraw
  release := handing_release

end Pool

/-! ## Steps -/

namespace Service

variable {roles roles' : Roles Hook Job} {mv : Service.Move} {w : Woken} {m : Midst}
  {turn : Turn Stage Reply}

theorem keepsHanding_resume (stage : Stage) (given : Except Fault Reply) :
    Within KeepsHanding (Calls.resume stage given) := by
  cases hasks : stage.asksParser with
  | false => exact (Calls.afar_resume hasks given).mono fun _ _ => Pool.handing_of_afar
  | true => exact Calls.within_asking Pool.keptWithin_keepsHanding Pool.handing_count hasks given

namespace HandsOver

/-- A turn hands locks over to its end. -/
theorem afterTurn (h : HandsOver s) (ht : HasTurn s roles w m turn) : HandsOver (m.after w.task turn) := by
  obtain ⟨i, hb⟩ := ht.before
  have hbefore : HandsOver w.before := by
    rw [hb]
    exact ⟨fun hp => ⟨(h.awake hp).known, (h.awake hp).called⟩⟩
  have hm := keepsHanding_resume w.stage w.given w.before hbefore
  rw [ht.resumed] at hm
  exact hm.congr rfl (.conclude _ _)

/-- **Every step hands locks over.** -/
theorem step (h : HandsOver s) (ho : AtRest s roles) (hst : Step s roles mv s' roles') : HandsOver s' := by
  rcases hst.aside_or_turn ho with ha | ⟨w, m, turn, ht, rfl, rfl⟩
  · refine ⟨fun {language pooled} hp => ?_⟩
    rw [ha.pool] at hp
    obtain ⟨hknown, hcalled⟩ := h.awake hp
    refine ⟨fun k hk => Nat.lt_of_lt_of_le (hknown k hk) (hst.size_le ho), fun hheld k hk => ?_⟩
    have hlt := hknown k (List.mem_of_head? hk)
    rcases isPending_or_settled hlt with hp' | ⟨o, hout⟩
    · exact absurd (hp'.symm.trans (hcalled hheld k hk)) (by decide)
    · exact isPending_of_outcome? (hst.outcome?_of_some hout)
  · exact h.afterTurn ht

end HandsOver

end Service

end SourceTrees
