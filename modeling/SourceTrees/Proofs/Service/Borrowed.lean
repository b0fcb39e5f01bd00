import SourceTrees.Proofs.Service.Turns

/-!
# The turns of leases and parses

What every part of a lease or a parse does, as strides.

## Results

* `Service.leads_release` — the lock is given back by who has it in hand, and the next ticket is called.
* `Service.leads_lease`, `Service.leads_resumeLease` — a request for a lease ends with the lock in hand,
  or with nothing.
* `Service.leads_requestParse`, `Service.leads_resumeParse` — a parse ends with nothing in hand.
-/

set_option autoImplicit false

namespace SourceTrees.Service

open Loop

variable {w : Woken} {m m' : Midst} {language : String} {pooled : Pooled}

/-! ## Locks -/

theorem change_eq {s : Service} (hp : s.pool.get? language = some pooled) (f : Pooled → Pooled) :
    Pool.change language f s = ((), { s with pool := s.pool.put language (f pooled) }) := by
  show ((), ({ s with pool := s.pool.adjust language f } : Service)) = _
  rw [Keyed.adjust, hp]

theorem exists_pooled {s : Service} (hc : s.pool.contains language = true) :
    ∃ pooled, s.pool.get? language = some pooled := Option.isSome_iff_exists.1 hc

/-- The next ticket is called, the lock not being held. -/
theorem leads_callNext (hg : m.grip = .free)
    (hheld : ∀ pooled, m.service.pool.get? language = some pooled → pooled.lock.held = false) :
    Leads w m (Pool.callNext language m.service) fun _ m' => m'.grip = .free := by
  unfold Pool.callNext Pool.lockOf
  refine .bind (.pure ?_)
  cases hp : m.service.pool.get? language with
  | none => exact .pure hg
  | some pooled =>
    cases hk : pooled.lock.tickets with
    | nil =>
      simp only [Option.map_some, Option.getD_some, hk]
      exact .pure hg
    | cons k ks =>
      simp only [Option.map_some, Option.getD_some, hk]
      exact .stride (.calledNext hg hp (hheld pooled hp) hk) (.pure hg)

/-- The lock is given back. -/
theorem leads_release (hg : m.grip = .lease language ∨
      ∃ job, m.grip = .job language job ∧ w.SeesDone m.service language job) :
    Leads w m (Pool.release language m.service) fun _ m' => m'.grip = .free := by
  refine .of_inTurn fun ht => ?_
  have hc : m.service.pool.contains language = true := by
    have hf := ht.grip
    rcases hg with hg | ⟨job, hg, _⟩
    · rw [hg] at hf
      exact hf
    · rw [hg] at hf
      exact hf.2
  obtain ⟨pooled, hp⟩ := exists_pooled hc
  refine .after (change_eq hp _) (.stride (.released hp hg) (leads_callNext rfl fun pooled' hp' => ?_))
  replace hp' : (m.service.pool.put language _).get? language = some pooled' := hp'
  rw [Keyed.get?_put, if_pos rfl] at hp'
  cases hp'
  rfl

/-! ## Leases -/

/-- A request for a lease has come to rest, or has been granted or refused. -/
def LeaseEnds (w : Woken) (language : Json) : Turn LeaseStage Nat → Midst → Prop :=
  Halts
    (fun on point m => Rested w m on point.rest point.grip ∧ point.Coherent ∧
      language = .str (Calls.leasedLanguage point))
    fun result m =>
      match result with
      | .ok parser => ∃ name, language = .str name ∧ m.grip = .lease name ∧
          parser = Pool.parserOf m.service name
      | .error f => m.grip = .free ∧ w.Blames f

theorem leads_acquire {language : Json} {result : Except Fault String} (hg : m.grip = .free)
    (hr : ∀ name, result = .ok name → language = .str name ∧ m.service.pool.contains name = true)
    (hf : ∀ f, result = .error f → w.Blames f) :
    Leads w m (Pool.acquire result m.service) (LeaseEnds w language) := by
  unfold Pool.acquire
  cases result with
  | error f => exact .pure ⟨hg, hf f rfl⟩
  | ok name =>
    obtain ⟨hname, hc⟩ := hr name rfl
    obtain ⟨pooled, hp⟩ := exists_pooled hc
    have hlock : Pool.lockOf m.service name = pooled.lock := by
      rw [Pool.lockOf, hp]
      rfl
    refine .bind (.pure ?_)
    rw [hlock]
    split
    · rename_i hfree
      rw [Bool.and_eq_true, Bool.not_eq_true', List.all_eq_true] at hfree
      refine .after (change_eq hp _) (.stride (.taken hg hp hfree.1 hfree.2) (.pure ?_))
      exact ⟨name, hname, rfl, rfl⟩
    · refine .of_inTurn fun ht => ?_
      have hp' : ({ m.service with loop := m.service.loop.promise.2 } : Service).pool.get? name =
          some pooled := hp
      have hd : Work.onLoop (·.promise) m.service =
          (m.service.loop.promises.size, { m.service with loop := m.service.loop.promise.2 }) := rfl
      refine .after hd (.after (change_eq hp' _) ?_)
      refine .stride (.drawn hg hp) (.pure ?_)
      refine ⟨⟨⟨rfl, Function.update_self ..⟩, rfl, ht.base_le, ?_⟩, trivial, hname⟩
      exact Nat.lt_of_lt_of_eq (Nat.lt_succ_self _) size_promise.symm

/-- A request for a lease. -/
theorem leads_lease (language : Json) (hg : m.grip = .free) :
    Leads w m (Pool.lease language m.service) (LeaseEnds w language) :=
  .call (leads_requestParser language hg) (fun _ _ _ hr => hr)
    fun _ _ hf => leads_acquire hf.1 hf.2.1 hf.2.2

/-- A request for a lease goes on. -/
theorem leads_resumeLease {point : LeaseStage} (hs : w.stage.rest = point.rest)
    (hc : point.Coherent) (hg : m.grip = point.grip) :
    Leads w m (Pool.resumeLease point w.given m.service)
      (LeaseEnds w (.str (Calls.leasedLanguage point))) := by
  cases point with
  | parser point =>
    exact .call (leads_resumeParser hs hc hg) (fun _ _ _ hr => hr)
      fun _ _ hf => leads_acquire hf.1 hf.2.1 hf.2.2
  | lock language k =>
    refine .of_inTurn fun ht => ?_
    have hf := ht.grip
    rw [hg] at hf
    obtain ⟨pooled, hp⟩ := exists_pooled hf.2
    have hst := Stride.withdrawn hs hg hp
    unfold Pool.resumeLease
    cases hr : w.given with
    | ok r =>
      rw [hr] at hst
      refine .after (change_eq hp _) (.stride hst ?_)
      have hp' : (m.service.pool.put language { pooled with
          lock := { pooled.lock with tickets := pooled.lock.tickets.filter (· ≠ k) } }).get? language =
          some { pooled with
            lock := { pooled.lock with tickets := pooled.lock.tickets.filter (· ≠ k) } } := by
        rw [Keyed.get?_put, if_pos rfl]
      refine .after (change_eq hp' _) (.stride (.admitted rfl hp') (.pure ?_))
      exact ⟨language, rfl, rfl, rfl⟩
    | error f =>
      rw [hr] at hst
      refine .after (change_eq hp _) (.stride hst ?_)
      refine .bind (.pure ?_)
      dsimp only
      split
      · exact .pure ⟨rfl, .met hr⟩
      · rename_i hheld
        refine .bind ((leads_callNext rfl fun pooled' hp' => ?_).mono fun _ m' hg' =>
          .pure ⟨hg', .met hr⟩)
        rw [Pool.lockOf, hp'] at hheld
        exact Bool.eq_false_iff.2 hheld

/-! ## Parses -/

/-- Workers that have been dismissed stay so. -/
theorem Stride.dismissed_stays (hst : Stride w m m') (hd : m.service.workers.dismissed = true) :
    m'.service.workers.dismissed = true := by
  cases hst with
  | submitted crew hc hg =>
    unfold Work.handedIn
    split <;> exact hd
  | dismissed =>
    rw [Work.dismiss_eq]
    split
    · exact hd
    · rfl
  | _ => exact hd

theorem Strides.dismissed_stays (hst : Strides w m m') (hd : m.service.workers.dismissed = true) :
    m'.service.workers.dismissed = true := by
  induction hst with
  | refl => exact hd
  | tail _ hstep ih => exact hstep.dismissed_stays ih

theorem Step.dismissed_stays {s s' : Service} {roles roles' : Roles Hook Job} {mv : Service.Move}
    (hst : Step s roles mv s' roles') (hd : s.workers.dismissed = true) :
    s'.workers.dismissed = true := by
  cases hst with
  | @forgotten i hook op hi => cases hook <;> exact hd
  | workedOff hi =>
    rw [Work.workOff_eq hi]
    exact hd
  | turn hwakes hsts hres hend => exact Strides.dismissed_stays hsts hd
  | _ => exact hd

/-- A parse may end with the fault: it is one of the service, one of those that are said, or there are no
    workers to do a job. -/
def ParseFault (R : Fault → Prop) (s : Service) (f : Fault) : Prop :=
  f.kind.isDeclared = true ∨ R f ∨ f = .poolClosed ∧ s.workers.dismissed = true

/-- A parse has come to rest, or finished. -/
def ParseEnds {α : Type} (w : Woken) (R : Fault → Prop) : Turn ParseStage α → Midst → Prop :=
  Halts
    (fun on point m => Rested w m on point.rest point.grip ∧ point.Coherent ∧
      ∀ f, point.cancellation? = some f → R f)
    fun result m => m.grip = .free ∧ ∀ f, result = .error f → ParseFault R m.service f

variable {R R' : Fault → Prop}

theorem ParseFault.mono {s : Service} {f : Fault} (h : ParseFault R s f) (hR : ∀ f, R f → R' f) :
    ParseFault R' s f := h.imp_right (Or.imp_left (hR f))

theorem ParseEnds.mono {α : Type} {turn : Turn ParseStage α} (h : ParseEnds w R turn m)
    (hR : ∀ f, R f → R' f) : ParseEnds w R' turn m := by
  cases turn with
  | rest on point => exact ⟨h.1, h.2.1, fun f hf => hR f (h.2.2 f hf)⟩
  | giveWay point => exact h
  | finish result => exact ⟨h.1, fun f hf => (h.2 f hf).mono hR⟩

/-- A parse has finished with a fault. -/
theorem leads_parseFault {α : Type} {f : Fault} (hg : m.grip = .free) (hf : ParseFault R m.service f) :
    Leads w m ((.finish (.error f) : Turn ParseStage α), m.service) (ParseEnds w R) :=
  .pure ⟨hg, fun g hg' => by cases hg'; exact hf⟩

theorem leads_copy (source : List UInt8) (crew : Crew) (root : Node) (hg : m.grip = .free) :
    Leads w m (Parsing.copy language source crew root m.service) (ParseEnds w R) := by
  unfold Parsing.copy
  refine .bind ((leads_submit crew hg (.copy language source root)).mono fun r m' hr => ?_)
  cases r with
  | ok p =>
    obtain ⟨_, hg', hrole, hle, hlt⟩ := hr
    exact .pure ⟨⟨⟨p, _, _, _, rfl, hrole⟩, hg', hle, hlt⟩, trivial, fun _ h => by cases h⟩
  | error f =>
    obtain ⟨rfl, rfl, hd⟩ := hr
    exact leads_parseFault hg (.inr (.inr ⟨rfl, hd⟩))

theorem leads_parsed {job : PromiseId} (source : List UInt8) (crew : Crew) (root : Option Node)
    (hg : m.grip = .job language job) (hd : w.SeesDone m.service language job) :
    Leads w m (Parsing.parsed language source crew root m.service) (ParseEnds w R) := by
  unfold Parsing.parsed
  refine .bind ((leads_release (.inr ⟨job, hg, hd⟩)).mono fun _ m' hg' => ?_)
  cases root with
  | some root => exact leads_copy source crew root hg'
  | none => exact .bind (.count .parseFailed (fun _ => rfl) (leads_parseFault hg' (.inl rfl)))

theorem leads_raised {job : PromiseId} (f : Fault) (hg : m.grip = .job language job)
    (hd : w.SeesDone m.service language job) :
    Leads w m (Parsing.raised language f m.service) (ParseEnds w R) := by
  unfold Parsing.raised
  refine .bind (.count .parseFailed (fun _ => rfl) (.bind (.log _ (.bind ?_))))
  exact .mono (leads_release (.inr ⟨job, hg, hd⟩)) fun _ m' hg' => leads_parseFault hg' (.inl rfl)

theorem leads_drain {job : PromiseId} {cancellation : Fault} (hg : m.grip = .job language job)
    (hf : R cancellation) :
    Leads w m (Parsing.drain language job cancellation m.service) (ParseEnds w R) := by
  unfold Parsing.drain
  refine .bind (.pure ?_)
  cases hp : m.service.loop.isPending job with
  | true =>
    refine .of_inTurn fun ht => .bind (.stride (.waited hg) (.pure (.pure ?_)))
    have hfits := ht.grip
    rw [hg] at hfits
    obtain ⟨⟨parser, source, hj⟩, _⟩ := hfits
    refine ⟨⟨⟨rfl, Function.update_self .., parser, source, ?_⟩, hg, ht.base_le, ?_⟩, trivial, ?_⟩
    · exact ht.ordered.sound.assigned.update_eq hj (by simp)
    · show _ < (m.service.loop.waiter job).2.promises.size
      rw [Loop.waiter, size_subscribe, size_promise]
      exact Nat.lt_succ_self _
    · rintro f hc
      cases hc
      exact hf
  | false =>
    exact .bind ((leads_release (.inr ⟨job, hg, .inl hp⟩)).mono fun _ m' hg' =>
      leads_parseFault hg' (.inr (.inl hf)))

theorem leads_leased (source : List UInt8) (crew : Crew) {result : Except Fault Nat}
    (hr : match result with
      | .ok parser => m.grip = .lease language ∧ parser = Pool.parserOf m.service language
      | .error f => m.grip = .free ∧ R f) :
    Leads w m (Parsing.leased language source crew result m.service) (ParseEnds w R) := by
  unfold Parsing.leased
  cases result with
  | error f => exact leads_parseFault hr.1 (.inr (.inl hr.2))
  | ok parser =>
    obtain ⟨hg, rfl⟩ := hr
    refine .bind ((leads_submit crew hg (.parse language source)).mono fun r m' hr => ?_)
    cases r with
    | error f =>
      obtain ⟨rfl, rfl, hd⟩ := hr
      refine .bind ((leads_release (.inl hg)).strides.mono fun _ m' hm => ?_)
      exact leads_parseFault hm.1 (.inr (.inr ⟨rfl, hm.2.dismissed_stays hd⟩))
    | ok job =>
      obtain ⟨rfl, hg', hrole, hle, hlt⟩ := hr
      refine .of_inTurn fun ht => .bind (.stride (.guarded hg') (.pure (.pure ?_)))
      refine ⟨⟨⟨_, Pool.parserOf m.service language, rfl, Function.update_self .., ?_⟩, hg',
        ht.base_le, ?_⟩, trivial, fun _ h => by cases h⟩
      · exact ht.ordered.sound.assigned.update_eq hrole (by simp)
      · show _ < (m'.service.loop.shield _).2.promises.size
        rw [Loop.shield, size_subscribe, size_promise]
        exact Nat.lt_succ_self _

/-- What a granted or refused lease leaves in the hands of a parse. -/
theorem leads_granted (source : List UInt8) (crew : Crew) {result : Except Fault Nat}
    (hR : ∀ f, w.Blames f → R f)
    (hr : match result with
      | .ok parser => ∃ name, Json.str language = .str name ∧ m.grip = .lease name ∧
          parser = Pool.parserOf m.service name
      | .error f => m.grip = .free ∧ w.Blames f) :
    Leads w m (Parsing.leased language source crew result m.service) (ParseEnds w R) := by
  refine leads_leased source crew ?_
  cases result with
  | error f => exact ⟨hr.1, hR f hr.2⟩
  | ok parser =>
    obtain ⟨name, hname, hg, hp⟩ := hr
    cases hname
    exact ⟨hg, hp⟩

theorem leads_borrow (source : List UInt8) (hR : ∀ f, w.Blames f → R f) (hg : m.grip = .free) :
    Leads w m (Parsing.borrow language source m.service) (ParseEnds w R) := by
  unfold Parsing.borrow
  refine .bind (.pure (.call (leads_lease (.str language) hg) (fun on point m' hr => ?_)
    fun result m' hf => leads_granted source _ hR hf))
  exact ⟨hr.1, ⟨hr.2.1, (Json.str.inj hr.2.2).symm⟩, fun _ h => by cases h⟩

/-- A request for a parse. -/
theorem leads_requestParse (code : Code) (language : Json) (hg : m.grip = .free) :
    Leads w m (Parsing.request code language m.service)
      (ParseEnds w fun f => w.Blames f ∨ code.toSource = .error f) := by
  unfold Parsing.request
  refine .bind (.pure ?_)
  cases hv : m.service.validate language with
  | error f => exact leads_parseFault hg (.inl (by rw [validate_eq_error hv]; rfl))
  | ok name =>
    cases hc : code.toSource with
    | error f => exact leads_parseFault hg (.inr (.inl (.inr rfl)))
    | ok source =>
      refine .bind (leads_attachBoot.mono fun r m' hr => ?_)
      cases r with
      | some p =>
        rw [hg] at hr
        exact .pure ⟨hr, trivial, fun _ h => by cases h⟩
      | none =>
        obtain ⟨rfl, _⟩ := hr
        exact leads_borrow source (fun _ => .inl) hg

/-- The faults, beside those of the service, with which a parse ends that goes on from the stage. -/
def Woken.ParseBlames (w : Woken) : ParseStage → Fault → Prop
  | .booting .., f | .leasing .., f => w.Blames f
  | .running .., f => w.given = .error f ∧ f.kind.isOrdinary = false
  | .draining _ _ _ cancellation, f => f = cancellation
  | .copying _, f => w.given = .error f ∨ ∃ r, w.given = .ok r ∧ ∀ t, r ≠ .tree t

/-- A parse goes on. -/
theorem leads_resumeParse {use : ParseUse} {point : ParseStage} (hs : w.stage = .parse use point)
    (hc : point.Coherent) (hg : m.grip = point.grip) :
    Leads w m (Parsing.resume point w.given m.service) (ParseEnds w (w.ParseBlames point)) := by
  cases point with
  | booting language source =>
    cases hr : w.given with
    | error f => exact leads_parseFault hg (.inr (.inl (.met hr)))
    | ok r => exact leads_borrow source (fun _ => id) hg
  | leasing language source crew point =>
    refine .call (leads_resumeLease (by rw [hs]; rfl) hc.1 hg) (fun on point' m' hr => ?_)
      fun result m' hf => leads_granted source crew (fun _ => id) ?_
    · rw [hc.2] at hr
      exact ⟨hr.1, ⟨hr.2.1, (Json.str.inj hr.2.2).symm⟩, fun _ h => by cases h⟩
    · rw [hc.2] at hf
      exact hf
  | running language source crew job =>
    have hsees : (∀ f, w.given = .error f → f.kind ≠ .cancelled) →
        w.SeesDone m.service language job := fun hd => .inr ⟨⟨use, source, crew, hs⟩, hd⟩
    cases hr : w.given with
    | ok r =>
      exact leads_parsed source crew _ hg (hsees fun f hf => by rw [hr] at hf; cases hf)
    | error f =>
      unfold Parsing.resume
      dsimp only
      split
      · rename_i hk
        exact leads_drain hg ⟨hr, by rw [hk]; rfl⟩
      · rename_i hk
        have hd := hsees fun f' hf => by
          rw [hr] at hf
          cases hf
          exact hk
        split
        · exact leads_raised f hg hd
        · rename_i ho
          exact .bind ((leads_release (.inr ⟨job, hg, hd⟩)).mono fun _ m' hg' =>
            leads_parseFault hg' (.inr (.inl ⟨hr, by simpa using ho⟩)))
  | draining language job waiter cancellation =>
    exact .stride (.unsubscribed hs) (leads_drain hg rfl)
  | copying language =>
    cases hr : w.given with
    | error f => exact leads_parseFault hg (.inr (.inl (.inl hr)))
    | ok r =>
      unfold Parsing.resume
      dsimp only
      split
      · exact .bind (.count .treeBuilt (fun _ => rfl) (.pure ⟨hg, fun _ h => by cases h⟩))
      · rename_i hn
        exact leads_parseFault hg (.inr (.inl (.inr ⟨r, hr, hn⟩)))

end SourceTrees.Service
