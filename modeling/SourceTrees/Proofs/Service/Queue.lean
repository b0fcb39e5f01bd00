import SourceTrees.Proofs.Service.Settling

/-!
# The queue of the workers

A job that is still in the queue has not been delivered, and no other ticket has its promise.

## Results

* `Service.Stride.delivers` — a stride puts outcomes on the agenda only as it hands in a job or dismisses
  the workers.
* `Service.Queued` — the invariant of the queue, kept by every stride and every step.
-/

set_option autoImplicit false

namespace SourceTrees.Service

open Loop

variable {s s' : Service} {roles roles' : Roles Hook Job} {w : Woken} {m m' : Midst} {mv : Service.Move}
  {p : PromiseId} {busy : Option PromiseId} {base : Nat}

/-- The state brings nothing new for the workers: the queue is the same, and nothing more is
    delivered. -/
structure Idles (s s' : Service) : Prop where
  queue : s'.workers.queue = s.workers.queue
  delivered : ∀ {p x}, .deliver p x ∈ s'.loop.agenda → .deliver p x ∈ s.loop.agenda

theorem Idles.of_still (hq : s'.workers.queue = s.workers.queue) (h : s.loop.Still s'.loop) :
    Idles s s' := ⟨hq, h.delivered⟩

theorem Idles.settle {s : Service} {p : PromiseId} {o : Settled Reply} :
    Idles s { s with loop := s.loop.settle p o } := by
  refine ⟨rfl, fun hm => ?_⟩
  rcases mem_agenda_settle.1 hm with hm | ⟨_, he, _⟩
  · exact hm
  · cases he

/-- A stride hands in a job, dismisses the workers, or does neither. -/
theorem Stride.delivers (hst : Stride w m m') :
    (∃ crew job, m'.service = Work.handedIn m.service crew job ∧
      m'.roles = Function.update m.roles m.service.loop.promises.size (.job job)) ∨
    m'.service = (Work.dismiss m.service).2 ∧ m'.roles = m.roles ∨ Idles m.service m'.service := by
  have hlaunch : ∀ {point : Stage} {hook : Hook} {q r : PromiseId},
      m.service.loop.Still (((m.service.loop.spawn point).2.subscribe q (.hook hook)).shield r).2 :=
    ((Still.spawn _).trans (.subscribe _ _)).trans (.shield _)
  cases hst with
  | bootJoined hb hr => exact .inr (.inr (.of_still rfl (.shield _)))
  | bootLaunched hb hn => exact .inr (.inr (.of_still rfl hlaunch))
  | loadJoined language hb hr => exact .inr (.inr (.of_still rfl (.shield _)))
  | loadLaunched language hb hn => exact .inr (.inr (.of_still rfl hlaunch))
  | submitted crew hc hg => exact .inl ⟨crew, _, rfl, rfl⟩
  | guarded hg => exact .inr (.inr (.of_still rfl (.shield _)))
  | waited hg => exact .inr (.inr (.of_still rfl (.waiter _)))
  | @unsubscribed use language job waiter cancellation hs =>
    have hstill : m.service.loop.Still (m.service.loop.unsubscribe job (.signal waiter)) :=
      .unsubscribe job _
    exact .inr (.inr (.of_still rfl hstill))
  | bootTimed seconds hg => exact .inr (.inr (.of_still rfl (.timer seconds)))
  | timerDropped q => exact .inr (.inr (.of_still rfl (.dropTimer q)))
  | drawn hg hp => exact .inr (.inr (.of_still rfl .promise))
  | calledNext hg hp hheld hk => exact .inr (.inr .settle)
  | gateMade => exact .inr (.inr (.of_still rfl .promise))
  | spawned call => exact .inr (.inr (.of_still rfl (.spawn _)))
  | grouped hm => exact .inr (.inr (.of_still rfl (.group _)))
  | dismissed => exact .inr (.inl ⟨rfl, rfl⟩)
  | _ => exact .inr (.inr (.of_still rfl (.refl _)))

/-- Between turns nothing is new for the workers, unless a queued job is done. -/
theorem Step.idles (h : AtRest s roles) (hst : Step s roles mv s' roles') :
    (∃ i t, s.workers.queue[i]? = some t ∧ s' = (Work.workOff i s).2) ∨ Idles s s' ∨
      ∃ w m turn, HasTurn s roles w m turn ∧
        s' = { m.service with loop := Program.conclude w.task turn m.service.loop } ∧
        roles' = m.roles := by
  cases hst with
  | idle => exact .inr (.inl ⟨rfl, id⟩)
  | carried hi hw hk => exact .inr (.inl ⟨rfl, fun hm => mem_agenda_of_mem_pick (delivered_effect hm)⟩)
  | @forgotten i hook op hi =>
    cases hook <;> exact .inr (.inl ⟨rfl, fun hm => mem_agenda_of_mem_pick hm⟩)
  | expired => exact .inr (.inl ⟨rfl, Still.expireDue.delivered⟩)
  | clocked time => exact .inr (.inl ⟨rfl, id⟩)
  | spawned call => exact .inr (.inl ⟨rfl, (Still.spawn _).delivered⟩)
  | workedOff hi => exact .inl ⟨_, _, hi, rfl⟩
  | cancelled t ha =>
    have hs : s.loop.Struck (fun _ => True) (s.loop.cancelTask t) :=
      .cancelTask trivial fun _ _ _ _ _ => trivial
    exact .inr (.inl ⟨rfl, hs.delivered⟩)
  | leaseEnded hg fault => exact .inr (.inl .settle)
  | turn hwakes hsts hres hend =>
    exact .inr (.inr ⟨_, _, _, .of_wakes h hwakes hsts hres hend, rfl, rfl⟩)

/-- What is queued is still to be delivered, and a parser's job is open. -/
structure Queued (s : Service) : Prop where
  once : (s.workers.queue.map (·.promise)).Nodup
  undelivered : ∀ {k}, k ∈ s.workers.queue → ∀ x, .deliver k.promise x ∉ s.loop.agenda
  isOpen : ∀ {k parser source}, k ∈ s.workers.queue → k.job = .parse parser source →
    s.loop.isPending k.promise = true

namespace Queued

theorem opened (config : Config) (world : World) (eager : Bool) (stuck : Option Fault)
    (log : List LogLine) : Queued (Service.opened config world eager stuck log) := by
  refine ⟨?_, fun hk => ?_, fun hk => ?_⟩
  · simp
  · simp at hk
  · simp at hk

/-- Tickets may leave the queue; what stays is not delivered, and stays open. -/
theorem next (h : Queued s) (hsub : s'.workers.queue.Sublist s.workers.queue)
    (hdel : ∀ k ∈ s'.workers.queue, ∀ x, .deliver k.promise x ∈ s'.loop.agenda →
      .deliver k.promise x ∈ s.loop.agenda)
    (hopen : ∀ k ∈ s'.workers.queue, ∀ parser source, k.job = .parse parser source →
      s.loop.isPending k.promise = true → s'.loop.isPending k.promise = true) : Queued s' where
  once := h.once.sublist (hsub.map _)
  undelivered hk x hm := h.undelivered (hsub.subset hk) x (hdel _ hk x hm)
  isOpen hk hj := hopen _ hk _ _ hj (h.isOpen (hsub.subset hk) hj)

/-- Two tickets of the queue have different promises. -/
theorem eq_of_promise (h : Queued s) {k k' : Ticket} (hk : k ∈ s.workers.queue)
    (hk' : k' ∈ s.workers.queue) (he : k.promise = k'.promise) : k = k' :=
  List.inj_on_of_nodup_map h.once hk hk' he

theorem handedIn (h : Queued s) (ho : Ordered busy base s roles) (crew : Crew) (job : Job) :
    Queued (Work.handedIn s crew job) := by
  have hlt : ∀ k ∈ s.workers.queue, k.promise < s.loop.promises.size := fun k hk =>
    ho.sound.assigned.lt_size (by simp [ho.queued hk])
  have hopen : ∀ k ∈ s.workers.queue, ∀ parser source, k.job = .parse parser source →
      s.loop.promise.2.isPending k.promise = true := by
    intro k hk parser source hj
    rw [isPending_promise, h.isOpen hk hj]
    exact Bool.or_true _
  unfold Work.handedIn
  split
  · refine h.next (List.Sublist.refl _) (fun k hk x hm => ?_) fun k hk parser source hj _ =>
      hopen k hk parser source hj
    rcases List.mem_append.1 hm with hm | hm
    · exact hm
    · injection List.mem_singleton.1 hm with he _
      exact absurd (hlt k hk) (he ▸ Nat.lt_irrefl _)
  · refine ⟨?_, fun {k} hk x hm => ?_, fun {k parser source} hk hj => ?_⟩
    · show ((s.workers.queue ++ [_]).map _).Nodup
      rw [List.map_append, List.nodup_append]
      refine ⟨h.once, List.nodup_singleton _, fun q hq q' hq' he => ?_⟩
      obtain ⟨k, hk, rfl⟩ := List.mem_map.1 hq
      rw [List.map_singleton, List.mem_singleton] at hq'
      exact absurd (hlt k hk) (he.trans hq' ▸ Nat.lt_irrefl _)
    · rcases List.mem_append.1 hk with hk | hk
      · exact h.undelivered hk x hm
      · cases List.mem_singleton.1 hk
        obtain ⟨j, hj⟩ := ho.sound.assigned.delivered hm
        exact Nat.lt_irrefl _ (ho.sound.assigned.lt_size (by simp [hj]))
    · rcases List.mem_append.1 hk with hk | hk
      · exact hopen k hk parser source hj
      · cases List.mem_singleton.1 hk
        show s.loop.promise.2.isPending s.loop.promises.size = true
        rw [isPending_promise, decide_eq_true rfl]
        rfl

theorem dismiss (h : Queued s) : Queued (Work.dismiss s).2 := by
  rw [Work.dismiss_eq]
  cases s.workers.stuck with
  | some f => exact h.next (List.Sublist.refl _) (fun _ _ _ => id) fun _ _ _ _ _ => id
  | none =>
    refine h.next List.filter_sublist (fun k hk x hm => ?_) fun _ _ _ _ _ => id
    rcases List.mem_append.1 hm with hm | hm
    · exact hm
    · obtain ⟨t, ht, w', he, _⟩ := Ticket.mem_runAll hm
      obtain ⟨ht, hown⟩ := List.mem_filter.1 ht
      obtain ⟨hk, hother⟩ := List.mem_filter.1 hk
      injection he with he _
      rw [h.eq_of_promise hk ht he, hown] at hother
      cases hother

theorem workedOff (h : Queued s) {i : Nat} {t : Ticket} (hi : s.workers.queue[i]? = some t) :
    Queued (Work.workOff i s).2 := by
  obtain ⟨hlt, rfl⟩ := List.getElem?_eq_some_iff.1 hi
  rw [Work.workOff_eq hi]
  refine h.next (List.eraseIdx_sublist ..) (fun k hk x hm => ?_) fun _ _ _ _ _ => id
  rcases List.mem_append.1 hm with hm | hm
  · exact hm
  · injection List.mem_singleton.1 hm with he _
    have hperm := (List.getElem_cons_eraseIdx_perm hlt).map (·.promise)
    have hnodup := hperm.nodup_iff.2 h.once
    exact absurd (List.mem_map.2 ⟨k, hk, he⟩) (List.nodup_cons.1 hnodup).1

theorem stride (h : Queued m.service) (ht : InTurn w m) (hst : Stride w m m') : Queued m'.service := by
  rcases hst.delivers with ⟨crew, job, hs, _⟩ | ⟨hs, _⟩ | hi
  · rw [hs]
    exact h.handedIn ht.ordered crew job
  · rw [hs]
    exact h.dismiss
  · refine h.next (hi.queue ▸ List.Sublist.refl _) (fun k _ x hm => hi.delivered hm)
      fun k hk parser source hj hp => ?_
    have hrole := ht.ordered.queued (hi.queue ▸ hk)
    rw [isPending_iff_outcome?] at hp ⊢
    refine ⟨Nat.lt_of_lt_of_le hp.1 hst.later.size_le, ?_⟩
    rw [hst.outcome?_eq ht (by simp [hrole])]
    exact hp.2

theorem strides (h : Queued m.service) (ht : InTurn w m) (hst : Strides w m m') :
    Queued m'.service := by
  induction hst with
  | refl => exact h
  | tail hst hstep ih => exact ih.stride (ht.strides hst) hstep

/-- Every step keeps the queue. -/
theorem step (h : Queued s) (ho : AtRest s roles) (hst : Step s roles mv s' roles') : Queued s' := by
  have hopen : ∀ {k : Ticket} {parser source}, k ∈ s.workers.queue → k.job = .parse parser source →
      s.loop.isPending k.promise = true → s'.loop.isPending k.promise = true := by
    intro k parser source hk hj hp
    obtain ⟨ho', hext⟩ := ho.step hst
    have hrole := hext.eq (ho.queued hk) (by simp)
    have hlt : k.promise < s'.loop.promises.size := ho'.sound.assigned.lt_size (by simp [hrole])
    rcases isPending_or_settled hlt with hp' | ⟨o, hs⟩
    · exact hp'
    · rcases hst.outcome?_parse ho (hj ▸ hrole) hs with hs | ⟨x, hm, _⟩
      · rw [isPending_of_outcome? hs] at hp
        cases hp
      · exact absurd hm (h.undelivered hk x)
  rcases hst.idles ho with ⟨i, t, hi, rfl⟩ | hi | ⟨w, m, turn, ht, rfl, rfl⟩
  · exact h.workedOff hi
  · exact h.next (hi.queue ▸ List.Sublist.refl _) (fun k _ x hm => hi.delivered hm)
      fun k hk _ _ hj => hopen (hi.queue ▸ hk) hj
  · have hq : Queued w.before := by
      obtain ⟨i, hb⟩ := ht.before
      rw [hb]
      exact h.next (List.Sublist.refl _) (fun _ _ _ hm => mem_agenda_of_mem_pick hm) fun _ _ _ _ _ => id
    have hm := strides (m := ⟨w.before, roles, w.stage.grip⟩) hq ht.started ht.strides
    refine hm.next (List.Sublist.refl _) (fun _ _ _ => delivered_conclude) fun k hk _ _ hj hp => ?_
    have hrole := ht.inTurn.ordered.queued hk
    rw [isPending_iff_outcome?] at hp ⊢
    refine ⟨Nat.lt_of_lt_of_le hp.1 (Later.conclude w.task turn).size_le, ?_⟩
    exact (ht.inTurn.outcome?_conclude (by rw [hrole]; rfl) turn).trans hp.2

end Queued

end SourceTrees.Service
