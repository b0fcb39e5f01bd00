import SourceTrees.Proofs.Loop.Timers
import SourceTrees.Proofs.Service.ParserJobs

/-!
# What is waited for is on its way

A job whose promise is open waits in the queue of the workers, or its outcome is on the agenda.  A timer
whose promise is open is still to come, or its end is on the agenda.

## Results

* `Service.Underway` — both, kept by every stride and every step.
-/

set_option autoImplicit false

namespace SourceTrees.Service

open Loop

variable {s s' : Service} {roles roles' : Roles Hook Job} {w : Woken} {m m' : Midst} {mv : Service.Move}
  {p : PromiseId} {turn : Turn Stage Reply}

/-- A job waits for a worker, or its outcome is on the agenda. -/
def JobOnWay (s : Service) (p : PromiseId) : Prop :=
  (∃ k ∈ s.workers.queue, k.promise = p) ∨ ∃ x, .deliver p x ∈ s.loop.agenda

/-- A timer is still to come, or its end is on the agenda. -/
def TimerOnWay (s : Service) (p : PromiseId) : Prop :=
  (∃ x ∈ s.loop.timers, x.promise = p) ∨ .expire p ∈ s.loop.agenda

/-- What is open and waited for is on its way. -/
structure Underway (s : Service) (roles : Roles Hook Job) : Prop where
  job : ∀ {p j}, roles p = .job j → s.loop.isPending p = true → s.JobOnWay p
  timer : ∀ {p}, roles p = .timer → s.loop.isPending p = true → s.TimerOnWay p

namespace Underway

theorem opened (config : Config) (world : World) (eager : Bool) (stuck : Option Fault)
    (log : List LogLine) :
    Underway (Service.opened config world eager stuck log) fun _ => .unused :=
  ⟨nofun, nofun⟩

/-- What is open and new is on its way, and what was on its way is so still or is settled. -/
theorem next (h : Underway s roles)
    (hj : ∀ {p j}, roles' p = .job j → s'.loop.isPending p = true →
      roles p = .job j ∧ s.loop.isPending p = true ∨ s'.JobOnWay p)
    (ht : ∀ {p}, roles' p = .timer → s'.loop.isPending p = true →
      roles p = .timer ∧ s.loop.isPending p = true ∨ s'.TimerOnWay p)
    (hkj : ∀ {p}, s.JobOnWay p → s'.JobOnWay p ∨ s'.loop.isPending p = false)
    (hkt : ∀ {p}, s.TimerOnWay p → s'.TimerOnWay p ∨ s'.loop.isPending p = false) :
    Underway s' roles' where
  job hr hp := by
    rcases hj hr hp with ⟨hr', hp'⟩ | hw
    · rcases hkj (h.job hr' hp') with hw | hn
      · exact hw
      · exact absurd (hp.symm.trans hn) (by decide)
    · exact hw
  timer hr hp := by
    rcases ht hr hp with ⟨hr', hp'⟩ | hw
    · rcases hkt (h.timer hr' hp') with hw | hn
      · exact hw
      · exact absurd (hp.symm.trans hn) (by decide)
    · exact hw

end Underway

/-- What is on its way stays so if the queue and the timers stay and the agenda grows. -/
theorem JobOnWay.mono (h : s.JobOnWay p) (hq : ∀ k ∈ s.workers.queue, k ∈ s'.workers.queue)
    (ha : s.loop.Grows s'.loop) : s'.JobOnWay p := by
  rcases h with ⟨k, hk, hp⟩ | ⟨x, hx⟩
  · exact .inl ⟨k, hq k hk, hp⟩
  · exact .inr ⟨x, ha.mem hx⟩

theorem TimerOnWay.mono (h : s.TimerOnWay p) (ht : ∀ x ∈ s.loop.timers, x ∈ s'.loop.timers)
    (ha : s.loop.Grows s'.loop) : s'.TimerOnWay p := by
  rcases h with ⟨x, hx, hp⟩ | hx
  · exact .inl ⟨x, ht x hx, hp⟩
  · exact .inr (ha.mem hx)

theorem Ticket.deliver_mem_runAll {k : Ticket} : ∀ {ts : List Ticket} {w : World}, k ∈ ts →
    ∃ x, .deliver k.promise x ∈ (Ticket.runAll ts w).1
  | t :: ts, w, hk => by
    rcases List.mem_cons.1 hk with rfl | hk
    · exact ⟨_, List.mem_cons_self⟩
    · obtain ⟨x, hx⟩ := deliver_mem_runAll (w := (t.job.run w).2) hk
      exact ⟨x, List.mem_cons_of_mem _ hx⟩

/-- The own workers do their queued jobs as they are dismissed. -/
theorem JobOnWay.dismiss (h : s.JobOnWay p) : (Work.dismiss s).2.JobOnWay p := by
  rw [Work.dismiss_eq]
  cases s.workers.stuck with
  | some f => exact h
  | none =>
    rcases h with ⟨k, hk, rfl⟩ | ⟨x, hx⟩
    · by_cases hown : k.crew = .own
      · have hk' : k ∈ s.workers.queue.filter fun t => t.crew = .own :=
          List.mem_filter.2 ⟨hk, by simpa using hown⟩
        obtain ⟨x, hx⟩ := Ticket.deliver_mem_runAll (w := s.world) hk'
        exact .inr ⟨x, List.mem_append_right _ hx⟩
      · exact .inl ⟨k, List.mem_filter.2 ⟨hk, by simpa using hown⟩, rfl⟩
    · exact .inr ⟨x, List.mem_append_left _ hx⟩

theorem timers_dismiss : (Work.dismiss s).2.loop.timers = s.loop.timers := by
  rw [Work.dismiss_eq]
  split <;> rfl

theorem timers_handedIn {crew : Crew} {job : Job} :
    (Work.handedIn s crew job).loop.timers = s.loop.timers := by
  unfold Work.handedIn
  split <;> rfl

theorem mem_queue_handedIn {crew : Crew} {job : Job} {k : Ticket} (hk : k ∈ s.workers.queue) :
    k ∈ (Work.handedIn s crew job).workers.queue := by
  unfold Work.handedIn
  split
  · exact hk
  · exact List.mem_append_left _ hk

/-- A boot that is woken from its pause finds the promise of the timer settled. -/
theorem InTurn.timed (ht : InTurn w m) {attempt : Nat} {p : PromiseId}
    (hs : w.stage = .boot (.pausing attempt (some p))) : m.service.loop.isPending p = false := by
  obtain ⟨task, given, hplaced, hgives, _⟩ := ht.placed
  have hrest := hplaced.rest
  rw [hs] at hrest
  obtain ⟨hon, _⟩ := hrest
  unfold Loop.Gives at hgives
  rw [hon] at hgives
  obtain ⟨o, ho, _⟩ := hgives
  exact isPending_of_outcome? ho

namespace Underway

theorem stride (h : Underway m.service m.roles) (ht : InTurn w m) (hst : Stride w m m') :
    Underway m'.service m'.roles := by
  have hlater := hst.later
  have hgrows := hst.grows
  have hass := ht.ordered.sound.assigned
  -- A promise that has had its role before was open before.
  have hold : ∀ {p : PromiseId} {role : Role Hook Job}, m.roles p = role → role ≠ .unused →
      m'.service.loop.isPending p = true → m.roles p = role ∧ m.service.loop.isPending p = true :=
    fun hr hne hp => ⟨hr, hlater.isPending (hass.lt_size (hr ▸ hne)) hp⟩
  -- Nothing is on its way that was not before.
  have hkeep : (∀ p, (∀ j, m'.roles p = .job j → m.roles p = .job j) ∧
        (m'.roles p = .timer → m.roles p = .timer)) →
      m'.service.workers.queue = m.service.workers.queue →
      m'.service.loop.timers = m.service.loop.timers → Underway m'.service m'.roles :=
    fun hr hq htm => h.next (fun hj hp => .inl (hold ((hr _).1 _ hj) (by simp) hp))
      (fun hj hp => .inl (hold ((hr _).2 hj) (by simp) hp))
      (fun hw => .inl (hw.mono (fun k hk => hq ▸ hk) hgrows))
      fun hw => .inl (hw.mono (fun x hx => htm ▸ hx) hgrows)
  have hsame : m'.roles = m.roles → ∀ p, (∀ j, m'.roles p = .job j → m.roles p = .job j) ∧
      (m'.roles p = .timer → m.roles p = .timer) := fun he p => by rw [he]; exact ⟨fun _ => id, id⟩
  -- The new promises are neither of a job nor of a timer.
  have hnewer : ∀ {role role' : Role Hook Job}, (∀ j, role ≠ .job j ∧ role' ≠ .job j) →
      role ≠ .timer ∧ role' ≠ .timer →
      m'.roles = Function.update (Function.update m.roles m.service.loop.promises.size role)
        (m.service.loop.promises.size + 1) role' →
      ∀ p, (∀ j, m'.roles p = .job j → m.roles p = .job j) ∧
        (m'.roles p = .timer → m.roles p = .timer) := by
    intro role role' hj ht he p
    rw [he, Function.update_apply, Function.update_apply]
    split
    · exact ⟨fun j hr => absurd hr (hj j).2, fun hr => absurd hr ht.2⟩
    · split
      · exact ⟨fun j hr => absurd hr (hj j).1, fun hr => absurd hr ht.1⟩
      · exact ⟨fun _ => id, id⟩
  have hnew : ∀ {role : Role Hook Job}, (∀ j, role ≠ .job j) → role ≠ .timer →
      m'.roles = Function.update m.roles m.service.loop.promises.size role →
      ∀ p, (∀ j, m'.roles p = .job j → m.roles p = .job j) ∧
        (m'.roles p = .timer → m.roles p = .timer) := by
    intro role hj ht he p
    rw [he, Function.update_apply]
    split
    · exact ⟨fun j hr => absurd hr (hj j), fun hr => absurd hr ht⟩
    · exact ⟨fun _ => id, id⟩
  cases hst with
  | @submitted crew job grip hc hg =>
    refine h.next (fun {p j} hj hp => ?_) (fun {p} hj hp => ?_)
      (fun hw => .inl (hw.mono (fun _ => mem_queue_handedIn) hgrows))
      fun hw => .inl (hw.mono (fun x hx => by rwa [timers_handedIn]) hgrows)
    · replace hj : Function.update m.roles m.service.loop.promises.size (.job job) p = .job j := hj
      by_cases he : p = m.service.loop.promises.size
      · subst he
        rcases inQueue_handedIn m.service crew job with ⟨k, hk, hkp, _⟩ | ⟨_, hx⟩
        · exact .inr (.inl ⟨k, hk, hkp⟩)
        · exact .inr (.inr ⟨_, hx⟩)
      · rw [Function.update_of_ne he] at hj
        exact .inl (hold hj (by simp) hp)
    · replace hj : Function.update m.roles m.service.loop.promises.size (.job job) p = .timer := hj
      rw [Function.update_apply] at hj
      split at hj
      · cases hj
      · exact .inl (hold hj (by simp) hp)
  | dismissed =>
    refine h.next (fun hj hp => .inl (hold hj (by simp) hp)) (fun hj hp => .inl (hold hj (by simp) hp))
      (fun hw => .inl hw.dismiss) fun hw => .inl (hw.mono (fun x hx => by rwa [timers_dismiss]) hgrows)
  | bootTimed seconds hg =>
    refine h.next (fun {p j} hj hp => ?_) (fun {p} hj hp => ?_)
      (fun hw => .inl (hw.mono (fun _ => id) hgrows))
      fun hw => .inl (hw.mono (fun x hx => List.mem_append_left _ hx) hgrows)
    · replace hj : Function.update m.roles m.service.loop.promises.size .timer p = .job j := hj
      rw [Function.update_apply] at hj
      split at hj
      · cases hj
      · exact .inl (hold hj (by simp) hp)
    · replace hj : Function.update m.roles m.service.loop.promises.size .timer p = .timer := hj
      by_cases he : p = m.service.loop.promises.size
      · exact .inr (.inl ⟨_, List.mem_append_right _ (List.mem_singleton_self _), he.symm⟩)
      · rw [Function.update_of_ne he] at hj
        exact .inl (hold hj (by simp) hp)
  | timerDropped q hs =>
    refine h.next (fun hj hp => .inl (hold hj (by simp) hp)) (fun hj hp => .inl (hold hj (by simp) hp))
      (fun hw => .inl (hw.mono (fun _ => id) hgrows)) fun {p} hw => ?_
    by_cases he : p = q
    · -- The boot has been woken, so the promise that it rested on is settled.
      subst he
      exact .inr (ht.timed hs)
    · rcases hw with ⟨x, hx, hxp⟩ | hx
      · exact .inl (.inl ⟨x, List.mem_filter.2 ⟨hx, by simpa [hxp] using he⟩, hxp⟩)
      · exact .inl (.inr hx)
  | bootLaunched hp hn => exact hkeep (hnewer (by simp) (by simp) rfl) rfl (by simp [Flight.launch])
  | loadLaunched language hp hn => exact hkeep (hnewer (by simp) (by simp) rfl) rfl (by simp [Flight.launch])
  | bootJoined hp hr => exact hkeep (hnew (by simp) (by simp) rfl) rfl timers_shield
  | loadJoined language hp hr => exact hkeep (hnew (by simp) (by simp) rfl) rfl timers_shield
  | guarded hg => exact hkeep (hnew (by simp) (by simp) rfl) rfl timers_shield
  | waited hg => exact hkeep (hnew (by simp) (by simp) rfl) rfl timers_waiter
  | unsubscribed hs => exact hkeep (hsame rfl) rfl (by simp)
  | drawn hg hp => exact hkeep (hnew (by simp) (by simp) rfl) rfl rfl
  | calledNext hg hp hheld hk => exact hkeep (hsame rfl) rfl timers_settle
  | gateMade => exact hkeep (hnew (by simp) (by simp) rfl) rfl rfl
  | spawned call => exact hkeep (hnew (by simp) (by simp) rfl) rfl rfl
  | grouped hm => exact hkeep (hnew (by simp) (by simp) rfl) rfl (timers_group _)
  | _ => exact hkeep (hsame rfl) rfl rfl

theorem strides (h : Underway m.service m.roles) (ht : InTurn w m) (hst : Strides w m m') :
    Underway m'.service m'.roles := by
  induction hst with
  | refl => exact h
  | tail hst hstep ih => exact ih.stride (ht.strides hst) hstep

/-- What is on its way stays so while an errand leaves the agenda that brings neither an outcome nor the
    end of a timer. -/
theorem pick (h : Underway s roles) {i : Nat} {e : Errand Reply Hook} (hi : s.loop.agenda[i]? = some e)
    (hd : ∀ p x, e ≠ .deliver p x) (he : ∀ p, e ≠ .expire p) :
    Underway { s with loop := s.loop.pick i } roles := by
  have hmem : ∀ {e'}, e' ∈ s.loop.agenda → e' ≠ e → e' ∈ (s.loop.pick i).agenda := fun hm hne =>
    (mem_agenda_pick hi hm).resolve_left hne
  refine h.next (fun hj hp => .inl ⟨hj, hp⟩) (fun hj hp => .inl ⟨hj, hp⟩) (fun hw => .inl ?_)
    fun hw => .inl ?_
  · rcases hw with hk | ⟨x, hx⟩
    · exact .inl hk
    · exact .inr ⟨x, hmem hx (hd _ x).symm⟩
  · rcases hw with ht | hx
    · exact .inl ht
    · exact .inr (hmem hx (he _).symm)

/-- The end of a turn settles the task only. -/
theorem conclude (h : Underway m.service m.roles) (ht : InTurn w m) (turn : Turn Stage Reply) :
    Underway (m.after w.task turn) m.roles := by
  have hold : ∀ {p : PromiseId} {role : Role Hook Job}, m.roles p = role → role ≠ .unused →
      (m.after w.task turn).loop.isPending p = true → m.service.loop.isPending p = true :=
    fun hr hne hp => (Later.conclude w.task turn).isPending
      (ht.ordered.sound.assigned.lt_size (hr ▸ hne)) hp
  exact h.next (fun hj hp => .inl ⟨hj, hold hj (by simp) hp⟩)
    (fun hj hp => .inl ⟨hj, hold hj (by simp) hp⟩)
    (fun hw => .inl (hw.mono (fun _ => id) (.conclude _ _)))
    fun hw => .inl (hw.mono (fun x hx => by simpa using hx) (.conclude _ _))

/-- **Every step keeps what is waited for on its way.** -/
theorem step (h : Underway s roles) (ho : AtRest s roles) (hst : Step s roles mv s' roles') :
    Underway s' roles' := by
  have hold : ∀ {p : PromiseId} {role : Role Hook Job}, roles p = role → role ≠ .unused →
      s'.loop.isPending p = true → roles p = role ∧ s.loop.isPending p = true := by
    intro p role hr hne hp
    refine ⟨hr, ?_⟩
    rcases isPending_or_settled (ho.sound.assigned.lt_size (hr ▸ hne)) with hp' | ⟨o, hout⟩
    · exact hp'
    · exact absurd ((isPending_of_outcome? (hst.outcome?_of_some hout)).symm.trans hp) (by decide)
  have hdeliver : ∀ {p x}, .deliver p x ∈ s.loop.agenda →
      .deliver p x ∈ s'.loop.agenda ∨ s'.loop.isPending p = false := fun hm =>
    (hst.delivered_cases ho hm).imp_right fun ⟨_, hout⟩ => isPending_of_outcome? hout
  have hnext : (∀ p, (∀ j, roles' p = .job j → roles p = .job j) ∧ (roles' p = .timer → roles p = .timer)) →
      (∀ k ∈ s.workers.queue, k ∈ s'.workers.queue ∨ ∃ x, .deliver k.promise x ∈ s'.loop.agenda) →
      (∀ {p}, s.TimerOnWay p → s'.TimerOnWay p ∨ s'.loop.isPending p = false) →
      Underway s' roles' := by
    refine fun hr hq ht => h.next (fun hj hp => .inl (hold ((hr _).1 _ hj) (by simp) hp))
      (fun hj hp => .inl (hold ((hr _).2 hj) (by simp) hp)) (fun hw => ?_) ht
    rcases hw with ⟨k, hk, rfl⟩ | ⟨x, hx⟩
    · exact .inl ((hq k hk).imp (fun hk => ⟨k, hk, rfl⟩) id)
    · exact (hdeliver hx).imp_left fun hx => .inr ⟨x, hx⟩
  have hsame : ∀ p, (∀ j, roles p = .job j → roles p = .job j) ∧ (roles p = .timer → roles p = .timer) :=
    fun _ => ⟨fun _ => id, id⟩
  cases hst with
  | idle => exact h
  | carried hi hw hk =>
    refine hnext hsame (fun k hk => .inl hk) fun hw => ?_
    rcases hw with ⟨x, hx, hxp⟩ | hx
    · exact .inl (.inl ⟨x, by simpa using hx, hxp⟩)
    · rcases mem_agenda_pick hi hx with rfl | hx
      · exact .inr isPending_expire
      · exact .inl (.inr ((Grows.effect _).mem hx))
  | @forgotten i hook op hi =>
    have hp := h.pick hi (by simp) (by simp)
    cases hook <;> exact ⟨hp.job, hp.timer⟩
  | expired =>
    refine hnext hsame (fun k hk => .inl hk) fun hw => .inl ?_
    rcases hw with ⟨x, hx, rfl⟩ | hx
    · exact (mem_expireDue hx).imp (fun hx => ⟨x, hx, rfl⟩) id
    · exact .inr (Grows.expireDue.mem hx)
  | clocked time => exact hnext hsame (fun k hk => .inl hk) .inl
  | spawned call =>
    refine hnext (fun p => ?_) (fun k hk => .inl hk) fun hw => .inl (hw.mono (fun _ => id) (.spawn _))
    rw [Function.update_apply]
    split
    · exact ⟨nofun, nofun⟩
    · exact ⟨fun _ => id, id⟩
  | @workedOff position i t hi =>
    rw [Work.workOff_eq hi] at hnext ⊢
    refine hnext hsame (fun k hk => ?_) fun hw => .inl (hw.mono (fun _ => id) (.enqueueAll _))
    obtain ⟨n, hn⟩ := List.getElem?_of_mem hk
    by_cases he : n = i
    · rw [he, hi] at hn
      cases hn
      exact .inr ⟨_, List.mem_append_right _ (List.mem_singleton_self _)⟩
    · exact .inl (List.mem_eraseIdx_iff_getElem?.2 ⟨n, he, hn⟩)
  | cancelled t ha =>
    exact hnext hsame (fun k hk => .inl hk) fun hw =>
      .inl (hw.mono (fun x hx => by simpa using hx) (.cancelTask t))
  | leaseEnded hg fault =>
    exact hnext hsame (fun k hk => .inl hk) fun hw =>
      .inl (hw.mono (fun x hx => by simpa using hx) (.settle _ _))
  | @turn i t task given turn m hwakes hsts hres hend =>
    have ht := HasTurn.of_wakes ho hwakes hsts hres hend
    obtain ⟨e, hi, hwoken⟩ := hwakes.errand
    have hbefore := h.pick hi (fun _ _ he => by simp [he, Errand.woken?] at hwoken)
      fun _ he => by simp [he, Errand.woken?] at hwoken
    exact (hbefore.strides ht.started hsts).conclude ht.inTurn turn

end Underway

end SourceTrees.Service
