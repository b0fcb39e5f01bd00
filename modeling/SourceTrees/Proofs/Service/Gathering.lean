import SourceTrees.Proofs.Loop.Groups
import SourceTrees.Proofs.Service.Transparent

/-!
# Waiting for several calls

Who has started several calls and waits for them all goes on when they all have ended.  As long as nobody is
cancelled, all that a service does keeps the count of a group.

## Results

* `Service.Step.gathers` — every quiet step keeps a group that is waited for.
* `Service.HasTurn.all_ended` — who goes on that has waited for a group finds all of it ended.
-/

set_option autoImplicit false

namespace SourceTrees.Service

open Loop

variable {s s' : Service} {roles roles' : Roles Hook Job} {w : Woken} {m m' : Midst} {mv : Service.Move}
  {g p t : PromiseId} {turn : Turn Stage Reply} {members : List PromiseId} {left : Nat}

/-! ## Turns -/

theorem counts_handedIn (h : s.loop.Counts g members left) (crew : Crew) (job : Job) :
    (Work.handedIn s crew job).loop.Counts g members left := by
  unfold Work.handedIn
  split
  · exact h.promise.enqueue rfl
  · exact h.promise

theorem counts_dismiss (h : s.loop.Counts g members left) :
    (Work.dismiss s).2.loop.Counts g members left := by
  rw [Work.dismiss_eq]
  split
  · exact h
  · refine h.enqueueAll _ rfl rfl fun e he => ?_
    obtain ⟨t, -, w', rfl, -⟩ := Ticket.mem_runAll he
    rfl

theorem Stride.counts (hst : Stride w m m') (h : m.service.loop.Counts g members left) :
    m'.service.loop.Counts g members left := by
  cases hst with
  | bootJoined hp hr => exact h.shield _
  | bootLaunched hp hn => exact ((h.spawn (.boot .start)).subscribe _ rfl).shield _
  | loadJoined language hp hr => exact h.shield _
  | loadLaunched language hp hn =>
    exact ((h.spawn (.fetch (.start language))).subscribe _ rfl).shield _
  | submitted crew hc hg => exact counts_handedIn h crew _
  | guarded hg => exact h.shield _
  | waited hg => exact h.waiter _
  | unsubscribed hs => exact h.unsubscribe _ _
  | bootTimed seconds hg => exact h.timer seconds
  | timerDropped p hs => exact h.congr rfl rfl
  | drawn hg hp => exact h.promise
  | calledNext hg hp hheld hk => exact h.settle _ _
  | gateMade => exact h.promise
  | spawned call hc => exact h.spawn _
  | grouped hm => exact h.otherGroup _
  | dismissed => exact counts_dismiss h
  | _ => exact h

/-- A turn forms new groups only. -/
theorem Stride.groups_eq (hst : Stride w m m') (hlt : g < m.service.loop.promises.size) :
    m'.service.loop.groups.get? g = m.service.loop.groups.get? g := by
  have hsame : ∀ {l : Loop Reply Stage Hook}, l.groups = m.service.loop.groups →
      l.groups.get? g = m.service.loop.groups.get? g := fun h => congrArg (·.get? g) h
  cases hst with
  | bootJoined hp hr => exact hsame groups_subscribe
  | bootLaunched hp hn => exact hsame (groups_subscribe.trans groups_subscribe)
  | loadJoined language hp hr => exact hsame groups_subscribe
  | loadLaunched language hp hn => exact hsame (groups_subscribe.trans groups_subscribe)
  | submitted crew hc hg => exact hsame Work.groups_handedIn
  | guarded hg => exact hsame groups_subscribe
  | waited hg => exact hsame groups_subscribe
  | unsubscribed hs => exact hsame groups_unsubscribe
  | calledNext hg hp hheld hk => exact hsame groups_settle
  | @grouped members hm =>
    rw [show (m.service.loop.group members).2.groups = _ from groups_tallyAll members]
    show (m.service.loop.groups.put m.service.loop.promises.size _).get? g = _
    rw [Keyed.get?_put, if_neg (Nat.ne_of_lt hlt)]
  | dismissed => exact hsame Work.groups_dismiss
  | _ => rfl

theorem Stride.gathers (ht : InTurn w m) (hst : Stride w m m') (hr : m.roles g = .group)
    (h : m.service.loop.Gathers g members) : m'.service.loop.Gathers g members :=
  h.mono hst.later (hst.groups_eq (ht.ordered.sound.assigned.lt_size (by simp [hr])))
    (hst.outcome?_eq ht (by simp [hr])) hst.counts

theorem Strides.gathers (ht : InTurn w m) (hst : Strides w m m') (hr : m.roles g = .group)
    (h : m.service.loop.Gathers g members) : m'.service.loop.Gathers g members := by
  induction hst with
  | refl => exact h
  | tail hst hstep ih =>
    exact hstep.gathers (ht.strides hst) ((Strides.extends ht hst).eq hr (by simp)) ih

/-! ## Steps -/

/-- The end of a turn settles no group. -/
theorem HasTurn.gathers (ht : HasTurn s roles w m turn) (hr : m.roles g = .group)
    (h : m.service.loop.Gathers g members) : (m.after w.task turn).loop.Gathers g members := by
  refine h.conclude ?_ turn
  rintro rfl
  obtain ⟨task, given, hget, -⟩ := ht.inTurn.woken
  have htask := ht.inTurn.ordered.sound.isTask hget
  rw [hr] at htask
  cases htask

/-- Every quiet step keeps a group that is waited for. -/
theorem Step.gathers (ho : AtRest s roles) (hst : Step s roles mv s' roles') (hmv : mv.isQuiet = true)
    (hr : roles g = .group) (h : s.loop.Gathers g members) : s'.loop.Gathers g members := by
  cases hst with
  | idle => exact h
  | carried hi hw hk => exact h.effect ho.sound hr hi
  | @forgotten i hook op hi => cases hook <;> exact h.pick i
  | expired => exact h.mono .expireDue rfl (Still.expireDue.outcome g) fun hc => hc.expireDue
  | clocked time => exact h.mono (.congr rfl rfl) rfl rfl fun hc => hc.congr rfl rfl
  | spawned call => cases hmv
  | workedOff hi =>
    rw [Work.workOff_eq hi]
    exact h.mono (.enqueueAll _) rfl rfl fun hc => hc.enqueue rfl
  | cancelled t ha => rcases ha with rfl | ⟨rfl, -⟩ | ⟨language, rfl, -⟩ <;> cases hmv
  | leaseEnded hg fault => cases hmv
  | turn hwakes hsts hres hend =>
    have ht := HasTurn.of_wakes ho hwakes hsts hres hend
    exact ht.gathers (ht.extends.eq hr (by simp)) (Strides.gathers ht.started ht.strides hr (h.pick _))

/-- **Who has waited for a group finds all of it ended.** -/
theorem HasTurn.all_ended (ht : HasTurn s roles w m turn) (hu : Undisturbed s roles w.task)
    (hp : s.loop.place? w.task = some (w.stage, some g)) (h : s.loop.Gathers g members) :
    ∀ t ∈ members, ∃ o, s.loop.outcome? t = some o := by
  obtain ⟨o, hout, -, -⟩ := ht.given_undisturbed hu hp
  exact h.finished hout

end SourceTrees.Service
