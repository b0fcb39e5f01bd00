import SourceTrees.Proofs.Loop.Agenda
import SourceTrees.Proofs.Service.Course
import SourceTrees.Proofs.Service.Lending
import SourceTrees.Proofs.Service.Requests

/-!
# What jobs come to

A job that has been handed in comes to one outcome.  The outcome is put on the agenda, once, by the move
that does the job, and settles the job's promise when the agenda comes to it.

## Protocol

* An outcome **has come** if it is on the agenda, or was at some time of the run.
* A move **parses** if it has a parser run over a source as the work of a job: the outcome comes of the
  world as it was, but for a parser that the same move may have made before.

## Results

* `Service.Worked` — a job comes to one outcome at most, and its promise to no other.
* `Service.Parsed` — some move of a run has done a job; `Service.Awaited.step` — a parser's job waits for
  a worker until a move does it.
-/

set_option autoImplicit false

namespace SourceTrees.Service

open Loop

variable {s s' : Service} {roles roles' : Roles Hook Job} {w : Woken} {m m' : Midst} {mv : Service.Move}
  {ms : List Service.Move} {p job : PromiseId} {x y : Except Fault Reply} {P : Service → Prop}

/-- Something was so at some time of a run. -/
def Sometime (P : Service → Prop) (s : Service) (ms : List Service.Move) : Prop :=
  ∃ before after, ms = before ++ after ∧ P (s.moves before)

namespace Sometime

theorem now (h : P (s.moves ms)) : Sometime P s ms := ⟨ms, [], (List.append_nil ms).symm, h⟩

theorem append (h : Sometime P s ms) (after : List Service.Move) : Sometime P s (ms ++ after) := by
  obtain ⟨before, rest, rfl, h⟩ := h
  exact ⟨before, rest ++ after, List.append_assoc .., h⟩

/-- Whatever was so before or after the last move. -/
theorem of_snoc (h : Sometime P s (ms ++ [mv])) : Sometime P s ms ∨ P (s.moves (ms ++ [mv])) := by
  obtain ⟨before, after, he, h⟩ := h
  rcases List.eq_nil_or_concat after with rfl | ⟨rest, mv', rfl⟩
  · rw [List.append_nil] at he
    exact .inr (he ▸ h)
  · rw [List.concat_eq_append, ← List.append_assoc] at he
    obtain ⟨he, _⟩ := List.append_inj' he rfl
    exact .inl ⟨before, rest, he, h⟩

end Sometime

/-! ## The agenda within a move -/

/-- Nothing leaves the agenda in a turn. -/
theorem Stride.grows (hst : Stride w m m') : m.service.loop.Grows m'.service.loop := by
  have hlaunch : ∀ {κ : Type} [DecidableEq κ] (f : Flight κ) (key : κ) (point : Stage) (hook : Hook),
      m.service.loop.Grows ((f.launch m.service.loop key point hook).2.2.shield
        m.service.loop.promises.size).2 := fun f key point hook =>
    ((Grows.spawn point).trans (.subscribe _ _)).trans (.shield _)
  cases hst with
  | bootJoined hb hr => exact .shield _
  | bootLaunched hb hn => exact hlaunch ..
  | loadJoined language hb hr => exact .shield _
  | loadLaunched language hb hn => exact hlaunch ..
  | submitted crew hc hg =>
    show m.service.loop.Grows (Work.handedIn m.service crew _).loop
    unfold Work.handedIn
    split
    · exact Grows.promise.trans (.enqueueAll _)
    · exact .promise
  | guarded hg => exact .shield _
  | waited hg => exact .waiter _
  | unsubscribed hs => exact .congr agenda_unsubscribe
  | bootTimed seconds hg => exact .congr rfl
  | timerDropped q => exact .congr rfl
  | drawn hg hp => exact .promise
  | calledNext hg hp hheld hk => exact .settle _ _
  | gateMade => exact .promise
  | spawned call => exact .spawn _
  | grouped hm => exact .group _
  | dismissed =>
    show m.service.loop.Grows (Work.dismiss m.service).2.loop
    rw [Work.dismiss_eq]
    split
    · exact .refl _
    · exact .enqueueAll _
  | _ => exact .refl _

theorem Strides.grows (hst : Strides w m m') : m.service.loop.Grows m'.service.loop := by
  induction hst with
  | refl => exact .refl _
  | tail _ hstep ih => exact ih.trans hstep.grows

/-- An outcome stays on the agenda until it settles the job's promise. -/
theorem Step.delivered_cases (ho : AtRest s roles) (hst : Step s roles mv s' roles')
    (hm : .deliver p x ∈ s.loop.agenda) :
    .deliver p x ∈ s'.loop.agenda ∨ ∃ o, s'.loop.outcome? p = some o := by
  obtain ⟨j, hj⟩ := ho.sound.assigned.delivered hm
  have hlt : p < s.loop.promises.size := ho.sound.assigned.lt_size (by simp [hj])
  cases hst with
  | idle => exact .inl hm
  | @carried i e hi hw hk =>
    rcases mem_agenda_pick hi hm with rfl | hm
    · exact .inr (outcome?_deliver hlt)
    · exact .inl ((Grows.effect e).mem hm)
  | @forgotten i hook op hi =>
    rcases mem_agenda_pick hi hm with he | hm
    · cases he
    · cases hook <;> exact .inl hm
  | expired => exact .inl (Grows.expireDue.mem hm)
  | clocked time => exact .inl hm
  | spawned call => exact .inl ((Grows.spawn _).mem hm)
  | workedOff hi =>
    rw [Work.workOff_eq hi]
    exact .inl ((Grows.enqueueAll _).mem hm)
  | cancelled t ha => exact .inl ((Grows.cancelTask t).mem hm)
  | leaseEnded hg fault => exact .inl ((Grows.settle _ _).mem hm)
  | @turn i t task given turn m hwakes hsts hres hend =>
    obtain ⟨e, hi, hwoken⟩ := hwakes.errand
    rcases mem_agenda_pick hi hm with rfl | hm
    · cases hwoken
    · exact .inl ((Grows.conclude t turn).mem ((Strides.grows hsts).mem hm))

/-- No promise is lost. -/
theorem Step.size_le (ho : AtRest s roles) (hst : Step s roles mv s' roles') :
    s.loop.promises.size ≤ s'.loop.promises.size := by
  obtain ⟨ho', hext⟩ := ho.step hst
  refine Nat.le_of_not_lt fun hlt => ?_
  have hrole := ho.sound.assigned.role_ne_unused hlt
  exact Nat.lt_irrefl _ (ho'.sound.assigned.lt_size (hext.eq rfl hrole ▸ hrole))

/-! ## Outcomes that have come -/

/-- The outcome of a job has come. -/
abbrev HasCome (s : Service) (ms : List Service.Move) (job : PromiseId) (y : Except Fault Reply) : Prop :=
  Sometime (fun s => .deliver job y ∈ s.loop.agenda) s ms

theorem Ticket.eq_of_mem_runAll {ts : List Ticket} (hn : (ts.map (·.promise)).Nodup) : ∀ {w : World},
    .deliver p x ∈ (Ticket.runAll ts w).1 → .deliver p y ∈ (Ticket.runAll ts w).1 → x = y := by
  induction ts with
  | nil =>
    intro w hx
    cases hx
  | cons t ts ih =>
    intro w hx hy
    rw [List.map_cons, List.nodup_cons] at hn
    have hrest : ∀ {z}, (.deliver t.promise z : Errand Reply Hook) ∉
        (Ticket.runAll ts (t.job.run w).2).1 := fun hz => by
      obtain ⟨t', ht', w', he, _⟩ := Ticket.mem_runAll hz
      injection he with he _
      exact hn.1 (List.mem_map.2 ⟨t', ht', he.symm⟩)
    rcases List.mem_cons.1 hx with hx | hx
    · injection hx with hp hx
      rcases List.mem_cons.1 hy with hy | hy
      · injection hy with _ hy
        rw [hx, hy]
      · exact absurd (hp ▸ hy) hrest
    · rcases List.mem_cons.1 hy with hy | hy
      · injection hy with hp hy
        exact absurd (hp ▸ hx) hrest
      · exact ih hn.2 hx hy

/-- A job whose outcome has come is not in the queue any more, and no other outcome has come of it.  The
    predicate says what has come. -/
structure Worked (C : PromiseId → Except Fault Reply → Prop) (s : Service) : Prop where
  came : ∀ {p x}, .deliver p x ∈ s.loop.agenda → C p x
  lt_size : ∀ {p x}, C p x → p < s.loop.promises.size
  left : ∀ {p x}, C p x → ∀ k ∈ s.workers.queue, k.promise ≠ p
  once : ∀ {p x y}, C p x → C p y → x = y

variable {C : PromiseId → Except Fault Reply → Prop} {busy : Option PromiseId} {base : Nat}

/-- What has come, and what comes with a further state. -/
abbrev OrComes (C : PromiseId → Except Fault Reply → Prop) (s : Service) (p : PromiseId)
    (x : Except Fault Reply) : Prop :=
  C p x ∨ .deliver p x ∈ s.loop.agenda

namespace Worked

theorem congr {C' : PromiseId → Except Fault Reply → Prop} (h : Worked C s)
    (hC : ∀ p x, C' p x ↔ C p x) : Worked C' s where
  came hm := (hC _ _).2 (h.came hm)
  lt_size hc := h.lt_size ((hC _ _).1 hc)
  left hc := h.left ((hC _ _).1 hc)
  once hc hc' := h.once ((hC _ _).1 hc) ((hC _ _).1 hc')

/-- An outcome comes of a job that has just been handed in, or whose ticket leaves the queue. -/
theorem next (h : Worked C s) (ho : Ordered busy base s' roles) (hq : Queued s')
    (hsize : s.loop.promises.size ≤ s'.loop.promises.size)
    (hnew : ∀ {p x}, .deliver p x ∈ s'.loop.agenda → .deliver p x ∈ s.loop.agenda ∨
      s.loop.promises.size ≤ p ∨ ∃ k ∈ s.workers.queue, k.promise = p)
    (hone : ∀ {p x y}, .deliver p x ∈ s'.loop.agenda → .deliver p y ∈ s'.loop.agenda → x = y)
    (hqueue : ∀ k ∈ s'.workers.queue, k ∈ s.workers.queue ∨ s.loop.promises.size ≤ k.promise) :
    Worked (OrComes C s') s' := by
  have hcame : ∀ {p x y}, C p x → .deliver p y ∈ s'.loop.agenda → C p y := fun {p x y} hc hm => by
    rcases hnew hm with hm | hge | ⟨k, hk, rfl⟩
    · exact h.came hm
    · exact absurd (h.lt_size hc) (Nat.not_lt.2 hge)
    · exact absurd rfl (h.left hc k hk)
  refine ⟨.inr, fun {p x} hc => ?_, fun {p x} hc k hk hp => ?_, fun {p x y} hc hc' => ?_⟩
  · rcases hc with hc | hm
    · exact Nat.lt_of_lt_of_le (h.lt_size hc) hsize
    · obtain ⟨j, hj⟩ := ho.sound.assigned.delivered hm
      exact ho.sound.assigned.lt_size (by simp [hj])
  · rcases hc with hc | hm
    · rcases hqueue k hk with hk' | hge
      · exact h.left hc k hk' hp
      · exact absurd (h.lt_size hc) (Nat.not_lt.2 (hp ▸ hge))
    · exact hq.undelivered hk x (hp ▸ hm)
  · rcases hc with hc | hm
    · rcases hc' with hc' | hm'
      · exact h.once hc hc'
      · exact h.once hc (hcame hc hm')
    · rcases hc' with hc' | hm'
      · exact h.once (hcame hc' hm) hc'
      · exact hone hm hm'

/-- Nothing comes where the workers have nothing new. -/
theorem idles (h : Worked C s) (hi : Idles s s')
    (hsize : s.loop.promises.size ≤ s'.loop.promises.size) : Worked C s' where
  came hm := h.came (hi.delivered hm)
  lt_size hc := Nat.lt_of_lt_of_le (h.lt_size hc) hsize
  left hc k hk := h.left hc k (hi.queue ▸ hk)
  once := h.once

theorem handedIn (h : Worked C s) (ho : Ordered busy base s roles) (hq : Queued s) (crew : Crew)
    (job : Job) : Worked (OrComes C (Work.handedIn s crew job)) (Work.handedIn s crew job) := by
  refine h.next (ho.handedIn crew job) (hq.handedIn ho crew job) (later_handedIn crew job).size_le
    ?_ ?_ ?_
  · unfold Work.handedIn
    split
    · intro p x hm
      rcases List.mem_append.1 hm with hm | hm
      · exact .inl hm
      · injection List.mem_singleton.1 hm with he _
        exact .inr (.inl (Nat.le_of_eq he.symm))
    · exact fun hm => .inl hm
  · -- There was no outcome yet of the promise that has just been made.
    have hold : ∀ {p x y}, .deliver p x ∈ s.loop.agenda → .deliver p y ∈ s.loop.agenda → x = y :=
      fun hm hm' => h.once (h.came hm) (h.came hm')
    unfold Work.handedIn
    split
    · intro p x y hm hm'
      have hfresh : ∀ {z}, .deliver s.loop.promises.size z ∉ s.loop.agenda := fun hz =>
        Nat.lt_irrefl _ (h.lt_size (h.came hz))
      rcases List.mem_append.1 hm with hm | hm
      · rcases List.mem_append.1 hm' with hm' | hm'
        · exact hold hm hm'
        · injection List.mem_singleton.1 hm' with he _
          exact absurd (he ▸ hm) hfresh
      · injection List.mem_singleton.1 hm with he hx
        rcases List.mem_append.1 hm' with hm' | hm'
        · exact absurd (he ▸ hm') hfresh
        · injection List.mem_singleton.1 hm' with _ hy
          rw [hx, hy]
    · exact fun {_ _ _} hm hm' => hold hm hm'
  · unfold Work.handedIn
    split
    · exact fun k hk => .inl hk
    · intro k hk
      rcases List.mem_append.1 hk with hk | hk
      · exact .inl hk
      · cases List.mem_singleton.1 hk
        exact .inr (Nat.le_refl _)

theorem workedOff (h : Worked C s) (ho : Ordered busy base s roles) (hq : Queued s) {i : Nat}
    {t : Ticket} (hi : s.workers.queue[i]? = some t) :
    Worked (OrComes C (Work.workOff i s).2) (Work.workOff i s).2 := by
  refine h.next (ho.workedOff hi) (hq.workedOff hi) ?_ ?_ ?_ ?_ <;> rw [Work.workOff_eq hi]
  · exact Nat.le_refl _
  · intro p x hm
    rcases List.mem_append.1 hm with hm | hm
    · exact .inl hm
    · injection List.mem_singleton.1 hm with he _
      exact .inr (.inr ⟨t, List.mem_of_getElem? hi, he.symm⟩)
  · intro p x y hm hm'
    have hfresh := hq.undelivered (List.mem_of_getElem? hi)
    rcases List.mem_append.1 hm with hm | hm
    · rcases List.mem_append.1 hm' with hm' | hm'
      · exact h.once (h.came hm) (h.came hm')
      · injection List.mem_singleton.1 hm' with he _
        exact absurd (he ▸ hm) (hfresh _)
    · injection List.mem_singleton.1 hm with he hx
      rcases List.mem_append.1 hm' with hm' | hm'
      · exact absurd (he ▸ hm') (hfresh _)
      · injection List.mem_singleton.1 hm' with _ hy
        rw [hx, hy]
  · exact fun k hk => .inl (List.mem_of_mem_eraseIdx hk)

theorem dismiss (h : Worked C s) (ho : Ordered busy base s roles) (hq : Queued s) :
    Worked (OrComes C (Work.dismiss s).2) (Work.dismiss s).2 := by
  refine h.next ho.dismiss hq.dismiss later_dismiss.size_le ?_ ?_ ?_
  · rw [Work.dismiss_eq]
    split
    · exact fun hm => .inl hm
    · intro p x hm
      rcases List.mem_append.1 hm with hm | hm
      · exact .inl hm
      · obtain ⟨t, ht, w', he, _⟩ := Ticket.mem_runAll hm
        injection he with he _
        exact .inr (.inr ⟨t, (List.mem_filter.1 ht).1, he.symm⟩)
  · have hold : ∀ {p x y}, .deliver p x ∈ s.loop.agenda → .deliver p y ∈ s.loop.agenda → x = y :=
      fun hm hm' => h.once (h.came hm) (h.came hm')
    rw [Work.dismiss_eq]
    split
    · exact fun {_ _ _} hm hm' => hold hm hm'
    · intro p x y hm hm'
      have hfresh : ∀ {ts : List Ticket} {w : World} {p x y}, ts ⊆ s.workers.queue →
          .deliver p x ∈ s.loop.agenda → .deliver p y ∉ (Ticket.runAll ts w).1 :=
        fun hsub hm hm' => by
          obtain ⟨t, ht, w', he, _⟩ := Ticket.mem_runAll hm'
          injection he with he _
          exact hq.undelivered (hsub ht) _ (he ▸ hm)
      have hsub : ∀ f, s.workers.queue.filter f ⊆ s.workers.queue := fun f => List.filter_subset_self ..
      rcases List.mem_append.1 hm with hm | hm
      · rcases List.mem_append.1 hm' with hm' | hm'
        · exact hold hm hm'
        · exact absurd hm' (hfresh (hsub _) hm)
      · rcases List.mem_append.1 hm' with hm' | hm'
        · exact absurd hm (hfresh (hsub _) hm')
        · exact Ticket.eq_of_mem_runAll (hq.once.sublist (List.filter_sublist.map _)) hm hm'
  · rw [Work.dismiss_eq]
    split
    · exact fun k hk => .inl hk
    · exact fun k hk => .inl (List.mem_filter.1 hk).1

/-- Where nothing is delivered, what comes has come. -/
theorem orComes (h : Worked C s') (hd : ∀ {p x}, .deliver p x ∈ s'.loop.agenda → C p x) :
    Worked (OrComes C s') s' :=
  h.congr fun _ _ => ⟨fun hc => hc.elim id hd, .inl⟩

theorem stride (h : Worked C m.service) (ht : InTurn w m) (hq : Queued m.service)
    (hst : Stride w m m') : Worked (OrComes C m'.service) m'.service := by
  rcases hst.delivers with ⟨crew, job, hs, _⟩ | ⟨hs, _⟩ | hi
  · rw [hs]
    exact h.handedIn ht.ordered hq crew job
  · rw [hs]
    exact h.dismiss ht.ordered hq
  · exact (h.idles hi hst.later.size_le).orComes fun hm => h.came (hi.delivered hm)

/-- What has come within a turn is on the agenda at its end. -/
theorem strides (h : Worked C m.service) (ht : InTurn w m) (hq : Queued m.service)
    (hst : Strides w m m') : Worked (OrComes C m'.service) m'.service := by
  induction hst with
  | refl => exact h.orComes h.came
  | @tail m₁ m₂ hsts hstep ih =>
    refine (ih.stride (ht.strides hsts) (hq.strides ht hsts) hstep).congr fun p x => ?_
    constructor
    · rintro (hc | hm)
      · exact .inl (.inl hc)
      · exact .inr hm
    · rintro ((hc | hm) | hm)
      · exact .inl hc
      · exact .inr (hstep.grows.mem hm)
      · exact .inr hm

/-- Every move has a job come to one outcome at most. -/
theorem step (h : Worked C s) (ho : AtRest s roles) (hq : Queued s) (hst : Step s roles mv s' roles') :
    Worked (OrComes C s') s' := by
  have hsize := hst.size_le ho
  rcases hst.idles ho with ⟨i, t, hi, rfl⟩ | hi | ⟨w, m, turn, ht, rfl, rfl⟩
  · exact h.workedOff ho hq hi
  · exact (h.idles hi hsize).orComes fun hm => h.came (hi.delivered hm)
  · obtain ⟨i, hb⟩ := ht.before
    have hbefore : Worked C w.before ∧ Queued w.before := by
      rw [hb]
      exact ⟨h.idles ⟨rfl, mem_agenda_of_mem_pick⟩ (Nat.le_refl _), hq.next (List.Sublist.refl _)
        (fun _ _ _ hm => mem_agenda_of_mem_pick hm) fun _ _ _ _ _ => id⟩
    have hm := strides (m := ⟨w.before, roles, w.stage.grip⟩) hbefore.1 ht.started hbefore.2 ht.strides
    have hend : Idles m.service (m.after w.task turn) := ⟨rfl, delivered_conclude⟩
    refine (hm.idles hend (Later.conclude w.task turn).size_le).congr fun p x => ?_
    exact ⟨fun hc => hc.imp_right fun hd => delivered_conclude hd, fun hc => hc.imp_right fun hd =>
      (Grows.conclude w.task turn).mem hd⟩

end Worked

/-- What the outcomes that have come mean for a run. -/
structure Performed (s : Service) (ms : List Service.Move) (roles : Roles Hook Job) : Prop where
  queued : Queued (s.moves ms)
  worked : Worked (HasCome s ms) (s.moves ms)
  there : ∀ {p x}, HasCome s ms p x →
    .deliver p x ∈ (s.moves ms).loop.agenda ∨ ∃ o, (s.moves ms).loop.outcome? p = some o
  settled : ∀ {p parser source o}, roles p = .job (.parse parser source) →
    (s.moves ms).loop.outcome? p = some o → ∃ x, HasCome s ms p x ∧ o = .ofResult x
  valued : ∀ {p job v}, roles p = .job job → (s.moves ms).loop.outcome? p = some (.value v) →
    HasCome s ms p (.ok v)

namespace Performed

theorem opened (config : Config) (world : World) (eager : Bool) (stuck : Option Fault)
    (log : List LogLine) :
    Performed (Service.opened config world eager stuck log) [] fun _ => .unused := by
  have hnone : ∀ {p x}, ¬ HasCome (Service.opened config world eager stuck log) [] p x := by
    rintro p x ⟨before, after, he, hm⟩
    cases (List.nil_eq_append_iff.1 he).1
    simp [moves] at hm
  refine ⟨.opened config world eager stuck log, ⟨fun hm => ?_, fun hc => (hnone hc).elim,
    fun hc => (hnone hc).elim, fun hc => (hnone hc).elim⟩, fun hc => (hnone hc).elim, fun hr => ?_, fun hr => ?_⟩
  · simp [moves] at hm
  · cases hr
  · cases hr

theorem step (h : Performed s ms roles) (ho : AtRest (s.moves ms) roles)
    (hst : Step (s.moves ms) roles mv (s.moves (ms ++ [mv])) roles') :
    Performed s (ms ++ [mv]) roles' where
  queued := h.queued.step ho hst
  worked := (h.worked.step ho h.queued hst).congr fun _ _ =>
    ⟨Sometime.of_snoc, fun hc => hc.elim (·.append [mv]) fun hm => .now hm⟩
  there hc := by
    rcases Sometime.of_snoc hc with hc | hm
    · rcases h.there hc with hm | ⟨o, hs⟩
      · exact hst.delivered_cases ho hm
      · exact .inr ⟨o, hst.outcome?_of_some hs⟩
    · exact .inl hm
  settled {p parser source o} hr hs := by
    rcases hst.outcome?_parse ho hr hs with hs | ⟨x, hm, rfl⟩
    · obtain ⟨ho', hext⟩ := ho.step hst
      have hold : roles p = .job (.parse parser source) := by
        rw [← hr, hext p (ho.sound.assigned.role_ne_unused (outcome?_lt hs))]
      obtain ⟨x, hc, rfl⟩ := h.settled hold hs
      exact ⟨x, hc.append [mv], rfl⟩
    · exact ⟨x, (Sometime.now hm).append [mv], rfl⟩
  valued {p job v} hr hs := by
    rcases hst.outcome?_cases ho (by rw [hr]; rfl) hs with hs | hs
    · obtain ⟨_, hext⟩ := ho.step hst
      have hold : roles p = .job job := by
        rw [← hr, hext p (ho.sound.assigned.role_ne_unused (outcome?_lt hs))]
      exact (h.valued hold hs).append [mv]
    · rcases hs with (⟨hr', _⟩ | ⟨hr', _⟩ | ⟨hr', _⟩ | ⟨hr', _⟩ | @⟨x, hm, hx⟩) | ⟨hr', _⟩ | ⟨hr', _⟩ |
        ⟨_, _, hx⟩
      case errand.delivered =>
        cases x with
        | ok r =>
          cases hx
          exact (Sometime.now hm).append [mv]
        | error f => cases hx
      case cancelled => cases hx
      all_goals cases hr.symm.trans hr'

end Performed

/-! ## Tickets -/

/-- A ticket for the job is in the queue of the workers. -/
def InQueue (s : Service) (p : PromiseId) (job : Job) : Prop :=
  ∃ k ∈ s.workers.queue, k.promise = p ∧ k.job = job

/-- A ticket stays in the queue as long as the workers have not been dismissed. -/
theorem Strides.mem_queue (hst : Strides w m m') (hd : m'.service.workers.dismissed = false)
    {k : Ticket} (hk : k ∈ m.service.workers.queue) : k ∈ m'.service.workers.queue := by
  induction hst with
  | refl => exact hk
  | @tail m₁ m₂ hsts hstep ih =>
    have hd₁ : m₁.service.workers.dismissed = false := by
      rw [← Bool.not_eq_true] at hd ⊢
      exact fun hd' => hd (hstep.dismissed_stays hd')
    have hk := ih hd₁
    rcases hstep.delivers with ⟨crew, job, hs, _⟩ | ⟨hs, _⟩ | hi
    · rw [hs]
      unfold Work.handedIn
      split
      · exact hk
      · exact List.mem_append_left _ hk
    · rw [hs, Work.dismiss_eq] at hd ⊢
      cases hstuck : m₁.service.workers.stuck with
      | some f => exact hk
      | none =>
        rw [hstuck] at hd
        cases hd
    · rw [hi.queue]
      exact hk

/-- A job waits in the queue until it is worked off. -/
theorem InQueue.step {j : Job} (h : InQueue s p j) (ho : AtRest s roles)
    (hst : Step s roles mv s' roles') (hd : s'.workers.dismissed = false) :
    InQueue s' p j ∨ ∃ i k, s.workers.queue[i]? = some k ∧ k.promise = p ∧ k.job = j ∧
      s' = (Work.workOff i s).2 := by
  obtain ⟨k, hk, rfl, rfl⟩ := h
  rcases hst.idles ho with ⟨i, t, hi, rfl⟩ | hi | ⟨w, m, turn, ht, rfl, rfl⟩
  · by_cases hkt : k = t
    · exact .inr ⟨i, k, hkt ▸ hi, rfl, rfl, rfl⟩
    · -- Another ticket is worked off.
      refine .inl ⟨k, ?_, rfl, rfl⟩
      rw [Work.workOff_eq hi]
      obtain ⟨n, hn⟩ := List.getElem?_of_mem hk
      refine List.mem_eraseIdx_iff_getElem?.2 ⟨n, ?_, hn⟩
      rintro rfl
      exact hkt (Option.some.inj (hn.symm.trans hi))
  · exact .inl ⟨k, hi.queue ▸ hk, rfl, rfl⟩
  · obtain ⟨i, hb⟩ := ht.before
    exact .inl ⟨k, ht.strides.mem_queue (m := ⟨w.before, roles, w.stage.grip⟩) hd (by rw [hb]; exact hk),
      rfl, rfl⟩

/-- Handing a job in puts a ticket in the queue, or the outcome on the agenda. -/
theorem inQueue_handedIn (s : Service) (crew : Crew) (j : Job) :
    InQueue (Work.handedIn s crew j) s.loop.promises.size j ∨
      (Work.handedIn s crew j).world = (j.run s.world).2 ∧
        .deliver s.loop.promises.size (j.run s.world).1 ∈ (Work.handedIn s crew j).loop.agenda := by
  unfold Work.handedIn
  split
  · exact .inr ⟨rfl, List.mem_append_right _ (List.mem_singleton.2 rfl)⟩
  · exact .inl ⟨_, List.mem_append_right _ (List.mem_singleton.2 rfl), rfl, rfl⟩

/-! ## Jobs on parsers -/

/-- A move has a parser run over a source as the work of a job. -/
structure Parses (s : Service) (mv : Service.Move) (job : PromiseId) (parser : Nat)
    (source : List UInt8) (x : Except Fault (Option Node)) : Prop where
  run : ∃ w, s.world.Tried w ∧ (Attempt.parse parser source).run w = (x, (s.move mv).world)
  put : .deliver job (Work.reply .engineTree x) ∈ (s.move mv).loop.agenda
  new : ∀ y, .deliver job y ∉ s.loop.agenda

/-- Some move of the run has a parser run over a source as the work of a job. -/
def Parsed (s : Service) (ms : List Service.Move) (job : PromiseId) (parser : Nat)
    (source : List UInt8) (x : Except Fault (Option Node)) : Prop :=
  ∃ before mv after, ms = before ++ mv :: after ∧ Parses (s.moves before) mv job parser source x

/-- A parser's job is in the queue of the workers, or some move has done it. -/
def Awaited (s : Service) (ms : List Service.Move) (job : PromiseId) (parser : Nat)
    (source : List UInt8) : Prop :=
  InQueue (s.moves ms) job (.parse parser source) ∨ ∃ x, Parsed s ms job parser source x

variable {parser : Nat} {source : List UInt8} {tree : Except Fault (Option Node)}

theorem move_eq (s : Service) (ms : List Service.Move) (mv : Service.Move) :
    s.moves (ms ++ [mv]) = (s.moves ms).move mv := moves_append s ms [mv]

theorem Parses.parsed (h : Parses (s.moves ms) mv job parser source tree) :
    Parsed s (ms ++ [mv]) job parser source tree := ⟨ms, mv, [], rfl, h⟩

theorem Parsed.append (h : Parsed s ms job parser source tree) (after : List Service.Move) :
    Parsed s (ms ++ after) job parser source tree := by
  obtain ⟨before, mv, rest, rfl, h⟩ := h
  exact ⟨before, mv, rest ++ after, by simp, h⟩

/-- What the parser has given has come as the outcome of the job. -/
theorem Parsed.hasCome (h : Parsed s ms job parser source tree) :
    HasCome s ms job (Work.reply .engineTree tree) := by
  obtain ⟨before, mv, rest, rfl, h⟩ := h
  refine ⟨before ++ [mv], rest, by simp, ?_⟩
  rw [move_eq]
  exact h.put

theorem reply_engineTree_inj {x y : Except Fault (Option Node)}
    (h : Work.reply .engineTree x = Work.reply .engineTree y) : x = y := by
  cases x <;> cases y <;> cases h <;> rfl

/-- A job that is worked off is done by the move that does so. -/
theorem parses_workOff (hq : Queued s) {i : Nat} {k : Ticket} (hi : s.workers.queue[i]? = some k)
    (hj : k.job = .parse parser source) (hs : s.move mv = (Work.workOff i s).2) :
    ∃ x, Parses s mv k.promise parser source x := by
  refine ⟨((Attempt.parse parser source).run s.world).1, ⟨s.world, .inl rfl, ?_⟩, ?_,
    hq.undelivered (List.mem_of_getElem? hi)⟩
  · rw [hs, Work.workOff_eq hi, hj]
    rfl
  · rw [hs, Work.workOff_eq hi, hj]
    exact List.mem_append_right _ (List.mem_singleton.2 rfl)

namespace Awaited

theorem hasCome (h : Awaited s ms job parser source) (hw : Worked (HasCome s ms) (s.moves ms))
    (hc : HasCome s ms job y) :
    ∃ x, Parsed s ms job parser source x ∧ y = Work.reply .engineTree x := by
  rcases h with ⟨k, hk, hp, _⟩ | ⟨x, hx⟩
  · exact absurd hp (hw.left hc k hk)
  · exact ⟨x, hx, hw.once hc hx.hasCome⟩

/-- A job waits in the queue until a move does it. -/
theorem step (h : Awaited s ms job parser source) (hp : Performed s ms roles)
    (ho : AtRest (s.moves ms) roles)
    (hst : Step (s.moves ms) roles mv (s.moves (ms ++ [mv])) roles')
    (hd : (s.moves (ms ++ [mv])).workers.dismissed = false) :
    Awaited s (ms ++ [mv]) job parser source := by
  rcases h with hq | ⟨x, hx⟩
  · rcases hq.step ho hst hd with hq | ⟨i, k, hi, rfl, hj, hs⟩
    · exact .inl hq
    · obtain ⟨x, hx⟩ := parses_workOff hp.queued hi hj ((move_eq s ms mv).symm.trans hs)
      exact .inr ⟨x, hx.parsed⟩
  · exact .inr ⟨x, hx.append [mv]⟩

end Awaited

/-! ## Copies -/

/-- The copy of a tree is in the queue of the workers, or it has come. -/
def CopyAwaited (s : Service) (ms : List Service.Move) (p : PromiseId) (t : Tree) : Prop :=
  (∃ language source root, t = .ofEngine language source root ∧
    InQueue (s.moves ms) p (.copy language source root)) ∨ HasCome s ms p (.ok (.tree t))

namespace CopyAwaited

theorem hasCome {t : Tree} (h : CopyAwaited s ms p t) (hw : Worked (HasCome s ms) (s.moves ms))
    (hc : HasCome s ms p y) : y = .ok (.tree t) := by
  rcases h with ⟨_, _, _, _, k, hk, hp, _⟩ | ht
  · exact absurd hp (hw.left hc k hk)
  · exact hw.once hc ht

theorem step {t : Tree} (h : CopyAwaited s ms p t) (ho : AtRest (s.moves ms) roles)
    (hst : Step (s.moves ms) roles mv (s.moves (ms ++ [mv])) roles')
    (hd : (s.moves (ms ++ [mv])).workers.dismissed = false) : CopyAwaited s (ms ++ [mv]) p t := by
  rcases h with ⟨language, source, root, rfl, hq⟩ | ht
  · rcases hq.step ho hst hd with hq | ⟨i, k, hi, rfl, hj, hs⟩
    · exact .inl ⟨language, source, root, rfl, hq⟩
    · refine .inr (.now ?_)
      rw [hs, Work.workOff_eq hi, hj]
      exact List.mem_append_right _ (List.mem_singleton.2 rfl)
  · exact .inr (ht.append [mv])

end CopyAwaited

end SourceTrees.Service
