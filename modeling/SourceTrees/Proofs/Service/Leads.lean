import SourceTrees.Proofs.Service.Order

/-!
# Parts of a turn, cut into strides

Every part of a task's turn is a function of the service.  That it **leads** from one moment to another
means that there are strides on the way, and that something holds of its answer and of the moment where
it arrives.  Parts are put together as the functions are.

## Results

* `Service.Leads` — the relation; `Service.Leads.bind`, `Service.Leads.stride` — putting parts together.
* `Service.Rested` — what is known of a promise on which the turn can end.
* `Service.Halts` — a turn that has come to rest, or has finished, and does not give way.
* `Service.Woken.Blames` — the faults with which requests end.
-/

set_option autoImplicit false

namespace SourceTrees.Service

open Loop

variable {w : Woken} {m m' : Midst} {α β P R : Type} {Q Q' : α → Midst → Prop}

/-- The turn has come to the moment by strides. -/
structure Reached (w : Woken) (m : Midst) : Prop where
  inTurn : InTurn w m
  came : ∃ roles, Strides w ⟨w.before, roles, w.stage.grip⟩ m

theorem Reached.strides (h : Reached w m) (hst : Strides w m m') : Reached w m' :=
  ⟨h.inTurn.strides hst, h.came.imp fun _ hc => hc.trans hst⟩

/-- There are strides to a moment with the service that has come out, where the postcondition holds of
    the answer. -/
def Leads (w : Woken) (m : Midst) (x : α × Service) (Q : α → Midst → Prop) : Prop :=
  Reached w m → ∃ m', Strides w m m' ∧ m'.service = x.2 ∧ Q x.1 m'

/-- The turn can end resting on the promise. -/
structure Rested (w : Woken) (m : Midst) (p : PromiseId) (rest : Rest) (grip : Grip) : Prop where
  fits : rest.Fits m.roles (some p)
  grip : m.grip = grip
  base_le : w.before.loop.promises.size ≤ p
  lt_size : p < m.service.loop.promises.size

/-- The turn has come to rest, or has finished. -/
def Halts (rested : PromiseId → P → Midst → Prop) (finished : Except Fault α → Midst → Prop) :
    Turn P α → Midst → Prop
  | .rest on point, m => rested on point m
  | .giveWay _, _ => False
  | .finish result, m => finished result m

/-- A request may end with the fault: it is one of the service, the task has met it, or it may not be
    caught and was raised when a parser was made. -/
inductive Woken.Blames (w : Woken) (f : Fault) : Prop
  | own (h : f.kind.isDeclared = true)
  | met (h : w.given = .error f)
  | making {m : Midst} {engine : String} {g : Grammar} (hr : Reached w m)
      (hb : ((Attempt.bindParser engine g).run m.service.world).1 = .error f)
      (hn : f.kind.isOrdinary = false)

/-- A shared operation may end with the fault that the task has met: it may not be caught, or the task
    has waited for nothing. -/
def Woken.Fails (w : Woken) (f : Fault) : Prop :=
  w.given = .error f ∧ (f.kind.isOrdinary = false ∨ w.stage.rest = .nothing)

namespace Leads

theorem pure {a : α} (h : Q a m) : Leads w m (a, m.service) Q := fun _ => ⟨m, .refl, rfl, h⟩

theorem mono {x : α × Service} (h : Leads w m x Q) (hQ : ∀ a m', Q a m' → Q' a m') :
    Leads w m x Q' := by
  intro ht
  obtain ⟨m', hst, hs, hq⟩ := h ht
  exact ⟨m', hst, hs, hQ _ _ hq⟩

/-- What is known of the moment may be used. -/
theorem of_inTurn {x : α × Service} (h : InTurn w m → Leads w m x Q) : Leads w m x Q :=
  fun ht => h ht.inTurn ht

/-- How the turn has come there may be used. -/
theorem of_reached {x : α × Service} (h : Reached w m → Leads w m x Q) : Leads w m x Q :=
  fun ht => h ht ht

theorem stride {x : α × Service} (hstep : Stride w m m') (h : Leads w m' x Q) : Leads w m x Q := by
  intro ht
  obtain ⟨m'', hst, hs, hq⟩ := h (ht.strides (.single hstep))
  exact ⟨m'', .head hstep hst, hs, hq⟩

/-- The strides themselves may be used. -/
theorem strides {x : α × Service} (h : Leads w m x Q) : Leads w m x fun a m' => Q a m' ∧ Strides w m m' := by
  intro ht
  obtain ⟨m', hst, hs, hq⟩ := h ht
  exact ⟨m', hst, hs, hq, hst⟩

/-- What has come out may be used. -/
theorem result {x : α × Service} (h : Leads w m x Q) :
    Leads w m x fun a m' => Q a m' ∧ x = (a, m'.service) := by
  intro ht
  obtain ⟨m', hst, hs, hq⟩ := h ht
  exact ⟨m', hst, hs, hq, Prod.ext rfl hs.symm⟩

theorem bind {f : Work α} {g : α → Work β} {Q : β → Midst → Prop}
    (h : Leads w m (f m.service) fun a m' => Leads w m' (g a m'.service) Q) :
    Leads w m ((f >>= g) m.service) Q := by
  intro ht
  obtain ⟨m', hst, hs, hq⟩ := h ht
  obtain ⟨m'', hst', hs', hq'⟩ := hq (ht.strides hst)
  refine ⟨m'', hst.trans hst', ?_⟩
  have he : (f >>= g) m.service = g (f m.service).1 m'.service := by
    rw [hs]
    rfl
  rw [he]
  exact ⟨hs', hq'⟩

/-- A part whose effect is a share of a later stride. -/
theorem after {f : Work α} {g : α → Work β} {Q : β → Midst → Prop} {a : α} {s s' : Service}
    (hf : f s = (a, s')) (h : Leads w m (g a s') Q) : Leads w m ((f >>= g) s) Q := by
  have he : (f >>= g) s = g (f s).1 (f s).2 := rfl
  rw [he, hf]
  exact h

theorem log (line : LogLine) {Q : Unit → Midst → Prop}
    (h : Q () { m with service := { m.service with log := m.service.log ++ [line] } }) :
    Leads w m (Work.log line m.service) Q :=
  stride (.logged line) (pure h)

theorem count (n : Noted) {f : Counts → Counts} (hf : ∀ c, f c = c.note n) {Q : Unit → Midst → Prop}
    (h : Q () { m with service := { m.service with counts := m.service.counts.note n } }) :
    Leads w m (Work.count f m.service) Q := by
  refine stride (.counted n) ?_
  have he : Work.count f m.service =
      ((), { m.service with counts := m.service.counts.note n }) := by
    rw [← hf]
    rfl
  rw [he]
  exact pure h

/-- A call made in turn has come to rest, or it has finished and its caller goes on. -/
theorem andThen {turn : Turn P α} {wrap : P → R} {next : Except Fault α → Work (Turn R β)}
    {rested : PromiseId → P → Midst → Prop} {finished : Except Fault α → Midst → Prop}
    {Q : Turn R β → Midst → Prop} (h : Halts rested finished turn m)
    (hrest : ∀ on point, rested on point m → Q (.rest on (wrap point)) m)
    (hfinish : ∀ result, finished result m → Leads w m (next result m.service) Q) :
    Leads w m (Work.andThen turn wrap next m.service) Q := by
  cases turn with
  | rest on point => exact pure (hrest on point h)
  | giveWay point => exact h.elim
  | finish result => exact hfinish result h

/-- A call is made in turn. -/
theorem call {f : Work (Turn P α)} {wrap : P → R} {next : Except Fault α → Work (Turn R β)}
    {rested : PromiseId → P → Midst → Prop} {finished : Except Fault α → Midst → Prop}
    {Q : Turn R β → Midst → Prop} (h : Leads w m (f m.service) (Halts rested finished))
    (hrest : ∀ on point m', rested on point m' → Q (.rest on (wrap point)) m')
    (hfinish : ∀ result m', finished result m' → Leads w m' (next result m'.service) Q) :
    Leads w m ((do let turn ← f; Work.andThen turn wrap next : Work (Turn R β)) m.service) Q :=
  bind (h.mono fun _ _ hq => andThen hq (fun on point hr => hrest on point _ hr)
    fun result hf => hfinish result _ hf)

end Leads

end SourceTrees.Service
