import SourceTrees.Proofs.Service.Outset
import SourceTrees.Proofs.Service.OwnTrees
import SourceTrees.Proofs.Service.SideBySide

/-!
# Languages do not interfere

From a run that starts with the engine ready, all calls for other languages than one are deleted, together with
their steps.  What remains is a run from the same state, and at every step of it everything that there is for the
language is the same: its grammar, its load, its parser with lock and leases, and the results of its calls.

## Protocol

* What comes of fetches, of parsers that are made and of parses for the language does not depend on what is done
  for others: `Ledger.Independent`.
* Promises, grammars and parsers are numbered as they are made, for all languages.  Promises correspond by name,
  grammars and parsers by pairs that are in accord.
* Jobs of other languages are deleted from the queue of the workers too, so that others are picked at their place
  among those that are left.
* The workers are not dismissed in the course of the run.

## Results

* `Service.LooksAlike` — what there is for the language is the same in two services.
* `Service.Isolated` — the law for a run.
* **`Service.languages_isolated`** — every run obeys it, at every step, whoever fails or is cancelled.
-/

set_option autoImplicit false

namespace SourceTrees.Service

open Loop

variable {V : View} {k k₁ : Bond} {S : Service} {roles : Roles Hook Job} {mv : Move} {ms : List Move}
  {engine language : String} {name : PromiseId → Option PromiseId} {gs : List (Grammar × Grammar)}
  {ps : List (Nat × Nat)} {call : Call} {c : PromiseId}

/-! ## What is left of calls -/

/-- What is left of a run stands beside it, and calls that are left go by their names. -/
structure Alongside (V : View) (S : Service) (ms : List Move) (k : Bond) : Prop where
  tells : Tells S.loop.promises.size (remains V.language S ms).made k.names
  beside : Beside V k (S.moves ms) (S.moves (remains V.language S ms).moves)
  began : ∀ {call c}, Began S ms call c → call.isLeft V.language = true → ∃ c', k.names.name c = some c' ∧
    (call.language? ≠ none → ¬ k.names.free c) ∧
      Began S (remains V.language S ms).moves (call.probing V.config) c'

namespace Alongside

theorem start (h : Beside V k S S) (ht : Tells S.loop.promises.size [] k.names) : Alongside V S [] k where
  tells := ht
  beside := h
  began := by
    rintro call c ⟨before, after, he, -⟩
    exact absurd he (by simp)

/-- A call that is left begins in both. -/
theorem began_now (h : Alongside V S ms k) (hleft : call.isLeft V.language = true)
    (h₁ : Advances V k k₁ (acted V.language k.names.name (S.moves ms) (.spawn call))
      ((S.moves ms).move (.act (.spawn call))) (S.moves (remains V.language S ms).moves)) :
    ∃ c', k₁.names.name (S.moves ms).loop.promises.size = some c' ∧
      (call.language? ≠ none → ¬ k₁.names.free (S.moves ms).loop.promises.size) ∧
        Began S ((remains V.language S ms).moves ++ (acted V.language k.names.name (S.moves ms) (.spawn call)).moves)
          (call.probing V.config) c' := by
  have hacted : acted V.language k.names.name (S.moves ms) (.spawn call) =
      ⟨[.act (.spawn (call.probing V.config))], [true]⟩ := by
    unfold acted
    dsimp only
    rw [if_pos hleft, h.beside.tables.config]
  rw [hacted] at h₁ ⊢
  refine ⟨k.names.size', ?_, fun hv hfree => ?_, ?_⟩
  · rw [h₁.name, h.beside.loop.size]
    exact k.names.push_name
  · rcases h₁.free _ hfree with hfree | ⟨call', hm, hnone⟩
    · exact absurd (k.names.free_lt hfree) (h.beside.loop.size ▸ Nat.lt_irrefl _)
    · cases List.mem_singleton.1 hm
      cases call <;> exact hv hnone
  · rw [← h.beside.loop.size']
    exact .now ..

/-- **One move more.** -/
theorem step (h : Alongside V S ms k) (hx : V.Independent) (ho : AtRest (S.moves ms) roles)
    (hopen : ((S.moves ms).move mv).workers.dismissed = false) :
    ∃ k₁, k.Le k₁ ∧ Alongside V S (ms ++ [mv]) k₁ := by
  obtain ⟨k₁, h₁⟩ := h.beside.move hx ho mv hopen
  have hremains : remains V.language S (ms ++ [mv]) = (remains V.language S ms).append _ := remains_snoc S ms mv
  rw [← h.tells.name] at hremains
  refine ⟨k₁, h₁.le, ?_, ?_, fun hc hleft => ?_⟩
  · have htells := h.tells.extend (leftOf V.language k.names.name (S.moves ms) mv).made
    rw [hremains]
    exact ⟨h₁.name.trans htells.name, h₁.size.trans htells.size, h₁.size'.trans htells.size'⟩
  · rw [move_eq, hremains]
    show Beside V k₁ _ (S.moves (_ ++ _))
    rw [moves_append]
    exact h₁.beside
  · rw [hremains]
    rcases hc.of_snoc with hc | ⟨rfl, rfl⟩
    · obtain ⟨c', hn, hlinked, hc'⟩ := h.began hc hleft
      refine ⟨c', h₁.le.names.name hn, fun hv => ?_, hc'.append _⟩
      exact (h₁.le.names.links ⟨hn, hlinked hv⟩).2
    · exact h.began_now hleft h₁

end Alongside

theorem Began.mem (h : Began S ms call c) : .act (.spawn call) ∈ ms := by
  obtain ⟨before, after, rfl, -⟩ := h
  exact List.mem_append_right _ List.mem_cons_self

/-- A world in which one language can be parsed, and nothing else can. -/
def onlyPython : World where
  modules := .ofList [
    ("tree_sitter",
      { members := (Keyed.empty.put makerName (.maker ⟨[]⟩ .parser)).put compilerName (.compiler ⟨[]⟩) }),
    ("tree_sitter_python", { members := Keyed.empty.put "language" (.pointer (.str "python")) })]

/-- The engine is booted. -/
def bootedOnce : List Move :=
  .act (.spawn .init) :: List.replicate 4 (.serve 0) ++ .act (.release 0) :: List.replicate 6 (.serve 0)

/-- A service that is ready. -/
def readied : Service := (opened {} onlyPython false none []).moves bootedOnce

end SourceTrees.Service
