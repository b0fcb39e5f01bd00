import SourceTrees.Proofs.Service.Beside
import SourceTrees.Proofs.Service.Compiled
import SourceTrees.Proofs.Service.Failing
import SourceTrees.Proofs.Service.Holders

/-!
# A service in which nothing is under way

What is left of a run is made in the state from which the run starts.  If nothing is under way there, no promise
that has been made before matters any more, and the service stands beside itself.

## Protocol

* The service is **quiescent** if it is idle, and no errand, job, timer or group is left over.
* Its **ledger** for a language has its world, the grammar that is kept, and the pooled parser with the grammar
  to which that is bound.

## Results

* `Service.exists_furnished` — what is kept and pooled after a run from the opening.
* **`Service.Quiescent.beside`** — a quiescent service stands beside itself.
-/

set_option autoImplicit false

namespace SourceTrees.Service

open Loop

variable {s : Service} {roles roles' : Roles Hook Job} {mv : Move} {ms : List Move} {engine language : String}

/-- Nothing is under way, and nothing is left over. -/
structure Quiescent (s : Service) : Prop extends s.Idle where
  agenda : s.loop.agenda = []
  timers : s.loop.timers = []
  groups : ∀ g, s.loop.groups.get? g = none
  queue : s.workers.queue = []

/-- The world, with the grammars and the parser that there are for a language. -/
def ledger (s : Service) (language : String) : Ledger where
  world := s.world
  grammars := (s.grammars.get? language).toList ++ ((s.parser? language).map s.world.grammarOf).toList
  parsers := (s.parser? language).toList

/-! ## What there is after a run -/

/-- Grammars have been compiled and parsers made, and nobody has a ticket who does not wait with it. -/
structure Furnished (s : Service) (ms : List Move) (roles : Roles Hook Job) : Prop where
  bound : Bound s ms roles
  compiled : Compiled s ms roles
  attributed : Attributed (s.moves ms) (s.moves ms).gripAt

/-- What there is for a language is in accord with itself. -/
theorem Furnished.accord (h : Furnished s ms roles) (language : String) :
    World.Accord (((s.moves ms).ledger language).grammars.map fun g => (g, g))
      (((s.moves ms).ledger language).parsers.map fun p => (p, p)) (s.moves ms).world (s.moves ms).world := by
  have hparser : ∀ p ∈ ((s.moves ms).ledger language).parsers, (s.moves ms).parser? language = some p := fun p hp =>
    Option.mem_toList.1 hp
  refine World.Accord.refl (x := (s.moves ms).ledger language) (fun g hg => ?_) (fun p hp => ?_) fun p hp => .inr ?_
  · rcases List.mem_append.1 hg with hg | hg
    · exact h.compiled.kept (.now (Option.mem_toList.1 hg))
    · obtain ⟨p, hp, rfl⟩ := Option.map_eq_some_iff.1 (Option.mem_toList.1 hg)
      exact h.compiled.kept (h.bound.bound hp).2.2
  · obtain ⟨hpos, hle, -⟩ := h.bound.bound (hparser p hp)
    exact Nat.lt_of_lt_of_le (Nat.sub_lt hpos Nat.one_pos) hle
  · refine List.mem_append_right _ (Option.mem_toList.2 ?_)
    rw [hparser p hp]
    rfl

namespace Quiescent

theorem of_isEmpty (h : s.Idle) (ha : s.loop.agenda.isEmpty = true) (ht : s.loop.timers.isEmpty = true)
    (hg : s.loop.groups.entries.isEmpty = true) (hq : s.workers.queue.isEmpty = true) : s.Quiescent where
  toIdle := h
  agenda := List.isEmpty_iff.1 ha
  timers := List.isEmpty_iff.1 ht
  groups g := by
    rw [Keyed.get?, List.isEmpty_iff.1 hg]
    rfl
  queue := List.isEmpty_iff.1 hq

/-- No promise has a name yet. -/
def names (s : Service) : Names where
  name _ := none
  free _ := False
  gone _ := False
  size := s.loop.promises.size
  size' := s.loop.promises.size
  known h := nomatch h
  injective h := nomatch h
  free_lt h := h.elim
  gone_free h := h

/-- Grammars and parsers that there are correspond to themselves. -/
def bond (s : Service) (language : String) : Bond where
  names := names s
  grammars := (s.ledger language).grammars.map fun g => (g, g)
  parsers := (s.ledger language).parsers.map fun p => (p, p)
  pooled := False

/-- The language is looked at from now on. -/
abbrev view (s : Service) (engine language : String) : View := ⟨s.config, engine, language, s.ledger language⟩

theorem tasks (h : s.Quiescent) (t : PromiseId) : s.loop.tasks.get? t = none := by
  cases ht : s.loop.tasks.get? t with
  | none => rfl
  | some task => exact (h.calls t _ _ (place?_of_get? ht)).elim

theorem load (h : s.Quiescent) (language : String) : s.grammarFlight.entries.get? language = none := by
  cases hl : s.grammarFlight.entries.get? language with
  | none => rfl
  | some op => exact (h.flights (.grammar language) op hl).elim

theorem boot (h : s.Quiescent) : s.bootFlight.entries.get? () = none := by
  cases hb : s.bootFlight.entries.get? () with
  | none => rfl
  | some op => exact (h.flights .boot op hb).elim

/-- Reactions that are left over are for promises that have been made. -/
theorem stray (h : s.Quiescent) (ho : AtRest s roles) {p : PromiseId} {rs : List (Reaction Hook)}
    (hp : s.loop.promises[p]? = some (.pending rs)) : ∀ r ∈ rs, r.Stray (names s) := by
  intro r hr q hq
  have hdue : s.loop.Due p r := .inl ⟨rs, hp, hr⟩
  have hmade : ∀ {role : Role Hook Job}, roles q = role → role ≠ .unused → (names s).Strays q :=
    fun hq hne => ⟨ho.sound.assigned.lt_size (hq ▸ hne), .inl rfl⟩
  have hfits := ho.sound.assigned.fits hdue
  cases r with
  | wake t =>
    obtain ⟨_, task, ht, _⟩ := ho.sound.tended.woken hdue
    cases (h.tasks t).symm.trans ht
  | relay q' =>
    cases hq
    exact hmade hfits (by simp)
  | signal w =>
    cases hq
    exact hmade hfits (by simp)
  | tally g =>
    cases hq
    exact hmade hfits (by simp)
  | hook k => cases hq

theorem counterpart (h : s.Quiescent) (ho : AtRest s roles) (C : Kinds Reply Stage Hook) :
    s.loop.Counterpart (names s) C s.loop where
  promises := {
    size := rfl
    size' := rfl
    linked := fun hp => by cases hp.1
    stray := fun _ hp => h.stray ho hp
    free := fun hn => by cases hn }
  tasks := {
    known := fun ht => by cases (h.tasks _).symm.trans ht
    known' := fun ht => by cases (h.tasks _).symm.trans ht
    linked := fun ht => by cases ht.1
    waiting := fun hn => by cases hn
    gone := fun hn => by cases hn
    stray := fun _ ht => by cases (h.tasks _).symm.trans ht
    begun := fun hg => hg.elim }
  agenda := by
    rw [h.agenda]
    exact .nil
  groups hg := by cases (h.groups _).symm.trans hg
  groups' := h.groups
  timers := h.timers
  timers' := h.timers
  now := rfl

/-- **A service in which nothing is under way stands beside itself.** -/
theorem beside {past : List Move} (h : (s.moves past).Quiescent) (ho : AtRest (s.moves past) roles)
    (hf : Furnished s past roles) (hready : (s.moves past).engine? = .ok engine) :
    Beside (view (s.moves past) engine language) (bond (s.moves past) language) (s.moves past) (s.moves past) := by
  -- Nobody waits with a ticket.
  have htickets : ∀ {l q}, (s.moves past).pool.get? l = some q → q.lock.tickets = [] := by
    intro l q hq
    refine List.eq_nil_iff_forall_not_mem.2 fun t ht => ?_
    obtain ⟨u, hu⟩ := hf.attributed.owner hq ht
    have hfree : (s.moves past).gripAt u = .free := by
      unfold gripAt
      rw [show (s.moves past).loop.place? u = none from by simp [place?, h.tasks u]]
    cases hfree.symm.trans hu
  refine ⟨h.counterpart ho _, ?_, .refl (hf.accord language)⟩
  refine {
    config := rfl, config' := rfl, ready := hready, ready' := hready, holds := rfl, eager := rfl
    dismissed := rfl, stuck := rfl, boot := h.boot, boot' := h.boot, pooled := fun hp => hp.elim
    loads := fun _ hop => by cases (h.load _).symm.trans hop
    tickets := fun _ hq ht => by rw [htickets hq] at ht; cases ht
    queue := ?_, kept := ?_, load := ?_, pool := ?_ }
  · rw [h.queue]
    exact .nil
  · show Option.Rel _ ((s.moves past).grammars.get? language) ((s.moves past).grammars.get? language)
    cases hk : (s.moves past).grammars.get? language with
    | none => exact .none
    | some g =>
      refine .some (.inr (List.mem_map.2 ⟨g, List.mem_append_left _ ?_, rfl⟩))
      exact Option.mem_toList.2 hk
  · show Option.Rel _ ((s.moves past).grammarFlight.entries.get? language) _
    rw [h.load language]
    exact .none
  · show Option.Rel _ ((s.moves past).pool.get? language) ((s.moves past).pool.get? language)
    cases hq : (s.moves past).pool.get? language with
    | none => exact .none
    | some q =>
      refine .some ⟨List.mem_map.2 ⟨q.parser, Option.mem_toList.2 (parser?_of_get? hq), rfl⟩, rfl, ?_, rfl⟩
      rw [htickets hq]
      exact .nil

end Quiescent

end SourceTrees.Service
