import SourceTrees.Service.Session
import SourceTrees.Proofs.Loop.Later

/-!
# Everything that can happen to a service

Calls come and are cancelled, jobs are done, leases are ended, time passes, and the errands of the loop
are served in any order.

## Protocol

* A **move** is one thing that happens; a run is a list of moves, from a new service.
* The service's own way of serving its loop, first come, first served, is one of these runs.
-/

set_option autoImplicit false

namespace SourceTrees.Service

/-- One thing that happens. -/
inductive Move where
  | serve (place : Nat)
  | expire
  | act (action : Action)
  | clock (time : Float)

/-- Makes a move. -/
def move (s : Service) : Move → Service
  | .serve place => program.serveAt place s
  | .expire => program.expire s
  | .act action => ((act action).run s).2
  | .clock time => s.setClock time

/-- Makes moves, one after the other. -/
def moves (s : Service) (ms : List Move) : Service := ms.foldl move s

/-- A new service, its workers idle: they are eager or not, and may fail to be dismissed. -/
def opened (config : Config) (world : World) (eager : Bool) (stuck : Option Fault)
    (log : List LogLine) : Service :=
  create config world { eager, stuck } log

section

variable (config : Config) (world : World) (eager : Bool) (stuck : Option Fault) (log : List LogLine)

/-- A new service has done nothing yet. -/
theorem opened_eq : opened config world eager stuck log =
    { config, world
      workers := { eager, stuck }
      holdsWorkers := 0 < config.workers
      log := (opened config world eager stuck log).log } := by
  unfold opened create
  dsimp only
  split <;> rfl

@[simp] theorem config_opened : (opened config world eager stuck log).config = config := by
  rw [opened_eq]

@[simp] theorem loop_opened : (opened config world eager stuck log).loop = {} := by rw [opened_eq]

@[simp] theorem world_opened : (opened config world eager stuck log).world = world := by
  rw [opened_eq]

@[simp] theorem queue_opened : (opened config world eager stuck log).workers.queue = [] := by
  rw [opened_eq]

@[simp] theorem phase_opened : (opened config world eager stuck log).phase = .uninitialized := by
  rw [opened_eq]

@[simp] theorem bootFlight_opened : (opened config world eager stuck log).bootFlight = {} := by
  rw [opened_eq]

@[simp] theorem grammars_opened : (opened config world eager stuck log).grammars = .empty := by
  rw [opened_eq]

@[simp] theorem grammarFlight_opened : (opened config world eager stuck log).grammarFlight = {} := by
  rw [opened_eq]

@[simp] theorem pool_opened : (opened config world eager stuck log).pool = .empty := by rw [opened_eq]

@[simp] theorem counts_opened : (opened config world eager stuck log).counts = {} := by rw [opened_eq]

end

theorem moves_append (s : Service) (ms ms' : List Move) :
    s.moves (ms ++ ms') = (s.moves ms).moves ms' := List.foldl_append ..

/-- Every move of the run is of the kind, in the state in which it is made. -/
def Along (A : Service → Move → Prop) : Service → List Move → Prop
  | _, [] => True
  | s, mv :: ms => A s mv ∧ Along A (s.move mv) ms

instance decidableAlong {A : Service → Move → Prop} [∀ s mv, Decidable (A s mv)] :
    ∀ (s : Service) (ms : List Move), Decidable (Along A s ms)
  | _, [] => isTrue trivial
  | s, mv :: ms =>
    have : Decidable (Along A (s.move mv) ms) := decidableAlong _ ms
    inferInstanceAs (Decidable (A s mv ∧ Along A (s.move mv) ms))

theorem along_append {A : Service → Move → Prop} (ms ms' : List Move) : ∀ {s : Service},
    Along A s (ms ++ ms') ↔ Along A s ms ∧ Along A (s.moves ms) ms' := by
  induction ms with
  | nil =>
    intro s
    exact ⟨fun h => ⟨trivial, h⟩, fun h => h.2⟩
  | cons mv ms ih =>
    intro s
    exact (and_congr_right fun _ => ih).trans and_assoc.symm

theorem along_of_forall {A : Service → Move → Prop} (h : ∀ s mv, A s mv) :
    ∀ (ms : List Move) {s : Service}, Along A s ms
  | [], _ => trivial
  | mv :: ms, s => ⟨h s mv, along_of_forall h ms⟩

theorem Along.mono {A B : Service → Move → Prop} (h : ∀ s mv, A s mv → B s mv) :
    ∀ (ms : List Move) {s : Service}, Along A s ms → Along B s ms
  | [], _, _ => trivial
  | _ :: ms, _, ⟨hmv, hms⟩ => ⟨h _ _ hmv, hms.mono h ms⟩

theorem Along.and {A B : Service → Move → Prop} :
    ∀ {ms : List Move} {s : Service}, Along A s ms → Along B s ms → Along (fun s mv => A s mv ∧ B s mv) s ms
  | [], _, _, _ => trivial
  | _ :: _, _, ⟨ha, has⟩, ⟨hb, hbs⟩ => ⟨⟨ha, hb⟩, has.and hbs⟩

/-- It is enough to look at every move with what has come before it. -/
theorem along_of_split {A : Service → Move → Prop} : ∀ {ms : List Move} {s : Service},
    (∀ before mv after, ms = before ++ mv :: after → A (s.moves before) mv) → Along A s ms
  | [], _, _ => trivial
  | mv :: ms, _, h => ⟨h [] mv ms rfl, along_of_split fun before mv' after he =>
      h (mv :: before) mv' after (congrArg (mv :: ·) he)⟩

theorem lawful : program.Lawful := ⟨fun _ _ => rfl, fun _ => rfl, fun _ _ _ => rfl⟩

/-- The service's own turns are moves. -/
theorem exists_moves_of_turn? {s s' : Service} (h : program.turn? s = some s') :
    ∃ ms, s' = s.moves ms := by
  rcases Program.turn?_eq program lawful h with rfl | rfl
  · exact ⟨[.serve 0], rfl⟩
  · exact ⟨[.expire, .serve 0], rfl⟩

/-- Serving the loop is a run. -/
theorem exists_moves_of_run (fuel : Nat) : ∀ s : Service, ∃ ms, program.run fuel s = s.moves ms := by
  induction fuel with
  | zero => exact fun s => ⟨[], rfl⟩
  | succ fuel ih =>
    intro s
    unfold Program.run
    split
    · rename_i s' hs
      obtain ⟨ms, rfl⟩ := exists_moves_of_turn? hs
      obtain ⟨ms', h'⟩ := ih (s.moves ms)
      refine ⟨ms ++ ms', ?_⟩
      rw [h', moves_append]
    · exact ⟨[], rfl⟩

end SourceTrees.Service
