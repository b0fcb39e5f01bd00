import SourceTrees.Proofs.Service.Beside
import SourceTrees.Proofs.Service.Course

/-!
# A run, and what is left of it when other languages are left out

From the moves of a run those are deleted that begin calls for other languages than one, and those that serve
such calls and what they have started.  What is left is a list of moves again, in which promises go by other
names, since fewer are made.

## Protocol

* A call is left if it is for the language, or for none.  Of a warm-up the look at availability is left, and
  the requests that it makes for the language, as calls of their own.
* An errand is left if what it is about has a name; a job, if its promise has.  Errands and jobs are picked by
  their place among those that are left.
* Whoever is cancelled is cancelled by name.
* The run starts from any state.  Promises that were made before have no names.

## Results

* `Service.remains` — what is left of a run: its moves, and which promises are made in it too.
* `Service.remains_snoc` — of one move more.
* `Service.nameFrom` — by which names promises go.
-/

set_option autoImplicit false

namespace SourceTrees

/-! ## What is left of a move -/

/-- Does the value name the language? -/
def Json.isFor (language : String) : Json → Bool
  | .str other => other == language
  | _ => false

theorem Json.isFor_iff {language : String} {v : Json} : v.isFor language = true ↔ v = .str language := by
  cases v <;> simp [isFor]

/-- Is the call for the language, or for none? -/
def Call.isLeft (language : String) (call : Call) : Bool :=
  match call.language? with
  | some v => v.isFor language
  | none => true

/-- The languages for which a warm-up has asked that waits for them. -/
def Stage.gathers? : Stage → Option (List Json)
  | .warm (.gathering languages _) | .enter (.gathering languages _) => some languages
  | _ => none

namespace Service

/-- What is left of a run: its moves, and for each promise that the run has made, whether it is made there. -/
structure Remnant where
  moves : List Move := []
  made : List Bool := []

/-- What is left of two runs, one after the other. -/
def Remnant.append (r r' : Remnant) : Remnant := ⟨r.moves ++ r'.moves, r.made ++ r'.made⟩

/-- By which name a promise goes in what is left of a run, if it is made there: it is counted among those that
    are. -/
def nameFrom (start : Nat) (made : List Bool) (p : PromiseId) : Option PromiseId :=
  if start ≤ p ∧ made[p - start]? = some true then some (start + (made.take (p - start)).count true) else none

/-- The requests of a warm-up for the language, as calls. -/
def ownRequests (language : String) (languages : List Json) : List Move :=
  (languages.filter (·.isFor language)).map fun l => .act (.spawn (.getParser l))

section

variable (language : String) (name : PromiseId → Option PromiseId) (s : Service)

/-- What is left of the service of the errand at a place. -/
def served (place : Nat) : Remnant :=
  match s.loop.agenda[place]? with
  | none => {}
  | some e =>
    let after := s.move (.serve place)
    let made := after.loop.promises.size - s.loop.promises.size
    if e.isLeft name then
      let rank := (s.loop.agenda.take place).countP (·.isLeft name)
      match e.woken?.bind fun t => (after.loop.tasks.get? t).bind (·.point.gathers?) with
      | some languages =>
        ⟨ownRequests language languages ++ [.serve rank], languages.map (·.isFor language) ++ [false]⟩
      | none => ⟨[.serve rank], .replicate made true⟩
    else ⟨[], .replicate made false⟩

/-- Whoever is cancelled with a task, if anything is left of them. -/
def cancels (task : PromiseId) : List Move :=
  ((s.loop.targets task).filterMap name).map fun t => .act (.cancel t)

/-- What is left of an action. -/
def acted : Action → Remnant
  | .spawn call =>
    if call.isLeft language then ⟨[.act (.spawn (call.probing s.config))], [true]⟩ else ⟨[], [false]⟩
  | .release position =>
    let place := (position % s.workers.queue.length).toNat
    if (s.workers.queue[place]?).any fun t => (name t.promise).isSome then
      ⟨[.act (.release ((s.workers.queue.take place).countP fun t => (name t.promise).isSome))], []⟩
    else {}
  | .cancel task => ⟨cancels name s task, []⟩
  | .endLease task fault => ⟨(name task).toList.map fun t => .act (.endLease t fault), []⟩
  | .cancelBoot => ⟨[.act .cancelBoot], []⟩
  | .cancelGrammar other => ⟨(s.grammarFlight.entries.get? other).toList.flatMap (cancels name s), []⟩

/-- What is left of a move. -/
def leftOf : Move → Remnant
  | .serve place => served language name s place
  | .act action => acted language name s action
  | .expire => ⟨[.expire], []⟩
  | .clock time => ⟨[.clock time], []⟩

end

/-! ## What is left of a run -/

/-- What is left of a run that goes on, after what is left of it so far. -/
def remainsAfter (language : String) (start : Nat) : Service → Remnant → List Move → Remnant
  | _, r, [] => r
  | s, r, mv :: ms =>
    remainsAfter language start (s.move mv) (r.append (leftOf language (nameFrom start r.made) s mv)) ms

/-- **What is left of a run when all languages but one are left out.** -/
def remains (language : String) (s : Service) (ms : List Move) : Remnant :=
  remainsAfter language s.loop.promises.size s {} ms

variable {language : String} {start : Nat} {made : List Bool} {p p' : PromiseId} {N : Names}

theorem remains_snoc (s : Service) (ms : List Move) (mv : Move) : remains language s (ms ++ [mv]) =
    (remains language s ms).append
      (leftOf language (nameFrom s.loop.promises.size (remains language s ms).made) (s.moves ms) mv) := by
  have hgen : ∀ (start : Nat) (ms : List Move) (s : Service) (r : Remnant),
      remainsAfter language start s r (ms ++ [mv]) = (remainsAfter language start s r ms).append
        (leftOf language (nameFrom start (remainsAfter language start s r ms).made) (s.moves ms) mv) := by
    intro start ms
    induction ms with
    | nil => exact fun _ _ => rfl
    | cons mv' ms ih => exact fun s r => ih _ _
  exact hgen ..

theorem nameFrom_snoc (b : Bool) : nameFrom start (made ++ [b]) =
    if b then Function.update (nameFrom start made) (start + made.length) (some (start + made.count true))
    else nameFrom start made := by
  funext p
  by_cases hp : start ≤ p
  · obtain ⟨i, rfl⟩ := Nat.exists_eq_add_of_le hp
    have hupdate : ∀ x, Function.update (nameFrom start made) (start + made.length) x (start + i) =
        if i = made.length then x else nameFrom start made (start + i) := fun x => by
      rw [Function.update_apply]
      exact if_congr Nat.add_left_cancel_iff rfl rfl
    rcases Nat.lt_trichotomy i made.length with hi | rfl | hi
    · have hsame : nameFrom start (made ++ [b]) (start + i) = nameFrom start made (start + i) := by
        simp only [nameFrom, Nat.add_sub_cancel_left, List.getElem?_append_left hi,
          List.take_append_of_le_length (Nat.le_of_lt hi)]
      cases b with
      | true => rw [hsame, if_pos rfl, hupdate, if_neg (Nat.ne_of_lt hi)]
      | false => exact hsame
    · cases b <;> simp [nameFrom]
    · have hnone : nameFrom start made (start + i) = none := by
        simp [nameFrom, List.getElem?_eq_none_iff.2 (Nat.le_of_lt hi)]
      have hnone' : nameFrom start (made ++ [b]) (start + i) = none := by
        have hlen : (made ++ [b])[i]? = none := List.getElem?_eq_none_iff.2 (by rwa [List.length_append])
        simp [nameFrom, hlen]
      cases b with
      | true => rw [hnone', if_pos rfl, hupdate, if_neg (Nat.ne_of_gt hi), hnone]
      | false => exact hnone'.trans hnone.symm
  · have hnone : ∀ made, nameFrom start made p = none := fun made => if_neg fun h => hp h.1
    cases b with
    | true =>
      rw [hnone, if_pos rfl, Function.update_of_ne, hnone]
      rintro rfl
      exact hp (Nat.le_add_right ..)
    | false => rw [hnone]; exact (hnone made).symm

/-- The names tell what is left of a run with such promises. -/
structure Tells (start : Nat) (made : List Bool) (N : Names) : Prop where
  name : N.name = nameFrom start made
  size : N.size = start + made.length
  size' : N.size' = start + made.count true

theorem Tells.snoc {N₁ : Names} (h : Tells start made N) {b : Bool}
    (hname : N₁.name = if b then N.push.name else N.name) (hsize : N₁.size = N.size + 1)
    (hsize' : N₁.size' = if b then N.size' + 1 else N.size') : Tells start (made ++ [b]) N₁ where
  name := by
    rw [hname, nameFrom_snoc, ← h.size, ← h.size', ← h.name]
    rfl
  size := by rw [hsize, h.size, List.length_append]; rfl
  size' := by
    rw [hsize', h.size', List.count_append]
    cases b <;> rfl

theorem Tells.extend (made' : List Bool) : ∀ {made : List Bool} {N : Names}, Tells start made N →
    Tells start (made ++ made') (N.extend made') := by
  induction made' with
  | nil => exact fun h => by rwa [List.append_nil]
  | cons b made' ih =>
    intro made N h
    rw [List.append_cons]
    cases b with
    | true => exact ih (h.snoc rfl rfl rfl)
    | false => exact ih (h.snoc rfl rfl rfl)

end Service

end SourceTrees
