import SourceTrees.Proofs.Service.HandingOver

/-!
# When parses are counted

A parse is counted once, in the turn in which it ends: as built when it returns its tree, as failed when it
ends with the fault of its parser.  Nothing else that a parse does is counted among the parses.

## Results

* `Pool.keptWithin_of_touched` — what requests, leases and waiting leave alone.
* `Service.SameParses` — the same has been counted of parses.
* `Parsing.Tallied`, `Parsing.tallied_resume` — what the turn of a parse counts.
-/

set_option autoImplicit false

namespace SourceTrees

open Work

variable {s s' : Service} {turn : Turn ParseStage Tree}

/-- The same has been counted of parses. -/
def Service.SameParses (s s' : Service) : Prop := s'.counts.parses = s.counts.parses

instance : IsPreorder Service Service.SameParses where
  refl _ := rfl
  trans _ _ _ h h' := h'.trans h

namespace Pool

open Service

/-- What is left alone by all that is done to the pool: requests and parses are counted elsewhere. -/
structure Touched (s s' : Service) : Prop where
  config : s'.config = s.config
  holds : s'.holdsWorkers = s.holdsWorkers
  workers : s'.workers = s.workers
  parses : s'.counts.parses = s.counts.parses
  hits : s'.counts.parsers.hits = s.counts.parsers.hits
  misses : s'.counts.parsers.misses = s.counts.parsers.misses

instance : IsPreorder Service Touched where
  refl _ := ⟨rfl, rfl, rfl, rfl, rfl, rfl⟩
  trans _ _ _ h h' := ⟨h'.config.trans h.config, h'.holds.trans h.holds, h'.workers.trans h.workers,
    h'.parses.trans h.parses, h'.hits.trans h.hits, h'.misses.trans h.misses⟩

theorem touched_change (language : String) (f : Pooled → Pooled) : Within Touched (change language f) :=
  fun _ => ⟨rfl, rfl, rfl, rfl, rfl, rfl⟩

theorem touched_log (line : LogLine) : Within Touched (log line) := fun _ => ⟨rfl, rfl, rfl, rfl, rfl, rfl⟩

theorem touched_callNext (language : String) : Within Touched (callNext language) := by
  intro s
  rw [callNext_run]
  dsimp only
  split <;> exact ⟨rfl, rfl, rfl, rfl, rfl, rfl⟩

theorem touched_take (language : String) : Within Touched (take language) :=
  .bind (touched_change _ _) fun _ => .bind .get fun _ => .done _

theorem touched_create (language : String) (g : Grammar) : Within Touched (create language g) := by
  refine .bind .get fun s => ?_
  split
  · exact .fail _
  · refine .bind (fun _ => ⟨rfl, rfl, rfl, rfl, rfl, rfl⟩) fun r => ?_
    cases r with
    | ok parser =>
      exact .bind (fun _ => ⟨rfl, rfl, rfl, rfl, rfl, rfl⟩) fun _ =>
        .bind (fun _ => ⟨rfl, rfl, rfl, rfl, rfl, rfl⟩) fun _ => .done _
    | error f => exact .ite (.bind (touched_log _) fun _ => .bind .get fun _ => .fail _) (.fail f)

theorem touched_acquire (result : Except Fault String) : Within Touched (acquire result) := by
  cases result with
  | error f => exact .fail f
  | ok language =>
    refine .bind .get fun s => .ite (touched_take _) ?_
    exact .bind (fun _ => ⟨rfl, rfl, rfl, rfl, rfl, rfl⟩) fun _ =>
      .bind (touched_change _ _) fun _ => .restOn _ _

theorem touched_withdraw (language : String) (ticket : PromiseId) (given : Except Fault Reply) :
    Within Touched (resumeLease (.lock language ticket) given) := by
  refine .bind (touched_change _ _) fun _ => ?_
  cases given with
  | ok r => exact touched_take _
  | error f => exact .bind .get fun s => .ite (.fail f) (.bind (touched_callNext _) fun _ => .fail f)

/-- It is enough to look at what is left alone by all that is done to the pool, and by remote work. -/
theorem keptWithin_of_touched {R : Service → Service → Prop} (hr : ∀ {s s'}, Remote s s' → R s s')
    (ht : ∀ {s s'}, Touched s s' → R s s') : KeptWithin R where
  remote := hr
  grammarCame language result :=
    (within_grammarCame touched_create language result).mono fun _ _ => ht
  acquire result := (touched_acquire result).mono fun _ _ => ht
  withdraw language ticket given := (touched_withdraw language ticket given).mono fun _ _ => ht
  release language :=
    (Within.bind (touched_change _ _) fun _ => touched_callNext language).mono fun _ _ => ht

/-- Nothing that is done to the pool is counted among the parses. -/
theorem keptWithin_sameParses : KeptWithin SameParses :=
  keptWithin_of_touched (fun h => h.parses) fun h => h.parses

end Pool

/-- A parse that waits its job out does so with a cancellation. -/
def ParseStage.IsSound : ParseStage → Prop
  | .draining _ _ _ f => f.kind = .cancelled
  | _ => True

namespace Parsing

open Service

/-- The turn returns no tree. -/
def GoesOn : Turn ParseStage Tree → Prop
  | .rest _ point | .giveWay point => point.IsSound
  | .finish (.ok _) => False
  | .finish (.error _) => True

/-- What the turn of a parse counts.  A tree is counted as it is returned, and a failure as it ends the
    parse. -/
inductive Tallied (s : Service) : Turn ParseStage Tree → Service → Prop
  | same {turn : Turn ParseStage Tree} {s' : Service} (h : SameParses s s') (ht : GoesOn turn) :
      Tallied s turn s'
  | built {t : Tree} {s' : Service}
      (h : s'.counts.parses = { s.counts.parses with built := s.counts.parses.built + 1 }) :
      Tallied s (.finish (.ok t)) s'
  | failed {f : Fault} {s' : Service} (hf : f.kind = .parse)
      (h : s'.counts.parses = { s.counts.parses with failures := s.counts.parses.failures + 1 }) :
      Tallied s (.finish (.error f)) s'

/-- The turns that the work ends in count parses as they should. -/
def Tallies (f : Work (Turn ParseStage Tree)) : Prop := ∀ s, Tallied s (f s).1 (f s).2

namespace Tallies

variable {α P : Type} {language : String} {source : List UInt8} {crew : Crew}

theorem fail (f : Fault) : Tallies (Work.fail f) := fun _ => .same rfl trivial

theorem restOn (p : PromiseId) {point : ParseStage} (h : point.IsSound) : Tallies (Work.restOn p point) :=
  fun _ => .same rfl h

/-- What is counted before is not counted among the parses. -/
theorem bind {f : Work α} {g : α → Work (Turn ParseStage Tree)} (hf : Within SameParses f)
    (hg : ∀ a, Tallies (g a)) : Tallies (f >>= g) := by
  intro s
  have hcounts : SameParses s (f s).2 := hf s
  have hturn := hg (f s).1 (f s).2
  show Tallied s (g (f s).1 (f s).2).1 (g (f s).1 (f s).2).2
  revert hturn
  generalize (g (f s).1 (f s).2).1 = turn
  intro hturn
  cases hturn with
  | same h ht => exact .same (h.trans hcounts) ht
  | built h => exact .built (by rw [h, hcounts])
  | failed hf h => exact .failed hf (by rw [h, hcounts])

theorem ite {b : Prop} [Decidable b] {f g : Work (Turn ParseStage Tree)} (h : Tallies f)
    (h' : Tallies g) : Tallies (if b then f else g) := by
  split
  · exact h
  · exact h'

theorem andThen {turn : Turn P α} {wrap : P → ParseStage} {next : Except Fault α → Work (Turn ParseStage Tree)}
    (hw : ∀ point, (wrap point).IsSound) (h : ∀ r, Tallies (next r)) :
    Tallies (Work.andThen turn wrap next) := by
  cases turn with
  | rest on point | giveWay point => exact fun _ => .same rfl (hw point)
  | finish r => exact h r

/-- Work that counts a failure, and then ends with a fault of the kind. -/
theorem countFailure {f : Fault} (hf : f.kind = .parse) {g : Work (Turn ParseStage Tree)}
    (hg : Within SameParses g) (hend : ∀ s, (g s).1 = .finish (.error f)) :
    Tallies (Parsing.countFailure >>= fun _ => g) := by
  intro s
  have hcounts := hg (Parsing.countFailure s).2
  show Tallied s (g (Parsing.countFailure s).2).1 (g (Parsing.countFailure s).2).2
  rw [hend]
  exact .failed hf hcounts

theorem leased (result : Except Fault Nat) : Tallies (Parsing.leased language source crew result) := by
  cases result with
  | error f => exact .fail f
  | ok parser =>
    refine .bind (Pool.keptWithin_sameParses.of_remote (remote_submit _ _)) fun r => ?_
    cases r with
    | error f => exact .bind (Pool.keptWithin_sameParses.release language) fun _ => .fail f
    | ok job =>
      exact .bind (Pool.keptWithin_sameParses.of_remote (remote_onLoop fun _ => .shield job))
        fun _ => .restOn _ trivial

theorem borrow : Tallies (Parsing.borrow language source) :=
  .bind .get fun _ => .bind (Pool.keptWithin_sameParses.lease (fun h _ => h _) _) fun _ => .andThen (fun _ => trivial) .leased

theorem request (code : Code) (language : Json) : Tallies (Parsing.request code language) := by
  refine .bind .get fun s => ?_
  cases s.validate language with
  | error f => exact .fail f
  | ok name =>
    cases code.toSource with
    | error f => exact .fail f
    | ok source =>
      refine .bind (Pool.keptWithin_sameParses.of_remote Boot.remote_attach) fun r => ?_
      cases r with
      | some p => exact .restOn _ trivial
      | none => exact .borrow

theorem copy (root : Node) : Tallies (Parsing.copy language source crew root) := by
  refine .bind (Pool.keptWithin_sameParses.of_remote (remote_submit _ _)) fun r => ?_
  cases r with
  | ok p => exact .restOn _ trivial
  | error f => exact .fail f

theorem drain (job : PromiseId) {cancellation : Fault} (h : cancellation.kind = .cancelled) :
    Tallies (Parsing.drain language job cancellation) := by
  refine .bind .get fun _ => .ite ?_ ?_
  · refine .bind (Pool.keptWithin_sameParses.of_remote (remote_onLoop fun _ => .waiter job)) fun w => ?_
    exact .restOn w h
  · exact .bind (Pool.keptWithin_sameParses.release language) fun _ => .fail _

/-- **A parse is counted as it ends.** -/
theorem resume {stage : ParseStage} (h : stage.IsSound) (given : Except Fault Reply) :
    Tallies (Parsing.resume stage given) := by
  cases stage with
  | booting language source =>
    cases given with
    | error f => exact .fail f
    | ok r => exact .borrow
  | leasing language source crew point =>
    exact .bind (Pool.keptWithin_sameParses.resumeLease point given) fun _ => .andThen (fun _ => trivial) .leased
  | running language source crew job =>
    cases given with
    | ok r =>
      refine .bind (Pool.keptWithin_sameParses.release language) fun _ => ?_
      cases r.toEngineTree with
      | some root => exact .copy root
      | none => exact .countFailure rfl (.fail _) fun _ => rfl
    | error f =>
      rw [Parsing.resume]
      split
      · exact .drain job ‹_›
      refine .ite ?_ ?_
      · refine .countFailure rfl ?_ fun _ => rfl
        exact .bind (.mono (remote_log _) fun _ _ h => h.parses) fun _ =>
          .bind (Pool.keptWithin_sameParses.release language) fun _ => .fail _
      · exact .bind (Pool.keptWithin_sameParses.release language) fun _ => .fail f
  | draining language job waiter cancellation =>
    exact .bind (Pool.keptWithin_sameParses.of_remote (remote_changeLoop fun _ => .unsubscribe _ _))
      fun _ => .drain job h
  | copying language =>
    cases given with
    | error f => exact .fail f
    | ok r =>
      cases r with
      | tree t => exact fun s => .built rfl
      | _ => exact .fail _

end Tallies

end Parsing

end SourceTrees
