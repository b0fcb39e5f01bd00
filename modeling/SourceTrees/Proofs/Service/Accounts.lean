import Mathlib.Data.Set.Card
import SourceTrees.Proofs.Service.LeaseCounts
import SourceTrees.Proofs.Service.OwnTrees
import SourceTrees.Proofs.Service.ParseFaults
import SourceTrees.Proofs.Service.RequestCounts

/-!
# Leases and outcomes add up

The counters of leases, of trees and failures, and of requests to the pool live in three places, and a
parse leaves by five ways.  In every run they agree: every lease that was ever granted belongs to a parse
that has been counted, or has ended in a cancellation, or has not ended yet.

## Protocol

* A task **was granted** a lease if at some moment of the run it had the parser in hand.
* Calls of all kinds come and are cancelled, at any time; only nobody borrows a parser for its own sake,
  and the service is not closed.

## Results

* `Service.Balanced`, `Service.Balanced.step` — the invariant.
* `Service.Accounts` — the law of a run.
* **`Service.accounts`** — every run obeys it.
-/

set_option autoImplicit false

namespace SourceTrees.Service

open Loop

variable {s : Service} {roles roles' : Roles Hook Job} {w : Woken} {m : Midst} {mv : Service.Move}
  {ms : List Service.Move} {t : PromiseId} {point : Stage} {on : Option PromiseId}
  {turn : Turn Stage Reply} {language : String}

/-- In the course of the run the task was granted a lease. -/
def Granted (s : Service) (ms : List Service.Move) (t : PromiseId) : Prop :=
  Sometime (fun now => ∃ language, now.Inside t language) s ms

/-- The move begins a call that asks for a lease for its own sake. -/
def Move.borrows : Service.Move → Bool
  | .act (.spawn (.lease ..)) => true
  | _ => false

/-- The law of a run. -/
structure Accounts (s : Service) (ms : List Service.Move) : Prop where
  /-- Leases are granted to calls that the run has begun, and that parse. -/
  parses : ∀ {t}, Granted s ms t → ∃ call, Began s ms call t ∧ call.parses = true
  /-- There are finitely many of them, and their number is the sum of the lease counters. -/
  finite : {t | Granted s ms t}.Finite
  granted : (s.moves ms).lent = {t | Granted s ms t}.ncard
  /-- A parse that was granted its lease has been counted as built or as failed, or has ended in a
      cancellation, or has not ended. -/
  leases : (s.moves ms).lent =
    (s.moves ms).counts.parses.built + (s.moves ms).counts.parses.failures +
      {t | Granted s ms t ∧ (s.moves ms).loop.outcome? t = some .cancelled}.ncard +
      {t | Granted s ms t ∧ (s.moves ms).isFinished t = false}.ncard
  /-- Every request for the parser of a supported language that was started has been counted, as a hit or
      as a miss. -/
  requests : (s.moves ms).counts.parsers.hits + (s.moves ms).counts.parsers.misses = requests s ms

/-! ## Who was granted a lease -/

/-- A task has ended with anything but a cancellation. -/
def Closed (s : Service) (t : PromiseId) : Prop := ∃ o, s.loop.outcome? t = some o ∧ o ≠ .cancelled

/-- Tasks of calls rest where calls rest that ask for no lease for its own sake. -/
def LeaseFree (s : Service) : Prop :=
  ∀ {t point on}, s.loop.place? t = some (point, on) → point.role = .call →
    ∃ call, point.Suits call ∧ ∀ holder language, call ≠ .lease holder language

/-- Who has a parser in hand rests late in a parse. -/
theorem LeaseFree.late (h : LeaseFree s) (hi : s.Inside t language) :
    ∃ point on, s.loop.place? t = some (point, on) ∧ point.isLate = true := by
  unfold Inside at hi
  obtain ⟨point, on, hp, hg⟩ := exists_place?_of_gripAt (t := t) fun hfree => by rw [hfree] at hi; exact hi
  rw [hg] at hi
  have hcall : point.role = .call := by
    cases point with
    | boot stage => cases stage <;> exact hi.elim
    | fetch stage => cases stage <;> exact hi.elim
    | _ => rfl
  obtain ⟨call, hsuits, hlease⟩ := h hp hcall
  exact ⟨point, on, hp, Stage.isLate_of_holds hsuits hlease hi⟩

namespace Granted

/-- A lease is granted before the last move, or the task has the parser in hand now. -/
theorem snoc_iff : Granted s (ms ++ [mv]) t ↔
    Granted s ms t ∨ ∃ language, (s.moves (ms ++ [mv])).Inside t language :=
  ⟨Sometime.of_snoc, fun h => h.elim (fun h => h.append [mv]) fun hi => Sometime.now hi⟩

/-- Who was granted a lease still rests somewhere, or has ended. -/
theorem placed_or_ended (ho : AtRest s roles) (h : Granted s ms t) :
    (∃ point on, (s.moves ms).loop.place? t = some (point, on)) ∨
      ∃ o, (s.moves ms).loop.outcome? t = some o := by
  obtain ⟨before, after, rfl, language, hi⟩ := h
  obtain ⟨_, hbefore⟩ := ho.atRest_moves before
  obtain ⟨point, on, hp, _⟩ := exists_place?_of_gripAt (t := t) fun hfree => by
    rw [Inside, hfree] at hi
    exact hi
  have hkeeps : Keeps (fun _ _ => True) (fun _ _ => True) t (fun _ _ => True) fun _ _ => True :=
    ⟨fun _ _ _ _ _ => trivial, fun {_ _ _ _ _ turn} _ _ _ _ _ _ _ => by cases turn <;> trivial,
      fun _ _ _ _ _ => trivial, fun _ _ _ _ _ => trivial⟩
  obtain ⟨_, -, -, hbecomes⟩ := Becomes.along hkeeps hbefore (along_of_forall (fun _ _ => trivial) after)
    trivial (.inl ⟨point, on, hp, trivial⟩)
  rw [moves_append]
  exact hbecomes.imp (fun ⟨point, on, hp, _⟩ => ⟨point, on, hp⟩) fun ⟨o, ho, _⟩ => ⟨o, ho⟩

theorem lt_size (ho : AtRest s roles) (h : Granted s ms t) : t < (s.moves ms).loop.promises.size := by
  obtain ⟨_, hend⟩ := ho.atRest_moves ms
  rcases h.placed_or_ended ho with ⟨point, on, hp⟩ | ⟨o, hout⟩
  · obtain ⟨task, hget, _⟩ := place?_eq_some_iff.1 hp
    exact hend.sound.known hget
  · exact outcome?_lt hout

theorem finite (ho : AtRest s roles) (ms : List Service.Move) : {t | Granted s ms t}.Finite :=
  (Set.finite_lt_nat (s.moves ms).loop.promises.size).subset fun _ h => lt_size ho h

end Granted

/-! ## The invariant -/

/-- What carries the law from step to step. -/
structure Balanced (s : Service) (ms : List Service.Move) (roles : Roles Hook Job) : Prop where
  works : WorksWell (s.moves ms) roles
  late : ∀ {t point on}, (s.moves ms).loop.place? t = some (point, on) →
    (Granted s ms t ↔ point.isLate = true)
  lent : (s.moves ms).lent = {t | Granted s ms t}.ncard
  accounted : (s.moves ms).accounted = {t | Granted s ms t ∧ Closed (s.moves ms) t}.ncard

/-- Two sets that differ in one member at most. -/
theorem ncard_eq_of_iff {A B : Set PromiseId} {a : PromiseId} (h : ∀ t, t ≠ a → (t ∈ B ↔ t ∈ A))
    (ha : a ∈ B ↔ a ∈ A) : B.ncard = A.ncard :=
  congrArg Set.ncard <| Set.ext fun t => by
    by_cases he : t = a
    · exact he ▸ ha
    · exact h t he

theorem ncard_eq_succ {A B : Set PromiseId} {a : PromiseId} (hA : A.Finite)
    (h : ∀ t, t ≠ a → (t ∈ B ↔ t ∈ A)) (hB : a ∈ B) (ha : a ∉ A) : B.ncard = A.ncard + 1 := by
  have hins : B = insert a A := Set.ext fun t => by
    by_cases he : t = a
    · simp [he, hB]
    · simp [he, h t he]
  rw [hins, Set.ncard_insert_of_notMem ha hA]

namespace Balanced

theorem opened {world : World} (hw : world.RaisesWell) (config : Config) (eager : Bool)
    (stuck : Option Fault) (log : List LogLine) :
    Balanced (Service.opened config world eager stuck log) [] fun _ => .unused := by
  have hnone : ∀ t, ¬ Granted (Service.opened config world eager stuck log) [] t := by
    rintro t ⟨before, after, he, language, hi⟩
    obtain ⟨rfl, rfl⟩ := List.append_eq_nil_iff.1 he.symm
    have hfree : ((Service.opened config world eager stuck log).moves []).gripAt t = .free :=
      congrFun (gripAt_opened ..) t
    rw [Inside, hfree] at hi
    exact hi
  refine ⟨.opened hw config eager stuck log, fun hp => ?_, ?_, ?_⟩
  · simp [moves, Loop.place?, Keyed.get?, Keyed.empty, Keyed.lookIn] at hp
  · have hlent : (Service.opened config world eager stuck log).lent = 0 := by
      rw [Service.lent, pool_opened]
      rfl
    simpa [moves, hnone] using hlent
  · simp [moves, hnone, Service.accounted]

/-- Who stays where it is, if it rests somewhere, is settled as it was. -/
theorem closed_iff {roles₀ : Roles Hook Job} (hstart : AtRest s roles₀) (ho : AtRest (s.moves ms) roles)
    (hst : Step (s.moves ms) roles mv (s.moves (ms ++ [mv])) roles') (hg : Granted s ms t)
    (hstay : ∀ point on, (s.moves ms).loop.place? t = some (point, on) →
      ∃ point on, (s.moves (ms ++ [mv])).loop.place? t = some (point, on)) :
    Closed (s.moves (ms ++ [mv])) t ↔ Closed (s.moves ms) t := by
  have hsame : (s.moves (ms ++ [mv])).loop.outcome? t = (s.moves ms).loop.outcome? t := by
    rcases hg.placed_or_ended hstart with ⟨point, on, hp⟩ | ⟨o, hout⟩
    · obtain ⟨point', on', hp'⟩ := hstay point on hp
      rw [outcome?_of_isPending (ho.isPending_of_place? hp),
        outcome?_of_isPending ((ho.step hst).1.isPending_of_place? hp')]
    · rw [hout, hst.outcome?_of_some hout]
  rw [Closed, Closed, hsame]

/-- Who stays where it is has been granted a lease if it had been; who has just begun, has not. -/
theorem late_of_stays (h : Balanced s ms roles) {roles₀ : Roles Hook Job} (hstart : AtRest s roles₀)
    (ho : AtRest (s.moves ms) roles)
    (hst : Step (s.moves ms) roles mv (s.moves (ms ++ [mv])) roles')
    (hiff : Granted s (ms ++ [mv]) t ↔ Granted s ms t)
    (hstay : ∀ {point on}, (s.moves ms).loop.place? t = some (point, on) →
      (s.moves (ms ++ [mv])).loop.place? t = some (point, on))
    (hp : (s.moves (ms ++ [mv])).loop.place? t = some (point, on))
    (hcame : (s.moves ms).loop.place? t = some (point, on) ∨ point.isLate = false) :
    Granted s (ms ++ [mv]) t ↔ point.isLate = true := by
  rw [hiff]
  rcases hcame with hp' | hearly
  · exact h.late hp'
  · refine ⟨fun hg => ?_, fun hlate => absurd (hearly.symm.trans hlate) (by decide)⟩
    rcases hg.placed_or_ended hstart with ⟨point', on', hp'⟩ | ⟨o, hout⟩
    · obtain ⟨rfl, -⟩ := Prod.mk.inj (Option.some.inj ((hstay hp').symm.trans hp))
      exact (h.late hp').1 hg
    · have hopen := (ho.step hst).1.isPending_of_place? hp
      rw [isPending_of_outcome? (hst.outcome?_of_some hout)] at hopen
      cases hopen

/-- What happens between turns changes nothing. -/
theorem aside (h : Balanced s ms roles) {roles₀ : Roles Hook Job} (hstart : AtRest s roles₀)
    (ho : AtRest (s.moves ms) roles)
    (hst : Step (s.moves ms) roles mv (s.moves (ms ++ [mv])) roles')
    (ha : Aside (s.moves ms) roles (s.moves (ms ++ [mv])) roles') : Balanced s (ms ++ [mv]) roles' := by
  have hiff : ∀ t, Granted s (ms ++ [mv]) t ↔ Granted s ms t := fun t => by
    rw [Granted.snoc_iff]
    refine ⟨fun hg => hg.elim id fun ⟨language, hi⟩ => Sometime.now ⟨language, ?_⟩, .inl⟩
    rwa [Inside, ha.gripAt_eq] at hi
  refine ⟨h.works.step ho hst, fun {t point on} hp => ?_, ?_, ?_⟩
  · refine h.late_of_stays hstart ho hst (hiff t) ha.stays hp ((ha.came hp).imp_right ?_)
    rintro ⟨call, rfl, -⟩
    rfl
  · rw [lent_congr ha.pool, h.lent]
    simp only [hiff]
  · rw [Service.accounted, ha.counts, ← Service.accounted, h.accounted]
    refine congrArg Set.ncard (Set.ext fun t => ?_)
    rw [Set.mem_ofPred_eq, Set.mem_ofPred_eq, hiff]
    exact and_congr_right fun hg =>
      (closed_iff hstart ho hst hg fun _ _ hp => ⟨_, _, ha.stays hp⟩).symm

end Balanced

/-- What a turn has entered into the books is what it has changed for its task. -/
structure Entered (s : Service) (ms : List Service.Move) (mv : Service.Move) (t : PromiseId) : Prop where
  lent : (s.moves (ms ++ [mv])).lent = (s.moves ms).lent ∧ (Granted s (ms ++ [mv]) t ↔ Granted s ms t) ∨
    (s.moves (ms ++ [mv])).lent = (s.moves ms).lent + 1 ∧ Granted s (ms ++ [mv]) t ∧ ¬ Granted s ms t
  accounted : (s.moves (ms ++ [mv])).accounted = (s.moves ms).accounted ∧
      ¬ (Granted s (ms ++ [mv]) t ∧ Closed (s.moves (ms ++ [mv])) t) ∨
    (s.moves (ms ++ [mv])).accounted = (s.moves ms).accounted + 1 ∧
      Granted s (ms ++ [mv]) t ∧ Closed (s.moves (ms ++ [mv])) t
  late : ∀ {point on}, (s.moves (ms ++ [mv])).loop.place? t = some (point, on) →
    (Granted s (ms ++ [mv]) t ↔ point.isLate = true)

/-- A turn enters into the books what it changes for its task. -/
theorem HasTurn.entered (ht : HasTurn (s.moves ms) roles w m turn)
    (ho : AtRest (s.moves (ms ++ [mv])) roles')
    (hbooks : CallBooks (s.moves ms) w.stage.isLate turn (s.moves (ms ++ [mv])))
    (hlate : Granted s ms w.task ↔ w.stage.isLate = true) (hf : LeaseFree (s.moves (ms ++ [mv])))
    (he : s.moves (ms ++ [mv]) = m.after w.task turn) : Entered s ms mv w.task := by
  have hplace : ∀ {point on}, (∃ p, turn = .rest p point ∧ on = some p) ∨ turn = .giveWay point ∧ on = none →
      (s.moves (ms ++ [mv])).loop.place? w.task = some (point, on) := by
    rintro point on (⟨p, rfl, rfl⟩ | ⟨rfl, rfl⟩) <;> rw [he, place?_conclude, if_pos rfl]
  have hgone : ∀ {r}, turn = .finish r → (s.moves (ms ++ [mv])).loop.place? w.task = none := by
    rintro r rfl
    rw [he, place?_conclude, if_pos rfl]
  have hended : ∀ {r}, turn = .finish r →
      (s.moves (ms ++ [mv])).loop.outcome? w.task = some (Program.ended r) := by
    rintro r rfl
    rw [he, outcome?_finish ht.inTurn.unfinished.2]
  -- Who comes to rest early, or ends, has no parser in hand.
  have hearly : ∀ {point on}, (s.moves (ms ++ [mv])).loop.place? w.task = some (point, on) →
      point.isLate = false → ¬ Granted s ms w.task → ¬ Granted s (ms ++ [mv]) w.task := by
    intro point on hp hpoint hno hg
    obtain ⟨language, hi⟩ := (Granted.snoc_iff.1 hg).resolve_left hno
    obtain ⟨point', on', hp', hlate'⟩ := hf.late hi
    obtain ⟨rfl, -⟩ := Prod.mk.inj (Option.some.inj (hp.symm.trans hp'))
    exact absurd (hpoint.symm.trans hlate') (by decide)
  have hover : ∀ {r}, turn = .finish r → (Granted s (ms ++ [mv]) w.task ↔ Granted s ms w.task) := by
    intro r hr
    refine ⟨fun hg => (Granted.snoc_iff.1 hg).resolve_right ?_, fun hg => hg.append [mv]⟩
    rintro ⟨language, hi⟩
    obtain ⟨point, on, hp, -⟩ := hf.late hi
    rw [hgone hr] at hp
    cases hp
  have hrests : ∀ {point on}, (s.moves (ms ++ [mv])).loop.place? w.task = some (point, on) →
      ¬ Closed (s.moves (ms ++ [mv])) w.task := by
    rintro point on hp ⟨o, hout, -⟩
    rw [outcome?_of_isPending (ho.isPending_of_place? hp)] at hout
    cases hout
  have hwaits : ∀ {point on}, (s.moves (ms ++ [mv])).loop.place? w.task = some (point, on) →
      SameBooks (s.moves ms) (s.moves (ms ++ [mv])) → point.isLate = false → ¬ Granted s ms w.task →
      Entered s ms mv w.task := by
    intro point on hp hsame hpoint hno
    have hno' := hearly hp hpoint hno
    refine ⟨.inl ⟨hsame.lent, iff_of_false hno' hno⟩, .inl ⟨hsame.accounted, fun hg => hno' hg.1⟩,
      fun {point' on'} hp' => ?_⟩
    obtain ⟨rfl, -⟩ := Prod.mk.inj (Option.some.inj (hp.symm.trans hp'))
    exact iff_of_false hno' (by rw [hpoint]; decide)
  have hends : ∀ {r}, turn = .finish r → ∀ {point on},
      (s.moves (ms ++ [mv])).loop.place? w.task = some (point, on) →
      (Granted s (ms ++ [mv]) w.task ↔ point.isLate = true) := by
    intro r hr point on hp
    rw [hgone hr] at hp
    cases hp
  generalize w.stage.isLate = late at hbooks hlate
  cases hbooks with
  | waits hsame hp => exact hwaits (hplace (.inl ⟨_, rfl, rfl⟩)) hsame hp (by simp [hlate])
  | givesWay hsame hp => exact hwaits (hplace (.inr ⟨rfl, rfl⟩)) hsame hp (by simp [hlate])
  | refused hsame =>
    refine ⟨.inl ⟨hsame.lent, hover rfl⟩, .inl ⟨hsame.accounted, fun hg => ?_⟩, hends rfl⟩
    cases hlate.1 ((hover rfl).1 hg.1)
  | @granted on point _ hl ha hp hg =>
    have hplaced := hplace (.inl ⟨on, rfl, rfl⟩)
    have hgranted : Granted s (ms ++ [mv]) w.task := by
      obtain ⟨language, hholds⟩ := hg
      refine Sometime.now ⟨language, ?_⟩
      rwa [Inside, gripAt_of_place? hplaced]
    refine ⟨.inr ⟨hl, hgranted, by simp [hlate]⟩, .inl ⟨ha, fun hg => hrests hplaced hg.2⟩, fun hp' => ?_⟩
    obtain ⟨rfl, -⟩ := Prod.mk.inj (Option.some.inj (hplaced.symm.trans hp'))
    exact iff_of_true hgranted hp
  | @works on point _ hsame hp =>
    have hplaced := hplace (.inl ⟨on, rfl, rfl⟩)
    have hbefore : Granted s ms w.task := hlate.2 rfl
    have hgranted := hbefore.append [mv]
    refine ⟨.inl ⟨hsame.lent, iff_of_true hgranted hbefore⟩,
      .inl ⟨hsame.accounted, fun hg => hrests hplaced hg.2⟩, fun hp' => ?_⟩
    obtain ⟨rfl, -⟩ := Prod.mk.inj (Option.some.inj (hplaced.symm.trans hp'))
    exact iff_of_true hgranted hp
  | abandoned hsame hr =>
    refine ⟨.inl ⟨hsame.lent, hover rfl⟩, .inl ⟨hsame.accounted, fun ⟨_, o, hout, hne⟩ => hne ?_⟩, hends rfl⟩
    exact (Option.some.inj (hout.symm.trans (hended rfl))).trans hr
  | closed hl ha hr =>
    have hbefore : Granted s ms w.task := hlate.2 rfl
    exact ⟨.inl ⟨hl, hover rfl⟩, .inr ⟨ha, hbefore.append [mv], _, hended rfl, hr⟩, hends rfl⟩

namespace Balanced

theorem of_turn (h : Balanced s ms roles) {roles₀ : Roles Hook Job} (hstart : AtRest s roles₀)
    (ho : AtRest (s.moves ms) roles)
    (hst : Step (s.moves ms) roles mv (s.moves (ms ++ [mv])) roles')
    (hd : (s.moves ms).workers.dismissed = false) (hf : LeaseFree (s.moves ms))
    (hf' : LeaseFree (s.moves (ms ++ [mv]))) (ht : HasTurn (s.moves ms) roles w m turn)
    (he : s.moves (ms ++ [mv]) = m.after w.task turn) : Balanced s (ms ++ [mv]) roles' := by
  obtain ⟨on₀, hplace⟩ := ht.place
  obtain ⟨i, hb⟩ := ht.before
  have hbefore : SameBooks (s.moves ms) w.before := by
    rw [hb]
    exact ⟨rfl, rfl⟩
  have hafter : SameBooks m.service (s.moves (ms ++ [mv])) := by
    rw [he]
    exact ⟨rfl, rfl⟩
  have hbooks := ((ht.books ho h.works hd fun hr => hf hplace hr).of_same hbefore).then_same hafter
  have hentered : Entered s ms mv w.task := ht.entered (ho.step hst).1 hbooks (h.late hplace) hf' he
  have hstay : ∀ {t}, t ≠ w.task → ∀ {point on}, (s.moves ms).loop.place? t = some (point, on) →
      (s.moves (ms ++ [mv])).loop.place? t = some (point, on) := fun hne _ _ hp => by
    rw [he]
    exact ht.stays ho hne hp
  have hiff : ∀ t, t ≠ w.task → (Granted s (ms ++ [mv]) t ↔ Granted s ms t) := fun t hne => by
    rw [Granted.snoc_iff]
    refine ⟨fun hg => hg.elim id fun ⟨language, hi⟩ => Sometime.now ⟨language, ?_⟩, .inl⟩
    rw [Inside, he, ht.gripAt_conclude, gripsAfter_of_ne hne, hb] at hi
    exact hi
  have hclosed : ∀ t, t ≠ w.task → (t ∈ {t | Granted s (ms ++ [mv]) t ∧ Closed (s.moves (ms ++ [mv])) t} ↔
      t ∈ {t | Granted s ms t ∧ Closed (s.moves ms) t}) := fun t hne => by
    rw [Set.mem_ofPred_eq, Set.mem_ofPred_eq, hiff t hne]
    exact and_congr_right fun hg => closed_iff hstart ho hst hg fun _ _ hp => ⟨_, _, hstay hne hp⟩
  have hopen : ¬ (Granted s ms w.task ∧ Closed (s.moves ms) w.task) := by
    rintro ⟨-, o, hout, -⟩
    rw [outcome?_of_isPending (ho.isPending_of_place? hplace)] at hout
    cases hout
  have hfinite := Granted.finite hstart ms
  refine ⟨h.works.step ho hst, fun {t point on} hp => ?_, ?_, ?_⟩
  · by_cases hne : t = w.task
    · subst hne
      exact hentered.late hp
    · refine h.late_of_stays hstart ho hst (hiff t hne) (hstay hne) hp ?_
      rw [he, place?_conclude, if_neg hne] at hp
      rcases Strides.place?_cases ht.strides hp with hp | ⟨-, rfl | ⟨l, rfl⟩ | ⟨l, rfl⟩⟩
      · left
        rwa [hb] at hp
      all_goals exact .inr rfl
  · rcases hentered.lent with ⟨hl, hsame⟩ | ⟨hl, hnew, hold⟩
    · rw [hl, h.lent]
      exact (ncard_eq_of_iff hiff hsame).symm
    · rw [hl, h.lent]
      exact (ncard_eq_succ hfinite hiff hnew hold).symm
  · rcases hentered.accounted with ⟨ha, hnone⟩ | ⟨ha, hnew⟩
    · rw [ha, h.accounted]
      exact (ncard_eq_of_iff hclosed (iff_of_false hnone hopen)).symm
    · rw [ha, h.accounted]
      exact (ncard_eq_succ (hfinite.subset fun _ hg => hg.1) hclosed hnew hopen).symm

/-- **Every step keeps the balance**, as long as the service is not closed and nobody borrows a parser for
    its own sake. -/
theorem step (h : Balanced s ms roles) {roles₀ : Roles Hook Job} (hstart : AtRest s roles₀)
    (ho : AtRest (s.moves ms) roles)
    (hst : Step (s.moves ms) roles mv (s.moves (ms ++ [mv])) roles')
    (hd : (s.moves ms).workers.dismissed = false) (hf : LeaseFree (s.moves ms))
    (hf' : LeaseFree (s.moves (ms ++ [mv]))) : Balanced s (ms ++ [mv]) roles' := by
  rcases hst.aside_or_turn ho with ha | ⟨w, m, turn, ht, he, -⟩
  · exact h.aside hstart ho hst ha
  · exact h.of_turn hstart ho hst hd hf hf' ht he

end Balanced

/-! ## Runs -/

/-- Nobody borrows a parser for its own sake in a run that begins no such call. -/
theorem leaseFree (config : Config) (world : World) (eager : Bool) (stuck : Option Fault)
    (log : List LogLine) {before after : List Service.Move}
    (h : ∀ mv ∈ before ++ after, mv.borrows = false) :
    LeaseFree ((opened config world eager stuck log).moves before) := by
  intro t point on hp hr
  obtain ⟨call, hbegun, hsuits⟩ := (CallsBegun.of_run config world eager stuck log before).suits hp hr
  refine ⟨call, hsuits, ?_⟩
  rintro holder language rfl
  rcases hbegun with ⟨b, a, rfl, -⟩ | ⟨language', he⟩
  · have hnone := h (.act (.spawn (.lease holder language))) (by simp)
    cases hnone
  · cases he

/-- Leases are granted to calls that the run has begun, and that parse. -/
theorem Granted.exists_began {config : Config} {world : World} {eager : Bool} {stuck : Option Fault}
    {log : List LogLine} (h : ∀ mv ∈ ms, mv.borrows = false)
    (hg : Granted (opened config world eager stuck log) ms t) :
    ∃ call, Began (opened config world eager stuck log) ms call t ∧ call.parses = true := by
  obtain ⟨before, after, rfl, language, hi⟩ := hg
  have hf : LeaseFree ((opened config world eager stuck log).moves before) :=
    leaseFree config world eager stuck log h
  obtain ⟨point, on, hp, hlate⟩ := hf.late hi
  cases point with
  | parse use point =>
    obtain ⟨call, hbegun, hparses, -⟩ :=
      (CallsBegun.of_run config world eager stuck log before).suits hp rfl
    rcases hbegun with hb | ⟨language', rfl⟩
    · exact ⟨call, hb.append after, hparses⟩
    · cases hparses
  | _ => cases hlate

/-- Who was granted a lease has been counted, or has ended in a cancellation, or has not ended. -/
theorem Balanced.sum (h : Balanced s ms roles) {roles₀ : Roles Hook Job} (hstart : AtRest s roles₀) :
    (s.moves ms).lent = (s.moves ms).accounted +
      {t | Granted s ms t ∧ (s.moves ms).loop.outcome? t = some .cancelled}.ncard +
      {t | Granted s ms t ∧ (s.moves ms).isFinished t = false}.ncard := by
  have hfinite := Granted.finite hstart ms
  have hclosed := hfinite.subset fun t (ht : t ∈ {t | Granted s ms t ∧ Closed (s.moves ms) t}) => ht.1
  have hcancelled := hfinite.subset
    fun t (ht : t ∈ {t | Granted s ms t ∧ (s.moves ms).loop.outcome? t = some .cancelled}) => ht.1
  have hopen := hfinite.subset
    fun t (ht : t ∈ {t | Granted s ms t ∧ (s.moves ms).isFinished t = false}) => ht.1
  rw [h.lent, h.accounted, ← Set.ncard_union_eq ?apart hclosed hcancelled,
    ← Set.ncard_union_eq ?ended (hclosed.union hcancelled) hopen]
  case apart =>
    refine Set.disjoint_left.2 ?_
    rintro t ⟨-, o, hout, hne⟩ ⟨-, hc⟩
    exact hne (Option.some.inj (hout.symm.trans hc))
  case ended =>
    refine Set.disjoint_left.2 fun t ht ht' => ?_
    have hsettled : ∃ o, (s.moves ms).loop.outcome? t = some o := by
      rcases ht with ⟨-, o, hout, -⟩ | ⟨-, hout⟩
      · exact ⟨o, hout⟩
      · exact ⟨_, hout⟩
    obtain ⟨o, hout⟩ := hsettled
    have hfalse := ht'.2
    rw [isFinished, isPending_of_outcome? hout] at hfalse
    cases hfalse
  refine congrArg Set.ncard (Set.ext fun t => ⟨fun hg => ?_, fun hg => ?_⟩)
  · rcases isPending_or_settled (hg.lt_size hstart) with hp | ⟨o, hout⟩
    · exact .inr ⟨hg, by rw [isFinished, hp]; rfl⟩
    · by_cases hc : o = .cancelled
      · exact .inl (.inr ⟨hg, hc ▸ hout⟩)
      · exact .inl (.inl ⟨hg, o, hout, hc⟩)
  · rcases hg with (hg | hg) | hg <;> exact hg.1

/-- **Leases and outcomes add up**, in every run of parses, cancellations and other calls in which nobody
    borrows a parser for its own sake and the service is not closed. -/
theorem accounts {world : World} (hw : world.RaisesWell) (config : Config) (eager : Bool)
    (stuck : Option Fault) (log : List LogLine) {ms : List Service.Move}
    (hlease : ∀ mv ∈ ms, mv.borrows = false)
    (hopen : ((opened config world eager stuck log).moves ms).workers.dismissed = false) :
    Accounts (opened config world eager stuck log) ms := by
  have hfree : ∀ {before after : List Service.Move}, ms = before ++ after →
      LeaseFree ((opened config world eager stuck log).moves before) := fun he =>
    leaseFree config world eager stuck log (he ▸ hlease)
  generalize hs : opened config world eager stuck log = s at *
  have hstart : AtRest s fun _ => .unused := hs ▸ (Ordered.opened config world eager stuck log).rest
  have hb : Balanced s [] fun _ => .unused := hs ▸ .opened hw config eager stuck log
  have halong : Along (fun now mv => (now.move mv).workers.dismissed = false ∧ LeaseFree now ∧
      LeaseFree (now.move mv)) s ms := by
    refine (along_open hstart hopen).and (along_of_split fun before mv after he => ⟨hfree he, ?_⟩)
    rw [← move_eq]
    exact @hfree _ after (by simp [he])
  obtain ⟨roles, ho, hbalanced⟩ := exists_course (I := fun ms _ roles => Balanced s ms roles) hstart hb
    (fun {ms roles roles' mv} ho _ hA h hst => by
      obtain ⟨hd, hf, hf'⟩ := hA
      have hd₀ : (s.moves ms).workers.dismissed = false := by
        rw [← move_eq] at hd
        rw [← Bool.not_eq_true] at hd ⊢
        exact fun hdismissed => hd (hst.dismissed_stays hdismissed)
      rw [← move_eq] at hf'
      exact h.step hstart ho hst hd₀ hf hf') ms halong
  have hrequests := asked_moves ms hstart
  refine ⟨fun hg => ?_, Granted.finite hstart ms, hbalanced.lent, hbalanced.sum hstart, ?_⟩
  · rw [← hs] at hg ⊢
    exact hg.exists_began hlease
  · have hnone : s.asked = 0 := by
      rw [← hs, asked, counts_opened]
      rfl
    rw [asked, hnone, Nat.zero_add] at hrequests
    exact hrequests

/-- One parse has returned its tree, one is cancelled with its job at the workers, and one has got the lease
    after it; a parser has been asked for in between. -/
def threeParses : List Service.Move :=
  .act (.spawn (.parse (.text "x = 1") (.str "python"))) :: List.replicate 4 (.serve 0) ++
    .act (.release 0) :: List.replicate 8 (.serve 0) ++
    .act (.release 0) :: List.replicate 8 (.serve 0) ++
    .act (.release 0) :: List.replicate 4 (.serve 0) ++
    .act (.release 0) :: List.replicate 4 (.serve 0) ++
    .act (.spawn (.parse (.text "x = 1") (.str "python"))) :: .serve 0 ::
    .act (.spawn (.parse (.text "x = 1") (.str "python"))) ::
    .act (.spawn (.getParser (.str "python"))) :: List.replicate 2 (.serve 0) ++
    .act (.cancel 10) :: List.replicate 2 (.serve 0) ++
    .act (.release 0) :: List.replicate 8 (.serve 0)

/-- Three leases, a tree, a cancelled parse and an unfinished one; four requests. -/
theorem accounts_threeParses :
    singleLanguage.RaisesWell ∧ (∀ mv ∈ threeParses, mv.borrows = false) ∧
      ((opened {} singleLanguage false none []).moves threeParses).workers.dismissed = false ∧
      Accounts (opened {} singleLanguage false none []) threeParses ∧
      ((opened {} singleLanguage false none []).moves threeParses).lent = 3 ∧
      ((opened {} singleLanguage false none []).moves threeParses).counts.parses.built = 1 ∧
      ((opened {} singleLanguage false none []).moves threeParses).loop.isCancelled 10 = true ∧
      ((opened {} singleLanguage false none []).moves threeParses).isFinished 13 = false ∧
      requests (opened {} singleLanguage false none []) threeParses = 4 := by
  have hparses : singleLanguage.parses.entries =
      [(Text.Utf8.encode "x = 1", ⟨[.tree default]⟩)] := rfl
  have hw : singleLanguage.RaisesWell := .of_entries (by decide +kernel) (by simp [hparses])
  have hlease : ∀ mv ∈ threeParses, mv.borrows = false := by decide +kernel
  have hopen : ((opened {} singleLanguage false none []).moves threeParses).workers.dismissed = false := by
    decide +kernel
  exact ⟨hw, hlease, hopen, accounts hw {} false none [] hlease hopen, by decide +kernel, by decide +kernel,
    by decide +kernel, by decide +kernel, by decide +kernel⟩

end SourceTrees.Service
