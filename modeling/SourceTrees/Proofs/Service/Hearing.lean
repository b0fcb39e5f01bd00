import SourceTrees.Proofs.Loop.Tellings
import SourceTrees.Proofs.Service.Fairness

/-!
# Waiting for several calls ends

Who waits for several calls goes on some time if they all end some time: in a fair run the errands are served
that tell the group of the calls, and there are enough of them.

## Results

* `Service.Step.hears` — whatever is done, a group does not wait in vain, and no more tasks are left.
* **`Service.Fair.group_settles`** — in a fair run a group is settled whose tasks all finish some time.
-/

set_option autoImplicit false

namespace SourceTrees.Service

open Loop

variable {s s' : Service} {roles roles' : Roles Hook Job} {w : Woken} {m m' : Midst} {mv : Service.Move}
  {g p t : PromiseId} {turn : Turn Stage Reply} {members : List PromiseId} {f : Nat → Service.Move}

/-! ## Steps -/

theorem stillTold_handedIn (crew : Crew) (job : Job) :
    StillTold g s.loop (Work.handedIn s crew job).loop := by
  unfold Work.handedIn
  split
  · exact StillTold.promise.trans (.enqueue rfl)
  · exact .promise

theorem stillTold_dismiss : StillTold g s.loop (Work.dismiss s).2.loop := by
  rw [Work.dismiss_eq]
  split
  · exact .refl _
  · refine .enqueueAll _ rfl rfl rfl fun e he => ?_
    obtain ⟨t, -, w', rfl, -⟩ := Ticket.mem_runAll he
    rfl

theorem Flight.stillTold_launch {κ : Type} [DecidableEq κ] (f : Flight κ) (l : Loop Reply Stage Hook) (key : κ)
    (point : Stage) (hook : Hook) : StillTold g l (f.launch l key point hook).2.2 :=
  (StillTold.spawn point).trans (.subscribe l.promises.size rfl)

/-- In a turn nothing is done to a group that was there before. -/
theorem Stride.stillTold (hst : Stride w m m') (hg : g < m.service.loop.promises.size) :
    StillTold g m.service.loop m'.service.loop := by
  cases hst with
  | bootJoined hp hr => exact .shield _
  | bootLaunched hp hn =>
    exact (Flight.stillTold_launch m.service.bootFlight m.service.loop () (.boot .start) .boot).trans (.shield _)
  | loadJoined language hp hr => exact .shield _
  | loadLaunched language hp hn =>
    exact (Flight.stillTold_launch m.service.grammarFlight m.service.loop language (.fetch (.start language))
      (.grammar language)).trans (.shield _)
  | submitted crew hc hg => exact stillTold_handedIn crew _
  | guarded hg => exact .shield _
  | waited hg => exact .waiter _
  | unsubscribed hs => exact .unsubscribe _ rfl
  | bootTimed seconds hg => exact .timer seconds
  | timerDropped p hs => exact .congr rfl rfl rfl
  | drawn hg hp => exact .promise
  | calledNext hg hp hheld hk => exact .settle _ _
  | gateMade => exact .promise
  | spawned call hc => exact .spawn _
  | grouped hm => exact .otherGroup hg _
  | dismissed => exact stillTold_dismiss
  | _ => exact .refl _

theorem Strides.stillTold (hst : Strides w m m') (hg : g < m.service.loop.promises.size) :
    StillTold g m.service.loop m'.service.loop := by
  induction hst with
  | refl => exact .refl _
  | tail hst hstep ih =>
    exact ih.trans (hstep.stillTold (Nat.lt_of_lt_of_le hg (Strides.later hst).size_le))

/-- The move serves an errand that tells the group. -/
def TellsGroup (s : Service) (g : PromiseId) (mv : Service.Move) : Prop :=
  ∃ i e, mv = .serve i ∧ s.loop.agenda[i]? = some e ∧ e.tells g = true

/-- The group does not wait in vain, and as long as it is open no more tasks are left than before; one less if
    it was told. -/
structure Heard (s : Service) (g : PromiseId) (members : List PromiseId) (mv : Service.Move) (s' : Service) :
    Prop where
  hears : s'.loop.Hears g members
  left_le : s'.loop.isPending g = true → s'.loop.left g ≤ s.loop.left g
  left_lt : s'.loop.isPending g = true → s.TellsGroup g mv → s'.loop.left g < s.loop.left g

/-- The move does not concern the group. -/
theorem Heard.of_still (hmv : ¬ s.TellsGroup g mv) (h : s'.loop.Hears g members)
    (hleft : s'.loop.left g = s.loop.left g) : Heard s g members mv s' :=
  ⟨h, fun _ => Nat.le_of_eq hleft, fun _ htells => absurd htells hmv⟩

/-- **Whatever is done, a group does not wait in vain.** -/
theorem Step.hears (hst : Step s roles mv s' roles') (h : s.loop.Hears g members) :
    Heard s g members mv s' := by
  have hquiet : (∀ i, mv ≠ .serve i) → ¬ s.TellsGroup g mv := fun hmv ⟨i, _, hserve, _⟩ => hmv i hserve
  have hserves : ∀ {i e}, s.loop.agenda[i]? = some e → e.tells g = false → ¬ s.TellsGroup g (.serve i) := by
    rintro i e hi he ⟨_, e', ⟨⟩, hi', he'⟩
    cases hi.symm.trans hi'
    cases he.symm.trans he'
  cases hst with
  | idle mv hn =>
    refine .of_still (fun ⟨i, e, hserve, hi, _⟩ => ?_) h rfl
    cases (hn i hserve).symm.trans hi
  | @carried i e hi hw hk =>
    obtain ⟨hh, hless⟩ := h.effect hi
    refine ⟨hh, fun hp => Nat.le_trans (Nat.le_add_right ..) (hless hp), ?_⟩
    rintro hp ⟨_, e', ⟨⟩, hi', he⟩
    cases hi.symm.trans hi'
    replace hless := hless hp
    rw [he, if_pos rfl] at hless
    exact hless
  | @forgotten i hook op hi =>
    cases hook <;> exact .of_still (hserves hi rfl) (h.pick hi rfl) rfl
  | expired => exact .of_still (hquiet fun _ he => by cases he) (h.mono .expireDue .expireDue) rfl
  | clocked time =>
    exact .of_still (hquiet fun _ he => by cases he) (h.mono (.congr rfl rfl) (.congr rfl rfl rfl)) rfl
  | spawned call => exact .of_still (hquiet fun _ he => by cases he) (h.mono (.spawn _) (.spawn _)) rfl
  | @workedOff position i t hi =>
    rw [Work.workOff_eq hi]
    exact .of_still (hquiet fun _ he => by cases he) (h.mono (.enqueueAll _) (.enqueue rfl)) rfl
  | cancelled t ha =>
    have hs : StillTold g s.loop (s.loop.cancelTask t) := .cancelTask t
    exact .of_still (hquiet fun _ he => by cases he) (h.mono (.cancelTask t) hs) hs.left
  | leaseEnded hg fault =>
    exact .of_still (hquiet fun _ he => by cases he) (h.mono (.settle _ _) (.settle _ _))
      (left_congr groups_settle)
  | @turn i t task given turn m hw hsts hres hend =>
    obtain ⟨e, hi, hwoken⟩ := hw.errand
    have htells : e.tells g = false := by
      rcases Errand.woken?_eq_some_iff.1 hwoken with rfl | ⟨q, rfl⟩ <;> rfl
    have hpick := h.pick hi htells
    have hs := (hsts.stillTold hpick.group_lt).trans (.conclude t turn)
    exact .of_still (hserves hi htells) (hpick.mono (hsts.later.trans (.conclude t turn)) hs) hs.left

/-! ## Runs -/

/-- What a fair run keeps of a group. -/
theorem exists_hears (ho : AtRest s roles) (h : s.loop.Hears g members) (f : Nat → Service.Move) (n : Nat) :
    ∃ roles', AtRest (s.moves (upTo f n)) roles' ∧ (s.moves (upTo f n)).loop.Hears g members := by
  obtain ⟨roles', ho', -, hh⟩ := exists_atRest (I := fun s _ => s.loop.Hears g members)
    (fun _ _ h hst => (hst.hears h).hears) (upTo f n) ho h
  exact ⟨roles', ho', hh⟩

/-- What is settled at a time is settled from then on. -/
theorem Ordered.outcome?_upTo (ho : AtRest s roles) {n k : Nat} (hle : n ≤ k) {o : Settled Reply}
    (hout : (s.moves (upTo f n)).loop.outcome? t = some o) : (s.moves (upTo f k)).loop.outcome? t = some o := by
  obtain ⟨d, rfl⟩ := Nat.exists_eq_add_of_le hle
  obtain ⟨_, ho'⟩ := ho.atRest_moves (upTo f n)
  rw [moves_upTo_add]
  exact ho'.outcome?_moves hout _

/-- Tasks that all finish some time have all finished from some time on. -/
theorem exists_all_settled (ho : AtRest s roles)
    (hm : ∀ t ∈ members, ∃ n o, (s.moves (upTo f n)).loop.outcome? t = some o) :
    ∃ n, ∀ k, n ≤ k → ∀ t ∈ members, (s.moves (upTo f k)).loop.isPending t = false := by
  induction members with
  | nil => exact ⟨0, fun _ _ t ht => by cases ht⟩
  | cons t ts ih =>
    obtain ⟨n, hn⟩ := ih fun t' ht' => hm t' (List.mem_cons_of_mem _ ht')
    obtain ⟨n', o, hout⟩ := hm t List.mem_cons_self
    refine ⟨max n n', fun k hk t' ht' => ?_⟩
    rcases List.mem_cons.1 ht' with rfl | ht'
    · exact isPending_of_outcome? (ho.outcome?_upTo (Nat.le_trans (Nat.le_max_right ..) hk) hout)
    · exact hn k (Nat.le_trans (Nat.le_max_left ..) hk) t' ht'

/-- As long as the group is open no more tasks are left of it. -/
theorem left_upTo_le (ho : AtRest s roles) (h : s.loop.Hears g members)
    (hopen : ∀ n, (s.moves (upTo f n)).loop.isPending g = true) {n k : Nat} (hle : n ≤ k) :
    (s.moves (upTo f k)).loop.left g ≤ (s.moves (upTo f n)).loop.left g := by
  induction k, hle using Nat.le_induction with
  | base => exact Nat.le_refl _
  | succ k hle ih =>
    obtain ⟨roles₁, ho₁, h₁⟩ := exists_hears ho h f k
    obtain ⟨roles₂, hst⟩ := exists_step ho₁ (f k)
    have hopen' := hopen (k + 1)
    rw [moves_upTo_succ] at hopen' ⊢
    exact Nat.le_trans ((hst.hears h₁).left_le hopen') ih

/-- **In a fair run a group is settled some time whose tasks all finish some time.** -/
theorem Fair.group_settles (hf : Fair s f) (ho : AtRest s roles) (h : s.loop.Hears g members)
    (hm : ∀ t ∈ members, ∃ n o, (s.moves (upTo f n)).loop.outcome? t = some o) :
    ∃ n, (s.moves (upTo f n)).loop.isPending g = false := by
  by_contra hnone
  push Not at hnone
  have hopen : ∀ n, (s.moves (upTo f n)).loop.isPending g = true := fun n => by simpa using hnone n
  -- From some time on all tasks have finished.
  obtain ⟨n, hn⟩ := exists_all_settled (f := f) ho hm
  -- Then each errand that tells the group lowers the count, and there is always one more.
  have hnever : ∀ c k, n ≤ k → (s.moves (upTo f k)).loop.left g ≤ c → False := by
    intro c
    induction c with
    | zero =>
      intro k _ hle
      obtain ⟨_, -, hk⟩ := exists_hears ho h f k
      have hpos := (hk.enough (hopen k)).1
      omega
    | succ c ih =>
      intro k hle hleft
      obtain ⟨_, -, hk⟩ := exists_hears ho h f k
      obtain ⟨e, he, htells⟩ := hk.exists_errand (hopen k) (hn k hle)
      obtain ⟨k', i, hle', hserve, hi⟩ := hf.served he
      obtain ⟨roles₁, ho₁, h₁⟩ := exists_hears ho h f k'
      obtain ⟨roles₂, hst⟩ := exists_step ho₁ (f k')
      have hfewer : (s.moves (upTo f (k' + 1))).loop.left g < (s.moves (upTo f k')).loop.left g := by
        have hopen' := hopen (k' + 1)
        rw [moves_upTo_succ] at hopen' ⊢
        exact (hst.hears h₁).left_lt hopen' ⟨i, e, hserve, hi, htells⟩
      have hmore := left_upTo_le (f := f) ho h hopen hle'
      exact ih (k' + 1) (by omega) (by omega)
  exact hnever _ n (Nat.le_refl n) (Nat.le_refl _)

end SourceTrees.Service
