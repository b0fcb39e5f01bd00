import SourceTrees.Proofs.Service.AloneTurns
import SourceTrees.Proofs.Service.Fairness

/-!
# Runs of a call that is alone

A call is begun where nobody is at work, and nothing else is asked for.  What is known of its turns is put
together for runs: the invariant is kept by every move, and in fair runs a lucky call ends.

## Protocol

* Errands are served first come, first served, jobs are done and time passes in any order.

## Results

* `Service.Secluded` — everything is in order, and the call is alone; `Service.Secluded.begins`,
  `Service.Secluded.step` — it holds where the call is begun, and every step keeps it.
* `Service.Secluded.takes_turn` — in a fair run somebody has a turn as long as the call is under way.
* **`Service.Secluded.ends`** — in a fair run a lucky call ends.
-/

set_option autoImplicit false

namespace SourceTrees.Service

open Loop

variable {S s s' : Service} {roles roles' : Roles Hook Job} {w : Woken} {m : Midst} {mv : Service.Move}
  {ms : List Service.Move} {c : PromiseId} {call : Call} {turn : Turn Stage Reply} {language : Json}
  {lucky : Prop} {n : Nat} {f : Fault}

theorem Favours.step (h : Favours S s roles c call) (ho : AtRest s roles) (hst : Step s roles mv s' roles')
    (hsp : SparesOperations s mv) (hc : ∀ p, ¬ s.Cancels p mv) : Favours S s' roles' c call := by
  intro name ha
  obtain ⟨P, hP, hfav⟩ := h ha
  exact ⟨P, hP, hfav.step hP ho hst hsp hc⟩

theorem Alone.mono {n' : Nat} (h : Alone S s roles lucky c call n) (hn : n ≤ n') :
    Alone S s roles lucky c call n' := by
  cases h with
  | begun hp hw hm hs hl => exact .begun hp hw hm hs fun h => Nat.le_trans (hl h) hn
  | asking ha h hp hq hw hm hop hl => exact .asking ha h hp hq hw hm hop fun h => Nat.le_trans (hl h) hn
  | running ha h hp hw hm hpool hsame hj hl =>
    exact .running ha h hp hw hm hpool hsame hj fun h => Nat.le_trans (hl h) hn
  | returned hout => exact .returned hout
  | failed hout hidle h ha hr => exact .failed hout hidle h ha hr

/-- The call is under way, or it has ended. -/
theorem Alone.outcome?_of_ended (h : Alone S s roles lucky c call n) (ho : AtRest s roles)
    (hended : s.loop.isPending c = false) : ∃ o, s.loop.outcome? c = some o := by
  have hplaced : ∀ {point on}, s.loop.place? c = some (point, on) → False := fun hp => by
    rw [ho.isPending_of_place? hp] at hended
    cases hended
  cases h with
  | begun hp hw hm hS hn => exact (hplaced hp).elim
  | asking ha h hp hq hw hm hop hn => exact (hplaced hp).elim
  | running ha h hp hw hm hpool hsame hj hn => exact (hplaced hp).elim
  | returned hout => exact ⟨_, hout⟩
  | failed hout hidle h ha hr => exact ⟨_, hout⟩

/-- A lucky call that is under way has a turn left. -/
theorem Alone.left_pos (h : Alone S s roles lucky c call n) (hlucky : lucky)
    (hopen : s.loop.isPending c = true) : 0 < n := by
  cases h with
  | begun hp hw hm hS hn => exact Nat.lt_of_lt_of_le (by decide) (hn hlucky)
  | asking ha h hp hq hw hm hop hn =>
    refine Nat.lt_of_lt_of_le (Nat.lt_of_lt_of_le ?_ (Nat.le_add_right _ _)) (hn hlucky)
    rw [h.left]
    rcases h.hook_cases with rfl | rfl <;> exact Nat.succ_pos _
  | running ha h hp hw hm hpool hsame hj hn =>
    refine Nat.lt_of_lt_of_le ?_ (hn hlucky)
    cases h <;> exact Nat.succ_pos _
  | returned hout =>
    rw [isPending_of_outcome? hout] at hopen
    cases hopen
  | failed hout hidle h ha hr =>
    rw [isPending_of_outcome? hout] at hopen
    cases hopen

/-- As long as the call has not returned nobody closes the service. -/
theorem Alone.closes (h : Alone S s roles lucky c call n) (ho : AtRest s roles)
    (hcall : call.asked? = some language) (hv : ∀ v, s.loop.outcome? c ≠ some (.value v)) {t : PromiseId}
    {point : Stage} {on : Option PromiseId} (hp : s.loop.place? t = some (point, on)) : point.closes = false := by
  cases h with
  | begun hpc hw hm hS hn =>
    obtain rfl := hw _ _ _ hp
    cases hp.symm.trans hpc
    cases call <;> first | rfl | cases hcall
  | asking ha h hpc hq hw hm hop hn =>
    rcases hw _ _ _ hp with rfl | rfl
    · cases hp.symm.trans hpc
      cases h <;> rfl
    · have hrole := (ho.placed hp).role.symm.trans (h.operation ho hpc hq)
      cases point <;> first | rfl | cases hrole
  | running ha h hpc hw hm hpool hsame hj hn =>
    obtain rfl := hw _ _ _ hp
    cases hp.symm.trans hpc
    cases h <;> rfl
  | returned hout => exact absurd hout (hv _)
  | failed hout hidle h ha hr => exact (hidle.calls _ _ _ hp).elim

/-- A call that is alone in a service in good order. -/
structure Secluded (S s : Service) (roles : Roles Hook Job) (lucky : Prop) (c : PromiseId) (call : Call)
    (n : Nat) : Prop extends Peaceful s roles c where
  rest : AtRest s roles
  config : s.config = S.config
  staffed : (∀ v, s.loop.outcome? c ≠ some (.value v)) → s.workers.dismissed = false
  favours : lucky → Favours S s roles c call
  alone : Alone S s roles lucky c call n

namespace Secluded

/-- The workers are not dismissed as long as the call is under way. -/
theorem open_of_isPending (h : Secluded S s roles lucky c call n) (hp : s.loop.isPending c = true) :
    s.workers.dismissed = false :=
  h.staffed fun v hv => by
    rw [outcome?_of_isPending hp] at hv
    cases hv

theorem staffed_step (h : Secluded S s roles lucky c call n) (hst : Step s roles mv s' roles')
    (hcall : call.asked? = some language) (hv : ∀ v, s'.loop.outcome? c ≠ some (.value v)) :
    s'.workers.dismissed = false := by
  have hbefore : ∀ v, s.loop.outcome? c ≠ some (.value v) := fun v hout => hv v (hst.outcome?_of_some hout)
  have hd := h.staffed hbefore
  have hstaff : SameStaff s s' := by
    rcases hst.aside_or_given h.rest with ⟨hnone, -⟩ | ⟨w, m, turn, -, ht, rfl, -⟩
    · exact hst.sameStaff hnone
    · obtain ⟨on, hp⟩ := ht.place
      have hwithin := Calls.within_resume Pool.keptWithin_sameStaff (fun _ _ => ⟨rfl, rfl⟩)
        (h.alone.closes h.rest hcall hbefore hp) w.given w.before
      rw [ht.resumed] at hwithin
      exact ht.sameStaff_before.trans (SameStaff.trans hwithin ⟨rfl, rfl⟩)
  rw [hstaff.staff]
  exact hd

/-- Every calm step keeps a call secluded. -/
theorem step (h : Secluded S s roles lucky c call n) (hst : Step s roles mv s' roles')
    (hmv : mv.isCalm = true) (hcall : call.asked? = some language) :
    Secluded S s' roles' lucky c call n where
  toPeaceful := h.toPeaceful.step h.rest hst hmv
  rest := (h.rest.step hst).1
  config := (hst.engine_named h.rest).1.trans h.config
  staffed := h.staffed_step hst hcall
  favours hl := Favours.step (h.favours hl) h.rest hst (Move.spares_of_isCalm hmv) fun _ =>
    Move.not_cancels_of_isCalm hmv
  alone := by
    have hp' := (h.toPeaceful.step h.rest hst hmv).toSteady
    rcases hst.aside_or_given h.rest with ⟨hnone, -⟩ | ⟨w, m, turn, -, ht, rfl, rfl⟩
    · exact h.alone.step_aside h.rest hst hmv hnone
    · exact (h.alone.mono (Nat.le_succ n)).step_turn h.rest ht hst h.toPeaceful hp' h.open_of_isPending
        h.config hcall h.favours

/-- A turn brings it nearer to its end. -/
theorem step_turn (h : Secluded S s roles lucky c call (n + 1)) (hst : Step s roles mv s' roles')
    (hmv : mv.isCalm = true) (hcall : call.asked? = some language) (hsome : s.turnOf? mv = some w) :
    Secluded S s' roles' lucky c call n := by
  have h' := h.step hst hmv hcall
  refine { h' with alone := ?_ }
  rcases hst.aside_or_given h.rest with ⟨hnone, -⟩ | ⟨w', m, turn, -, ht, rfl, rfl⟩
  · cases hnone.symm.trans hsome
  · exact h.alone.step_turn h.rest ht hst h.toPeaceful h'.toSteady h.open_of_isPending h.config hcall h.favours

theorem moves (h : Secluded S s roles lucky c call n) (hcall : call.asked? = some language)
    (ms : List Service.Move) (hms : ∀ mv ∈ ms, mv.isCalm = true) :
    ∃ roles', Secluded S (s.moves ms) roles' lucky c call n := by
  induction ms generalizing s roles with
  | nil => exact ⟨roles, h⟩
  | cons mv ms ih =>
    obtain ⟨roles', hst⟩ := exists_step h.rest mv
    exact ih (h.step hst (hms mv List.mem_cons_self) hcall) fun mv' hm => hms mv' (List.mem_cons_of_mem _ hm)

/-- The call is begun where nobody is at work. -/
theorem begins (lucky : Prop) (call : Call) (hs : Steady S roles) (ho : AtRest S roles)
    (hd : S.workers.dismissed = false) (hidle : S.Idle)
    (hl : lucky → Favours S S roles S.loop.promises.size call) :
    ∃ roles', Secluded S (S.move (.act (.spawn call))) roles' lucky S.loop.promises.size call 10 := by
  obtain ⟨roles', hst⟩ := exists_step ho (.act (.spawn call))
  have hp' : Steady _ roles' := hs.step ho hst trivial
  obtain ⟨ho', -⟩ := ho.step hst
  have hplace := place?_spawned S call
  have hm : ∀ k t, ¬ (S.move (.act (.spawn call))).Maps k t := fun k t hm =>
    hidle.flights k t (by cases k <;> exact hm)
  have hundisturbed : Undisturbed S roles S.loop.promises.size :=
    .of_place? ho.sound.get?_size
  exact ⟨roles', {
    toSteady := hp'
    prompt := fun q op k o _ _ _ _ => hm k op
    undisturbed := hundisturbed.step hs.settled ho hst trivial not_false
    rest := ho'
    config := rfl
    staffed := fun _ => hd
    favours := fun h => Favours.step (hl h) ho hst trivial fun _ => not_false
    alone := by
      refine .begun hplace (fun t point on hp => ?_) hm (.withLoop (.refl S) _) fun _ => Nat.le_refl _
      replace hp : (S.loop.spawn (.start call)).2.place? t = some (point, on) := hp
      rw [place?_spawn] at hp
      split at hp
      · assumption
      · exact (hidle.calls _ _ _ hp).elim }⟩

end Secluded

/-! ## Fair runs -/

/-- The ticket of a call that is alone has been called. -/
theorem Waiting.called (h : Waiting s roles) (ho : AtRest s roles) (hw : s.AtWork (· = c)) {name : String}
    {k : PromiseId} (hg : s.gripAt c = .ticket name k) : s.loop.isPending k = false := by
  have halone : ∀ {t}, s.gripAt t ≠ .free → t = c := fun hne => by
    obtain ⟨point, on, hp, -⟩ := exists_place?_of_gripAt hne
    exact hw _ _ _ hp
  have hfits := ho.gripAt_fits c
  rw [hg] at hfits
  obtain ⟨pooled, hpool⟩ := exists_pooled hfits.2
  have hfree : pooled.lock.held = false := by
    by_contra hheld
    obtain ⟨t, ht⟩ := h.attributed.holder hpool (by simpa using hheld)
    obtain rfl := halone (t := t) fun hfree => by
      rw [hfree] at ht
      exact ht
    rw [hg] at ht
    exact ht
  obtain ⟨first, rest, htickets⟩ := List.exists_cons_of_ne_nil (List.ne_nil_of_mem (h.locked.waiting hg hpool))
  have hcalled := (h.hands.awake hpool).called hfree first (by rw [htickets]; rfl)
  obtain ⟨t, ht⟩ := h.attributed.owner hpool (htickets ▸ List.mem_cons_self (a := first))
  obtain rfl := halone (t := t) (by rw [ht]; simp)
  cases hg.symm.trans ht
  exact hcalled

namespace Secluded

variable {f : Nat → Service.Move}

/-- In a fair run somebody has a turn as long as the call is under way. -/
theorem takes_turn (h : Secluded S s roles lucky c call n) (hf : Fair s f)
    (hopen : s.loop.isPending c = true) : ∃ i w, (s.moves (upTo f i)).turnOf? (f i) = some w := by
  have ho := h.rest
  have hu := h.waiting.underway
  cases h.alone with
  | begun hp hw hm hS hn =>
    obtain ⟨i, w, hw, -⟩ := hf.turn_of_settles ho hp nofun
    exact ⟨i, w, hw⟩
  | @asking name hook point q op ha hasking hp hq hw hm hop hn =>
    have hrole := hasking.operation ho hp hq
    cases hpending : s.loop.isPending op with
    | true =>
      obtain ⟨point', on, hp'⟩ := ho.exists_place? (by rw [hrole]; rfl) hpending
      obtain ⟨i, w, hw, -⟩ := hf.takes_turn ho hu hp'
        (ho.rests_operation ((ho.placed hp').role.symm.trans hrole) hp')
      exact ⟨i, w, hw⟩
    | false =>
      obtain ⟨i, w, hw, -⟩ := hf.turn_of_settles ho hp fun p he => by
        cases he
        exact hf.relay_settles ho hq hpending
      exact ⟨i, w, hw⟩
  | running ha hrunning hp hw hm hpool hsame hj hn =>
    have hfits := (ho.placed hp).rest
    have hgrip := gripAt_of_place? hp
    obtain ⟨i, w, hw, -⟩ := hf.turn_of_settles ho hp fun p he => by
      cases hrunning with
      | queued hc crew k =>
        obtain ⟨hk, -⟩ := hfits
        cases he.symm.trans hk
        exact ⟨0, h.waiting.called ho hw hgrip⟩
      | running hc crew job =>
        obtain ⟨q, parser, hq, hshield, hjob⟩ := hfits
        cases he.symm.trans hq
        -- The job ends, and its shield after it.
        obtain ⟨i, hi⟩ := hf.job_settles ho hu hjob
        obtain ⟨_, ho', hext, -⟩ :=
          exists_atRest (I := fun _ _ => True) (fun _ _ _ _ => trivial) (upTo f i) ho trivial
        obtain ⟨d, hd⟩ := (hf.later i).relay_settles ho' (hext.eq hshield (by simp)) hi
        exact ⟨i + d, by rw [moves_upTo_add]; exact hd⟩
      | copying hc =>
        obtain ⟨q, language, source, root, hq, hrole⟩ := hfits
        cases he.symm.trans hq
        exact hf.job_settles ho hu hrole
    exact ⟨i, w, hw⟩
  | returned hout =>
    rw [isPending_of_outcome? hout] at hopen
    cases hopen
  | failed hout hidle h ha hr =>
    rw [isPending_of_outcome? hout] at hopen
    cases hopen

/-- **In a fair calm run a lucky call ends.** -/
theorem ends (h : Secluded S s roles lucky c call n) (hlucky : lucky) (hcall : call.asked? = some language)
    (hcalm : ∀ i, (f i).isCalm = true) (hf : Fair s f) :
    ∃ i, (s.moves (upTo f i)).loop.isPending c = false := by
  induction n generalizing s roles f with
  | zero =>
    cases hopen : s.loop.isPending c with
    | false => exact ⟨0, hopen⟩
    | true => exact absurd (h.alone.left_pos hlucky hopen) (Nat.lt_irrefl 0)
  | succ n ih =>
    cases hopen : s.loop.isPending c with
    | false => exact ⟨0, hopen⟩
    | true =>
      obtain ⟨i, w, hw⟩ := h.takes_turn hf hopen
      obtain ⟨roles₁, h₁⟩ := h.moves hcall (upTo f i) fun mv hmem => by
        obtain ⟨k, -, rfl⟩ := List.mem_map.1 hmem
        exact hcalm k
      obtain ⟨roles₂, hst⟩ := exists_step h₁.rest (f i)
      have h₂ := h₁.step_turn hst (hcalm i) hcall hw
      rw [← moves_upTo_succ] at h₂
      obtain ⟨d, hd⟩ := ih h₂ (fun j => hcalm (i + 1 + j)) (hf.later (i + 1))
      exact ⟨i + 1 + d, by rw [moves_upTo_add]; exact hd⟩

end Secluded

end SourceTrees.Service
