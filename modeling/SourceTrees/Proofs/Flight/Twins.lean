import SourceTrees.Proofs.Flight.Aside

/-!
# Two runs in step

A run as those outside a set of callers see it: its moves without the turns and the cancellations of the
callers of the set, an errand being told by its place among the errands of others.  Two runs of which
they see the same stay in step: at every moment the two states look alike.

## Results

* `Callers.seenMoves` — what is seen of a run.
* `Callers.Twins` — two states in step; `Callers.Twins.moves` — runs of which the same is seen keep them
  in step.
* `Callers.Twins.exists_companion` — to every run there is one without the cancellations.
-/

set_option autoImplicit false

namespace SourceTrees.Flight.Callers

open Loop

variable {C : Finset PromiseId} {H : PromiseId → Prop} {roles roles' : Roles String Empty}
  {s s' : Callers} {m m' : Move} {ms ms' : List Move} {t c p : PromiseId}

/-! ## What is seen of a run -/

/-- The moves of a run as those outside of the set see them. -/
def seenMoves (C : Finset PromiseId) : List Move → Callers → List Move
  | [], _ => []
  | m :: ms, s => (seen? C s m).toList ++ seenMoves C ms (s.move m)

theorem moves_append (s : Callers) (ms ms' : List Move) :
    s.moves (ms ++ ms') = (s.moves ms).moves ms' := List.foldl_append

theorem seenMoves_append (ms ms' : List Move) (s : Callers) :
    seenMoves C (ms ++ ms') s = seenMoves C ms s ++ seenMoves C ms' (s.moves ms) := by
  induction ms generalizing s with
  | nil => rfl
  | cons m ms ih => simp [seenMoves, ih, moves]

/-- A run can be split where what is seen of it is split. -/
theorem exists_split {ms : List Move} : ∀ {s : Callers} {xs ys : List Move},
    seenMoves C ms s = xs ++ ys → ∃ a b, ms = a ++ b ∧ seenMoves C a s = xs ∧
      seenMoves C b (s.moves a) = ys := by
  induction ms with
  | nil =>
    intro s xs ys h
    obtain ⟨rfl, rfl⟩ := List.append_eq_nil_iff.1 h.symm
    exact ⟨[], [], rfl, rfl, rfl⟩
  | cons m ms ih =>
    intro s xs ys h
    cases xs with
    | nil => exact ⟨[], m :: ms, rfl, rfl, h⟩
    | cons x xs =>
      cases hm : seen? C s m with
      | none =>
        simp only [seenMoves, hm, Option.toList_none, List.nil_append] at h
        obtain ⟨a, b, rfl, ha, hb⟩ := ih h
        exact ⟨m :: a, b, rfl, by simp [seenMoves, hm, ha], hb⟩
      | some d =>
        simp only [seenMoves, hm, Option.toList_some, List.cons_append, List.nil_append,
          List.cons.injEq] at h
        obtain ⟨rfl, h⟩ := h
        obtain ⟨a, b, rfl, ha, hb⟩ := ih h
        exact ⟨m :: a, b, rfl, by simp [seenMoves, hm, ha], hb⟩

/-- A move that the others see, after moves that they do not see. -/
theorem exists_first {d : Move} {ds : List Move} (h : seenMoves C ms s = d :: ds) :
    ∃ a m b, ms = a ++ m :: b ∧ seenMoves C a s = [] ∧ seen? C (s.moves a) m = some d ∧
      seenMoves C b ((s.moves a).move m) = ds := by
  induction ms generalizing s with
  | nil => cases h
  | cons m ms ih =>
    cases hm : seen? C s m with
    | none =>
      simp only [seenMoves, hm, Option.toList_none, List.nil_append] at h
      obtain ⟨a, m', b, rfl, ha, hd, hb⟩ := ih h
      exact ⟨m :: a, m', b, rfl, by simp [seenMoves, hm, ha], hd, hb⟩
    | some x =>
      simp only [seenMoves, hm, Option.toList_some, List.cons_append, List.nil_append,
        List.cons.injEq] at h
      obtain ⟨rfl, h⟩ := h
      exact ⟨[], m, ms, rfl, rfl, hm, h⟩

/-! ## Two runs in step -/

/-- Two states that look alike from outside the set. -/
structure Twins (C : Finset PromiseId) (H : PromiseId → Prop) (roles roles' : Roles String Empty)
    (s s' : Callers) : Prop where
  left : Ordered roles s
  leftAside : Aside C H roles s
  right : Ordered roles' s'
  rightAside : Aside C H roles' s'
  alike : s.Alike C H s'

/-- No caller of the set is cancelled before it has asked, and none is an operation. -/
def Proper (C : Finset PromiseId) (s : Callers) (m : Move) : Prop :=
  (∀ c ∈ C, m = .cancel c →
    ∀ name key work on, s.loop.place? c ≠ some (.arriving name key work, on)) ∧
  NoOperation C (s.move m)

namespace Twins

theorem init : Twins C (fun _ => False) (fun _ => .unused) (fun _ => .unused) {} {} := by
  have hplace : ∀ t, ({} : Callers).loop.place? t = none := fun _ => rfl
  have ha : Aside C (fun _ => False) (fun _ => .unused) {} := by
    refine ⟨?_, False.elim, fun _ _ => id, False.elim, fun c _ point on hp => ?_, .init⟩
    · rintro p ⟨c, _, outer, hp, _⟩
      rw [hplace] at hp
      cases hp
    · rw [hplace] at hp
      cases hp
  exact ⟨.init, ha, .init, ha, .refl _⟩

theorem symm (h : Twins C H roles roles' s s') : Twins C H roles' roles s' s :=
  ⟨h.right, h.rightAside, h.left, h.leftAside, h.alike.symm⟩

/-- One side makes a move that is not seen. -/
theorem quiet (h : Twins C H roles roles' s s') (hq : seen? C s m = none)
    (hm : ∀ c ∈ C, m = .cancel c →
      ∀ name key work on, s.loop.place? c ≠ some (.arriving name key work, on)) :
    ∃ roles₁, Extends roles roles₁ ∧ Twins C H roles₁ roles' (s.move m) s' := by
  obtain ⟨roles₁, hstep⟩ := exists_step h.left m
  obtain ⟨hord, hext⟩ := h.left.step hstep
  obtain ⟨halike, hplace⟩ := h.leftAside.quiet h.left hq hm
  have haside : Aside C H roles₁ (s.move m) := by
    refine h.leftAside.step h.left hstep ?_ fun p => ?_
    · intro c hc point on hp
      exact h.leftAside.callers c hc point on (hplace c point on hp)
    · constructor
      · exact .inl
      · rintro (hp | ⟨c, hc, outer, hp, he⟩)
        · exact hp
        · exact h.leftAside.sheltered ⟨c, hc, outer, hplace _ _ _ hp, he⟩
  exact ⟨roles₁, hext, hord, haside, h.right, h.rightAside, halike.symm.trans h.alike⟩

/-- One side makes moves that are not seen, none of which cancels a caller of the set. -/
theorem quietMoves (hc : ∀ c ∈ C, Move.cancel c ∉ ms') : ∀ {roles' : Roles String Empty} {s' : Callers},
    Twins C H roles roles' s s' → seenMoves C ms' s' = [] →
      ∃ roles₁, Extends roles' roles₁ ∧ Twins C H roles roles₁ s (s'.moves ms') := by
  induction ms' with
  | nil => exact fun h _ => ⟨_, .refl _, h⟩
  | cons m ms' ih =>
    intro roles' s' h hseen
    obtain ⟨hm, hrest⟩ := List.append_eq_nil_iff.1 hseen
    have hm : seen? C s' m = none := by simpa using hm
    obtain ⟨roles₁, hext, h₁⟩ := h.symm.quiet hm fun c hC he => by
      refine absurd ?_ (hc c hC)
      rw [he]
      exact List.mem_cons_self
    have hc' : ∀ c ∈ C, Move.cancel c ∉ ms' := fun c hC hm => hc c hC (List.mem_cons_of_mem _ hm)
    obtain ⟨roles₂, hext', h₂⟩ := ih hc' h₁.symm hrest
    exact ⟨roles₂, hext.trans hext', h₂⟩

/-- Both sides make the same move, as it is seen. -/
theorem both (h : Twins C H roles roles' s s') {d : Move} (hm : seen? C s m = some d)
    (hm' : seen? C s' m' = some d) (hno : NoOperation C (s.move m)) :
    ∃ H' roles₁ roles₁', Extends roles roles₁ ∧ Extends roles' roles₁' ∧
      Twins C H' roles₁ roles₁' (s.move m) (s'.move m') := by
  obtain ⟨roles₁, hstep⟩ := exists_step h.left m
  obtain ⟨roles₁', hstep'⟩ := exists_step h.right m'
  obtain ⟨hord, hext⟩ := h.left.step hstep
  obtain ⟨hord', hext'⟩ := h.right.step hstep'
  have halike := h.alike.move h.left h.leftAside h.right h.rightAside hm hm'
  have hno' : NoOperation C (s'.move m') := by
    intro c hc point on hp
    by_cases hH : H c
    · rw [h.rightAside.attached hH (h.rightAside.held h.right hstep' hH hp)]
      rfl
    · refine hno c hc point on ?_
      unfold Loop.place? at hp ⊢
      rw [← halike.loop.task hH]
      exact hp
  -- the callers of the set that wait are the same on both sides, those aside apart
  have hwaits : ∀ {c outer}, ¬ H c → ((s'.move m').loop.place? c = some (.attached, some outer) ↔
      (s.move m).loop.place? c = some (.attached, some outer)) := by
    intro c outer hH
    unfold Loop.place?
    rw [halike.loop.task hH]
  have haside : Aside C (fun p => H p ∨ Sheltered C (s.move m) p) roles₁ (s.move m) :=
    h.leftAside.step h.left hstep hno fun p => Iff.rfl
  have haside' : Aside C (fun p => H p ∨ Sheltered C (s.move m) p) roles₁' (s'.move m') := by
    refine h.rightAside.step h.right hstep' hno' fun p => ?_
    constructor
    · rintro (hp | ⟨c, hc, outer, hp, he⟩)
      · exact .inl hp
      · by_cases hH : H c
        · have hold := h.leftAside.held h.left hstep hH hp
          exact .inl (h.leftAside.sheltered ⟨c, hc, outer, hold, he⟩)
        · exact .inr ⟨c, hc, outer, (hwaits hH).2 hp, he⟩
    · rintro (hp | ⟨c, hc, outer, hp, he⟩)
      · exact .inl hp
      · by_cases hH : H c
        · have hold := h.rightAside.held h.right hstep' hH hp
          exact .inl (h.rightAside.sheltered ⟨c, hc, outer, hold, he⟩)
        · exact .inr ⟨c, hc, outer, (hwaits hH).1 hp, he⟩
  exact ⟨_, roles₁, roles₁', hext, hext', hord, haside, hord', haside', halike.mono fun _ => .inl⟩

/-- **Two runs of which the same is seen stay in step.** -/
theorem moves (ms : List Move) : ∀ {H : PromiseId → Prop} {roles roles' : Roles String Empty}
    {s s' : Callers} {ms' : List Move}, Twins C H roles roles' s s' →
    (∀ a m b, ms = a ++ m :: b → Proper C (s.moves a) m) → (∀ c ∈ C, Move.cancel c ∉ ms') →
    seenMoves C ms' s' = seenMoves C ms s →
    ∃ H' roles₁ roles₁', Extends roles roles₁ ∧ Extends roles' roles₁' ∧
      Twins C H' roles₁ roles₁' (s.moves ms) (s'.moves ms') := by
  induction ms with
  | nil =>
    intro H roles roles' s s' ms' h _ hc hseen
    obtain ⟨roles₁, hext, h₁⟩ := h.quietMoves hc hseen
    exact ⟨H, roles, roles₁, .refl _, hext, h₁⟩
  | cons m ms ih =>
    intro H roles roles' s s' ms' h hp hc hseen
    have hhead := hp [] m ms rfl
    have htail : ∀ a m' b, ms = a ++ m' :: b → Proper C ((s.move m).moves a) m' :=
      fun a m' b he => hp (m :: a) m' b (by rw [he]; rfl)
    cases hm : seen? C s m with
    | none =>
      obtain ⟨roles₁, hext, h₁⟩ := h.quiet hm hhead.1
      have hseen' : seenMoves C ms' s' = seenMoves C ms (s.move m) := by
        rw [hseen, seenMoves, hm]
        rfl
      obtain ⟨H', roles₂, roles₂', hext₂, hext₂', h₂⟩ := ih h₁ htail hc hseen'
      exact ⟨H', roles₂, roles₂', hext.trans hext₂, hext₂', h₂⟩
    | some d =>
      have hseen' : seenMoves C ms' s' = d :: seenMoves C ms (s.move m) := by
        rw [hseen, seenMoves, hm]
        rfl
      obtain ⟨a, m', b, rfl, ha, hm', hb⟩ := exists_first hseen'
      have hca : ∀ c ∈ C, Move.cancel c ∉ a := fun c hC hm => hc c hC (by simp [hm])
      have hcb : ∀ c ∈ C, Move.cancel c ∉ b := fun c hC hm => hc c hC (by simp [hm])
      obtain ⟨roles₁, hext, h₁⟩ := h.quietMoves hca ha
      obtain ⟨H₂, roles₂, roles₂', hext₂, hext₂', h₂⟩ := h₁.both hm hm' hhead.2
      obtain ⟨H₃, roles₃, roles₃', hext₃, hext₃', h₃⟩ := ih h₂ htail hcb hb
      refine ⟨H₃, roles₃, roles₃', hext₂.trans hext₃, (hext.trans hext₂').trans hext₃', ?_⟩
      rw [moves_append]
      exact h₃

/-! ## The run without the cancellations -/

/-- The turns of callers of the set that come first are served, until another errand comes first. -/
theorem flush : ∀ (n : Nat) {roles' : Roles String Empty} {s' : Callers},
    Twins C H roles roles' s s' →
    (C.filter fun c => (s'.loop.tasks.get? c).isSome = true).card ≤ n →
    ∃ k roles₁, Twins C H roles roles₁ s (s'.moves (List.replicate k (.serve 0))) ∧
      seenMoves C (List.replicate k (.serve 0)) s' = [] ∧
      ∀ e, (s'.moves (List.replicate k (.serve 0))).loop.agenda[0]? = some e →
        e.continues C = false := by
  intro n
  induction n with
  | zero =>
    intro roles' s' h hn
    refine ⟨0, roles', h, rfl, fun e he => Bool.eq_false_iff.2 fun hcont => ?_⟩
    obtain ⟨c, hc, p, rfl⟩ := Errand.continues_iff.1 hcont
    obtain ⟨_, task, hg, _⟩ := h.right.sound.tended.woken (.inr (List.mem_of_getElem? he))
    rw [Nat.le_zero, Finset.card_eq_zero] at hn
    have hmem : c ∈ C.filter fun c => (s'.loop.tasks.get? c).isSome = true :=
      Finset.mem_filter.2 ⟨hc, by rw [hg]; rfl⟩
    rw [hn] at hmem
    cases hmem
  | succ n ih =>
    intro roles' s' h hn
    cases hi : s'.loop.agenda[0]? with
    | none =>
      refine ⟨0, roles', h, rfl, fun e he => ?_⟩
      have he : s'.loop.agenda[0]? = some e := he
      rw [hi] at he
      cases he
    | some e =>
      cases hcont : e.continues C with
      | false =>
        refine ⟨0, roles', h, rfl, fun e' he => ?_⟩
        have he : s'.loop.agenda[0]? = some e' := he
        rw [hi] at he
        cases he
        exact hcont
      | true =>
        obtain ⟨c, hc, p, rfl⟩ := Errand.continues_iff.1 hcont
        have hq : seen? C s' (.serve 0) = none := by simp [seen?, hi, hcont]
        obtain ⟨roles₁, _, h₁⟩ := h.symm.quiet hq (by simp)
        obtain ⟨_, task, hg, _⟩ := h.right.sound.tended.woken (.inr (List.mem_of_getElem? hi))
        obtain ⟨_, hplace⟩ := h.rightAside.quiet h.right hq (by simp)
        obtain ⟨_, result, hmove⟩ := move_aside h.right h.rightAside hc hi
        -- a caller of the set has had its last turn
        have hless : (C.filter fun c => ((s'.move (.serve 0)).loop.tasks.get? c).isSome = true).card <
            (C.filter fun c => (s'.loop.tasks.get? c).isSome = true).card := by
          refine Finset.card_lt_card ⟨fun t ht => ?_, fun hsub => ?_⟩
          · obtain ⟨hC, ht⟩ := Finset.mem_filter.1 ht
            obtain ⟨task', ht⟩ := Option.isSome_iff_exists.1 ht
            obtain ⟨task, hg, _⟩ := place?_eq_some_iff.1 (hplace t _ _ (place?_of_get? ht))
            exact Finset.mem_filter.2 ⟨hC, by rw [hg]; rfl⟩
          · have hmem := hsub (Finset.mem_filter.2 ⟨hc, by rw [hg]; rfl⟩)
            have hsome := (Finset.mem_filter.1 hmem).2
            rw [hmove] at hsome
            simp [Program.conclude] at hsome
        obtain ⟨k, roles₂, h₂, hseen, hhead⟩ := ih h₁.symm (by omega)
        refine ⟨k + 1, roles₂, h₂, ?_, hhead⟩
        simp [List.replicate_succ, seenMoves, hq, hseen]

/-- The move that is seen as the given one, after turns of callers of the set. -/
theorem exists_same (h : Twins C H roles roles' s s') {d : Move} (hm : seen? C s m = some d) :
    ∃ k m' roles₁, Twins C H roles roles₁ s (s'.moves (List.replicate k (.serve 0))) ∧
      seenMoves C (List.replicate k (.serve 0)) s' = [] ∧
      seen? C (s'.moves (List.replicate k (.serve 0))) m' = some d ∧
      (∀ c ∈ C, m' ≠ .cancel c) ∧ ((∀ i, m = .serve i → i = 0) → ∀ i, m' = .serve i → i = 0) := by
  obtain ⟨k, roles₁, h₁, hseen, hhead⟩ := h.flush _ (Nat.le_refl _)
  refine ⟨k, ?_⟩
  rcases seen?_eq_some hm with ⟨i, e, rfl, hi, he, rfl⟩ | ⟨rfl, hserve, hcancel⟩
  · have hrank := getElem?_rank hi he
    rw [← h₁.alike.loop.agenda] at hrank
    obtain ⟨j, hj, _, hk⟩ := exists_of_rank hrank
    by_cases hzero : i = 0
    · subst hzero
      -- the errand comes first among those of others, and no other errand comes before it
      have hne : (s'.moves (List.replicate k (.serve 0))).loop.agenda ≠ [] := by
        intro hnil
        rw [hnil] at hj
        cases hj
      obtain ⟨e', rest, hcons⟩ := List.exists_cons_of_ne_nil hne
      have hfirst := hhead e' (by rw [hcons]; rfl)
      refine ⟨.serve 0, roles₁, h₁, hseen, ?_, by simp, by simp⟩
      simp [seen?, hcons, hfirst, rank_zero]
    · refine ⟨.serve j, roles₁, h₁, hseen, ?_, by simp, fun hz => absurd (hz i rfl) hzero⟩
      simp [seen?, hj, he, hk]
  · refine ⟨d, roles₁, h₁, hseen, ?_, hcancel, fun _ i hi => ?_⟩
    · cases d with
      | serve i => exact absurd rfl (hserve i)
      | cancel t =>
        have ht : t ∉ C := fun hC => hcancel t hC rfl
        simp [seen?, ht]
      | call name key work => rfl
      | cancelShared key => rfl
      | finish name outcome => rfl
    · exact absurd hi (hserve i)

/-- **There is a run without the cancellations**; it serves the errands in order if the run does. -/
theorem exists_companion (ms : List Move) : ∀ {H : PromiseId → Prop} {roles roles' : Roles String Empty}
    {s s' : Callers}, Twins C H roles roles' s s' →
    (∀ a m b, ms = a ++ m :: b → Proper C (s.moves a) m) →
    ∃ ms', (∀ c ∈ C, Move.cancel c ∉ ms') ∧ seenMoves C ms' s' = seenMoves C ms s ∧
      ((∀ i, Move.serve i ∈ ms → i = 0) → ∀ i, Move.serve i ∈ ms' → i = 0) := by
  induction ms with
  | nil => exact fun _ _ => ⟨[], by simp, rfl, by simp⟩
  | cons m ms ih =>
    intro H roles roles' s s' h hp
    have hhead := hp [] m ms rfl
    have htail : ∀ a m' b, ms = a ++ m' :: b → Proper C ((s.move m).moves a) m' :=
      fun a m' b he => hp (m :: a) m' b (by rw [he]; rfl)
    cases hm : seen? C s m with
    | none =>
      obtain ⟨roles₁, _, h₁⟩ := h.quiet hm hhead.1
      obtain ⟨ms', hc, hseen, horder⟩ := ih h₁ htail
      refine ⟨ms', hc, ?_, fun hz => horder fun i hi => hz i (List.mem_cons_of_mem _ hi)⟩
      rw [hseen, seenMoves, hm]
      rfl
    | some d =>
      obtain ⟨k, m', roles₁, h₁, hflush, hm', hcm, hom⟩ := h.exists_same hm
      obtain ⟨H₂, roles₂, roles₂', _, _, h₂⟩ := h₁.both hm hm' hhead.2
      obtain ⟨ms', hc, hseen, horder⟩ := ih h₂ htail
      refine ⟨List.replicate k (.serve 0) ++ m' :: ms', fun c hC hmem => ?_, ?_, fun hz i hi => ?_⟩
      · rcases List.mem_append.1 hmem with hmem | hmem
        · cases List.eq_of_mem_replicate hmem
        · rcases List.mem_cons.1 hmem with he | hmem
          · exact hcm c hC he.symm
          · exact hc c hC hmem
      · rw [seenMoves_append, hflush, seenMoves, hm', hseen, seenMoves, hm]
        rfl
      · rcases List.mem_append.1 hi with hi | hi
        · cases List.eq_of_mem_replicate hi
          rfl
        · rcases List.mem_cons.1 hi with he | hi
          · exact hom (fun i he => hz i (he ▸ List.mem_cons_self)) i he.symm
          · exact horder (fun i hi => hz i (List.mem_cons_of_mem _ hi)) i hi

end Twins

end SourceTrees.Flight.Callers
