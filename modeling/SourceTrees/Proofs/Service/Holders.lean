import SourceTrees.Proofs.Service.Locks

/-!
# Who holds a lock and who waits for it

A lock is held only as long as a task has it in hand, and a ticket stands in its queue only as long as a
task waits with it.  So nothing is left behind in a lock by a task that has ended.

## Results

* `Service.Attributed` — every held lock has a holder, and every ticket an owner; kept by every stride and
  every step.
-/

set_option autoImplicit false

namespace SourceTrees.Service

open Loop

variable {s s' : Service} {roles roles' : Roles Hook Job} {g g' : PromiseId → Grip} {w : Woken}
  {m m' : Midst} {mv : Service.Move} {language : String} {pooled pooled' : Pooled} {t : PromiseId}
  {turn : Turn Stage Reply}

/-- Every held lock has a holder, and every ticket an owner. -/
structure Attributed (s : Service) (g : PromiseId → Grip) : Prop where
  holder : ∀ {language pooled}, s.pool.get? language = some pooled → pooled.lock.held = true →
    ∃ t, (g t).Holds language
  owner : ∀ {language pooled k}, s.pool.get? language = some pooled → k ∈ pooled.lock.tickets →
    ∃ t, g t = .ticket language k

namespace Attributed

theorem opened (config : Config) (world : World) (eager : Bool) (stuck : Option Fault)
    (log : List LogLine) : Attributed (Service.opened config world eager stuck log) g := by
  constructor
  · intro language pooled hp
    rw [pool_opened] at hp
    cases hp
  · intro language pooled k hp
    rw [pool_opened] at hp
    cases hp

/-- Nothing is done to the pool, and no task puts a lock or a ticket down. -/
theorem next (h : Attributed s g) (hp : s'.pool = s.pool)
    (hg : ∀ t, g' t = g t ∨ (g t).Idle ∨ ∃ l j, g t = .lease l ∧ g' t = .job l j) : Attributed s' g' where
  holder hl hheld := by
    obtain ⟨t, ht⟩ := h.holder (hp ▸ hl) hheld
    refine ⟨t, ?_⟩
    rcases hg t with he | hi | ⟨l, j, hb, ha⟩
    · rwa [he]
    · cases hx : g t <;> simp [hx, Grip.Holds, Grip.Idle] at ht hi
    · rw [hb] at ht
      rw [ha]
      exact ht
  owner hl hk := by
    obtain ⟨t, ht⟩ := h.owner (hp ▸ hl) hk
    refine ⟨t, ?_⟩
    rcases hg t with he | hi | ⟨l, j, hb, ha⟩
    · rwa [he]
    · simp [ht, Grip.Idle] at hi
    · rw [ht] at hb
      cases hb

/-- One pooled parser is changed: what is to be shown of its lock. -/
theorem put (h : Attributed s g) (hpool : s'.pool = s.pool.put language pooled')
    (hheld : pooled'.lock.held = true → ∃ t, (g' t).Holds language)
    (htickets : ∀ k ∈ pooled'.lock.tickets, ∃ t, g' t = .ticket language k)
    (hkept : ∀ t l, l ≠ language → ((g t).Holds l → (g' t).Holds l) ∧
      ∀ k, g t = .ticket l k → g' t = .ticket l k) : Attributed s' g' where
  holder {l p} hl hh := by
    rw [hpool, Keyed.get?_put] at hl
    split at hl
    · rename_i he
      cases hl
      exact he ▸ hheld hh
    · rename_i hne
      obtain ⟨t, ht⟩ := h.holder hl hh
      exact ⟨t, (hkept t l hne).1 ht⟩
  owner {l p k} hl hk := by
    rw [hpool, Keyed.get?_put] at hl
    split at hl
    · rename_i he
      cases hl
      exact he ▸ htickets k hk
    · rename_i hne
      obtain ⟨t, ht⟩ := h.owner hl hk
      exact ⟨t, (hkept t l hne).2 k ht⟩

/-- The task that has its turn works on one lock: what it has in hand for that lock is told by the lock,
    and what others have stays. -/
theorem change {grip : Grip} (h : Attributed s (w.grips m.grip))
    (hp : s.pool.get? language = some pooled) (hpool : s'.pool = s.pool.put language pooled')
    (hother : ∀ l, l ≠ language → ¬ m.grip.Holds l ∧ ∀ k, m.grip ≠ .ticket l k)
    (hheld : pooled'.lock.held = true →
      grip.Holds language ∨ pooled.lock.held = true ∧ ¬ m.grip.Holds language)
    (htickets : ∀ k ∈ pooled'.lock.tickets,
      grip = .ticket language k ∨ k ∈ pooled.lock.tickets ∧ m.grip ≠ .ticket language k) :
    Attributed s' (w.grips grip) := by
  -- Whoever has something that the task has not had before is another one.
  have hne : ∀ {x : Grip} {t}, w.grips m.grip t = x → m.grip ≠ x → w.grips grip t = x := by
    intro x t hx hm
    by_cases he : t = w.task
    · subst he
      exact absurd (grips_self.symm.trans hx) hm
    · exact (Locked.grips_other he).trans hx
  refine h.put hpool (fun hh => ?_) (fun k hk => ?_) fun t l hl => ⟨fun hh => ?_, fun k hk => ?_⟩
  · rcases hheld hh with hg | ⟨hh, hm⟩
    · exact ⟨w.task, by rwa [grips_self]⟩
    · obtain ⟨t, ht⟩ := h.holder hp hh
      exact ⟨t, by rwa [hne rfl fun he => hm (he ▸ ht)]⟩
  · rcases htickets k hk with hg | ⟨hk, hm⟩
    · exact ⟨w.task, by rw [grips_self, hg]⟩
    · obtain ⟨t, ht⟩ := h.owner hp hk
      exact ⟨t, hne ht hm⟩
  · rwa [hne rfl fun he => (hother l hl).1 (he ▸ hh)]
  · exact hne hk ((hother l hl).2 k)

theorem stride (h : Attributed m.service (w.grips m.grip)) (hst : Stride w m m') :
    Attributed m'.service (w.grips m'.grip) := by
  -- The pool is left alone, and the task's grip stays or has been idle.
  have hquiet : m'.service.pool = m.service.pool → (m'.grip = m.grip ∨ m.grip.Idle ∨
      ∃ l j, m.grip = .lease l ∧ m'.grip = .job l j) → Attributed m'.service (w.grips m'.grip) := by
    refine fun hp hg => h.next hp fun t => ?_
    by_cases he : t = w.task
    · subst he
      rwa [grips_self, grips_self]
    · rw [grips_of_ne he, grips_of_ne he]
      exact .inl rfl
  cases hst with
  | submitted crew hc hg =>
    refine hquiet Work.pool_handedIn ?_
    generalize m.grip = before at hg ⊢
    cases hg with
    | boot => exact .inl rfl
    | fetch hs hk he => exact .inr (.inl trivial)
    | parse language source => exact .inr (.inr ⟨_, _, rfl, rfl⟩)
    | copy language source root => exact .inl rfl
  | dismissed => exact hquiet Work.pool_dismiss (.inl rfl)
  | bootBegun hs hg => exact hquiet rfl (.inr (.inl (hg ▸ trivial)))
  | bootFailed hf hg => exact hquiet rfl (.inr (.inl (hg ▸ trivial)))
  | bootReady hs hr hg => exact hquiet rfl (.inr (.inl (hg ▸ trivial)))
  | bootAbandoned hs hf hg => exact hquiet rfl (.inr (.inl (hg ▸ trivial)))
  | fetchKept hs hk hg => exact hquiet rfl (.inr (.inl (hg ▸ trivial)))
  | fetchRefused hs he hg => exact hquiet rfl (.inr (.inl (hg ▸ trivial)))
  | fetchAbandoned hs hf hg => exact hquiet rfl (.inr (.inl (hg ▸ trivial)))
  | fetched hs hr hg => exact hquiet rfl (.inr (.inl (hg ▸ trivial)))
  | fetchFailed hs =>
    refine hquiet rfl (.inr (.inl ?_))
    rcases hs with ⟨_, _, hg⟩ | ⟨_, _, hg⟩
    · rw [hg]
      trivial
    · rw [hg]
      trivial
  | parserMade hn he hb => exact h.put rfl (by simp) (fun k hk => by cases hk) fun t l _ => ⟨id, fun _ => id⟩
  | taken hg hp =>
    exact h.change hp rfl (fun _ _ => by simp [hg, Grip.Holds]) (fun _ => .inl rfl)
      fun k hk => .inr ⟨hk, by simp [hg]⟩
  | admitted hg hp =>
    exact h.change hp rfl (fun _ _ => by simp [hg, Grip.Holds]) (fun _ => .inl rfl)
      fun k hk => .inr ⟨hk, by simp [hg]⟩
  | drawn hg hp =>
    refine h.change hp rfl (fun _ _ => by simp [hg, Grip.Holds])
      (fun hh => .inr ⟨hh, by simp [hg, Grip.Holds]⟩) fun k hk => ?_
    rcases List.mem_append.1 hk with hk | hk
    · exact .inr ⟨hk, by simp [hg]⟩
    · exact .inl (by rw [List.mem_singleton.1 hk])
  | withdrawn hs hg hp =>
    refine h.change hp rfl (fun l hl => ?_) (fun hh => .inr ⟨hh, by simp [hg, Grip.Holds]⟩) fun k hk => ?_
    · rw [hg]
      exact ⟨id, fun k hk => hl (by cases hk; rfl)⟩
    · obtain ⟨hk, hne⟩ := List.mem_filter.1 hk
      refine .inr ⟨hk, fun he => ?_⟩
      rw [hg] at he
      cases he
      simp at hne
  | released hp hg =>
    have hfree : ∀ l k, m.grip ≠ .ticket l k := by
      rcases hg with hg | ⟨job, hg, _⟩ <;> simp [hg]
    refine h.change hp rfl (fun l hl => ?_) (fun hheld => by cases hheld) fun k hk => .inr ⟨hk, hfree _ k⟩
    refine ⟨?_, fun k he => absurd he (hfree l k)⟩
    rcases hg with hg | ⟨job, hg, _⟩ <;> rw [hg] <;> exact Ne.symm hl
  | _ => exact hquiet rfl (.inl rfl)

theorem strides (h : Attributed m.service (w.grips m.grip)) (hst : Strides w m m') :
    Attributed m'.service (w.grips m'.grip) := by
  induction hst with
  | refl => exact h
  | tail _ hstep ih => exact ih.stride hstep

/-- **Every step keeps locks and tickets with their tasks.** -/
theorem step (h : Attributed s s.gripAt) (ho : AtRest s roles) (hst : Step s roles mv s' roles') :
    Attributed s' s'.gripAt := by
  rcases hst.aside_or_turn ho with ha | ⟨w, m, turn, ht, rfl, rfl⟩
  · exact h.next ha.pool fun t => .inl (congrFun ha.gripAt_eq t)
  · obtain ⟨i, hb⟩ := ht.before
    have hstart : Attributed w.before (w.grips w.stage.grip) := by
      rw [ht.grips_eq]
      exact h.next (by rw [hb]) fun t => .inl rfl
    have hm := hstart.strides ht.strides
    rw [ht.gripAt_conclude]
    -- Nothing but a result can be left in the hands of a task that has ended.
    constructor
    · intro language pooled hp hheld
      obtain ⟨t, hh⟩ := hm.holder hp hheld
      refine ⟨t, ?_⟩
      rwa [ht.ends.gripsAfter_eq rfl (fun he => by simp [he, Grip.Holds] at hh)
        fun result he => by simp [he, Grip.Holds] at hh]
    · intro language pooled k hp hk
      obtain ⟨t, hg⟩ := hm.owner hp hk
      exact ⟨t, ht.ends.gripsAfter_eq hg (by simp) (by simp)⟩

end Attributed

end SourceTrees.Service
