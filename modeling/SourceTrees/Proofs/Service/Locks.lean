import SourceTrees.Proofs.Service.Grips

/-!
# The locks on parsers

A lock is held as long as a task has it in hand, and one task at most has it.  A ticket that has been
called is the first in its queue, and while it is there the lock is free and nobody else can take it.

## Results

* `Service.Locked` — the invariant of all locks, given what every task has in its hands.
* `Service.Locked.stride`, `Service.Locked.step` — every stride and every step keep it.
-/

set_option autoImplicit false

namespace SourceTrees

/-- The task has the lock on the parser of the language in hand, for itself or for a job. -/
def Grip.Holds (language : String) : Grip → Prop
  | lease l | job l _ => l = language
  | _ => False

/-- The task has no lock and no ticket in hand. -/
def Grip.Idle : Grip → Prop
  | free | boot | fetch _ | ended _ => True
  | _ => False

theorem Stage.grip_ne_called (stage : Stage) (language : String) : stage.grip ≠ .called language := by
  rcases stage with _ | ⟨_ | _ | _⟩ | ⟨_ | _⟩ | _ | _ | _ | ⟨_, _ | _⟩ | _ |
    ⟨_, _ | ⟨_, _, _, _ | _⟩ | _ | _ | _⟩ | _ | _ <;> simp [Stage.grip, LeaseStage.grip, ParseStage.grip]

namespace Service

open Loop

/-- A ticket has been called. -/
def Called (s : Service) (k : PromiseId) : Prop := ∃ v, s.loop.outcome? k = some (.value v)

/-- The locks are in order. -/
structure Locked (busy : Option PromiseId) (s : Service) (roles : Roles Hook Job)
    (grips : PromiseId → Grip) : Prop where
  fits : ∀ t, (grips t).Fits roles s.pool
  held : ∀ {t language pooled}, (grips t).Holds language →
    s.pool.get? language = some pooled → pooled.lock.held = true
  single : ∀ {t t' language}, (grips t).Holds language → (grips t').Holds language → t = t'
  waiting : ∀ {t language k pooled}, grips t = .ticket language k →
    s.pool.get? language = some pooled → k ∈ pooled.lock.tickets
  own : ∀ {t t' language language' k}, grips t = .ticket language k →
    grips t' = .ticket language' k → t = t'
  first : ∀ {language pooled k}, s.pool.get? language = some pooled → k ∈ pooled.lock.tickets →
    s.Called k → pooled.lock.held = false ∧ pooled.lock.tickets.head? = some k
  entering : ∀ {t language pooled}, grips t = .called language →
    s.pool.get? language = some pooled → pooled.lock.held = false ∧
      ∀ k ∈ pooled.lock.tickets, ¬ s.Called k
  inTurn : ∀ {t language}, grips t = .called language → busy = some t

variable {busy busy' : Option PromiseId} {s s' : Service} {roles roles' : Roles Hook Job}
  {g g' : PromiseId → Grip} {w : Woken} {m m' : Midst} {language : String} {pooled : Pooled}
  {t : PromiseId} {turn : Turn Stage Reply}

namespace Locked

theorem opened (config : Config) (world : World) (eager : Bool) (stuck : Option Fault)
    (log : List LogLine) :
    Locked none (Service.opened config world eager stuck log) (fun _ => .unused) fun _ => .free := by
  refine ⟨fun _ => trivial, fun h => ?_, fun h => ?_, fun h => ?_, fun h => ?_, fun h => ?_,
    fun h => ?_, fun h => ?_⟩
  · cases h
  · cases h
  · cases h
  · cases h
  · simp at h
  · cases h
  · cases h

/-- Nothing is done to the pool, no ticket is called, and tasks at most put down what they have, or
    hand in a job for the parser. -/
theorem next (h : Locked busy s roles g) (hp : s'.pool = s.pool) (hf : ∀ t, (g' t).Fits roles' s'.pool)
    (hc : ∀ {language pooled k}, s.pool.get? language = some pooled → k ∈ pooled.lock.tickets →
      s'.Called k → s.Called k)
    (hg : ∀ t, g' t = g t ∨ (g' t).Idle ∨ ∃ l j, g t = .lease l ∧ g' t = .job l j)
    (hb : ∀ {t language}, g' t = .called language → busy' = some t) :
    Locked busy' s' roles' g' := by
  have hholds : ∀ {t language}, (g' t).Holds language → (g t).Holds language := by
    intro t language hh
    rcases hg t with he | hi | ⟨l, j, he, he'⟩
    · rwa [← he]
    · cases hx : g' t <;> simp_all [Grip.Idle, Grip.Holds]
    · rw [he'] at hh
      rw [he]
      exact hh
  have hticket : ∀ {t language k}, g' t = .ticket language k → g t = .ticket language k := by
    intro t language k ht
    rcases hg t with he | hi | ⟨l, j, he, he'⟩
    · rwa [← he]
    · rw [ht] at hi
      exact hi.elim
    · rw [ht] at he'
      cases he'
  have hcalled : ∀ {t language}, g' t = .called language → g t = .called language := by
    intro t language ht
    rcases hg t with he | hi | ⟨l, j, he, he'⟩
    · rwa [← he]
    · rw [ht] at hi
      exact hi.elim
    · rw [ht] at he'
      cases he'
  refine ⟨hf, fun hh hpool => h.held (hholds hh) (hp ▸ hpool),
    fun hh hh' => h.single (hholds hh) (hholds hh'),
    fun ht hpool => h.waiting (hticket ht) (hp ▸ hpool),
    fun ht ht' => h.own (hticket ht) (hticket ht'), fun hpool hk hca => ?_, fun ht hpool => ?_, hb⟩
  · rw [hp] at hpool
    exact h.first hpool hk (hc hpool hk hca)
  · rw [hp] at hpool
    obtain ⟨hheld, hnone⟩ := h.entering (hcalled ht) hpool
    exact ⟨hheld, fun k hk hca => hnone k hk (hc hpool hk hca)⟩

/-- One pooled parser is changed: what is to be shown of its lock. -/
theorem put (h : Locked busy s roles g) {pooled' : Pooled}
    (hpool : s'.pool = s.pool.put language pooled') (hf : ∀ t, (g' t).Fits roles' s'.pool)
    (hc : ∀ k, s'.Called k → s.Called k)
    (hholds : ∀ {t l}, (g' t).Holds l → l = language ∨ (g t).Holds l)
    (hticket : ∀ {t l k}, g' t = .ticket l k → l = language ∨ g t = .ticket l k)
    (hcalled : ∀ {t l}, g' t = .called l → l = language ∨ g t = .called l)
    (hheld : ∀ t, (g' t).Holds language → pooled'.lock.held = true)
    (hsingle : ∀ t t', (g' t).Holds language → (g' t').Holds language → t = t')
    (hwaiting : ∀ t k, g' t = .ticket language k → k ∈ pooled'.lock.tickets)
    (hown : ∀ t t' l l' k, g' t = .ticket l k → g' t' = .ticket l' k → t = t')
    (hfirst : ∀ k ∈ pooled'.lock.tickets, s'.Called k →
      pooled'.lock.held = false ∧ pooled'.lock.tickets.head? = some k)
    (hentering : ∀ t, g' t = .called language → pooled'.lock.held = false ∧
      ∀ k ∈ pooled'.lock.tickets, ¬ s'.Called k)
    (hb : ∀ t l, g' t = .called l → busy' = some t) : Locked busy' s' roles' g' := by
  have hget : ∀ {l p}, s'.pool.get? l = some p → l = language ∧ p = pooled' ∨
      l ≠ language ∧ s.pool.get? l = some p := by
    intro l p hl
    rw [hpool, Keyed.get?_put] at hl
    split at hl
    · rename_i he
      exact .inl ⟨he, (Option.some.inj hl).symm⟩
    · rename_i he
      exact .inr ⟨he, hl⟩
  refine ⟨hf, fun {t l p} hh hl => ?_, fun {t t' l} hh hh' => ?_, fun {t l k p} ht hl => ?_,
    hown _ _ _ _ _, fun {l p k} hl hk hca => ?_, fun {t l p} ht hl => ?_, hb _ _⟩
  · rcases hget hl with ⟨rfl, rfl⟩ | ⟨hne, hl⟩
    · exact hheld t hh
    · exact h.held ((hholds hh).resolve_left hne) hl
  · by_cases he : l = language
    · subst he
      exact hsingle t t' hh hh'
    · exact h.single ((hholds hh).resolve_left he) ((hholds hh').resolve_left he)
  · rcases hget hl with ⟨rfl, rfl⟩ | ⟨hne, hl⟩
    · exact hwaiting t k ht
    · exact h.waiting ((hticket ht).resolve_left hne) hl
  · rcases hget hl with ⟨rfl, rfl⟩ | ⟨hne, hl⟩
    · exact hfirst k hk hca
    · exact h.first hl hk (hc k hca)
  · rcases hget hl with ⟨rfl, rfl⟩ | ⟨hne, hl⟩
    · exact hentering t ht
    · obtain ⟨hfree, hnone⟩ := h.entering ((hcalled ht).resolve_left hne) hl
      exact ⟨hfree, fun k hk hca => hnone k hk (hc k hca)⟩

/-- What the grips of a turn are, when the task that has it changes its grip. -/
theorem grips_cases {grip : Grip} {t : PromiseId} {x : Grip} (h : w.grips grip t = x) :
    t = w.task ∧ grip = x ∨ t ≠ w.task ∧ w.before.gripAt t = x := by
  by_cases ht : t = w.task
  · subst ht
    rw [grips_self] at h
    exact .inl ⟨rfl, h⟩
  · rw [grips_of_ne ht] at h
    exact .inr ⟨ht, h⟩

theorem holds_cases {grip : Grip} {t : PromiseId} {l : String} (h : (w.grips grip t).Holds l) :
    t = w.task ∧ grip.Holds l ∨ t ≠ w.task ∧ (w.before.gripAt t).Holds l := by
  by_cases ht : t = w.task
  · subst ht
    rw [grips_self] at h
    exact .inl ⟨rfl, h⟩
  · rw [grips_of_ne ht] at h
    exact .inr ⟨ht, h⟩

/-- The grips of other tasks do not change in a turn. -/
theorem grips_other {grip grip' : Grip} {t : PromiseId} (ht : t ≠ w.task) :
    w.grips grip' t = w.grips grip t := by
  rw [grips_of_ne ht, grips_of_ne ht]

/-- A task takes the lock: nobody has it, and no ticket is called. -/
theorem take {grip : Grip} {pooled' : Pooled} (h : Locked (some w.task) s roles (w.grips grip))
    (hpool : s'.pool = s.pool.put language pooled')
    (hp : s.pool.get? language = some pooled) (hheld : pooled.lock.held = false)
    (hfree : ∀ k ∈ pooled.lock.tickets, ¬ s.Called k) (hheld' : pooled'.lock.held = true)
    (htickets : pooled'.lock.tickets = pooled.lock.tickets)
    (hc : ∀ k, s'.Called k → s.Called k)
    (hf : ∀ t, (w.grips (.lease language) t).Fits roles s'.pool) :
    Locked (some w.task) s' roles (w.grips (.lease language)) := by
  have hnone : ∀ t, t ≠ w.task → ¬ (w.before.gripAt t).Holds language := by
    intro t ht hh
    have hheld'' := h.held (t := t) (by rwa [grips_of_ne ht]) hp
    rw [hheld] at hheld''
    cases hheld''
  have hold : ∀ {t x}, w.grips (.lease language) t = x → x ≠ .lease language →
      w.grips grip t = x ∧ t ≠ w.task := by
    intro t x ht hx
    rcases grips_cases ht with ⟨_, he⟩ | ⟨hne, ht⟩
    · exact absurd he.symm hx
    · exact ⟨by rw [grips_of_ne hne, ht], hne⟩
  refine h.put hpool hf hc (fun {t l} hh => ?_) (fun ht => .inr (hold ht (by simp)).1)
    (fun ht => .inr (hold ht (by simp)).1) (fun _ _ => hheld') (fun t t' hh hh' => ?_)
    (fun t k ht => ?_) (fun t t' l l' k ht ht' => ?_) (fun k hk hca => ?_) (fun t ht => ?_)
    fun t l ht => ?_
  · rcases holds_cases hh with ⟨_, he⟩ | ⟨hne, hh⟩
    · exact .inl he.symm
    · exact .inr (by rwa [grips_of_ne hne])
  · rcases holds_cases hh with ⟨rfl, _⟩ | ⟨hne, hh⟩
    · rcases holds_cases hh' with ⟨rfl, _⟩ | ⟨hne', hh'⟩
      · rfl
      · exact absurd hh' (hnone _ hne')
    · exact absurd hh (hnone _ hne)
  · rw [htickets]
    exact h.waiting (hold ht (by simp)).1 hp
  · exact h.own (hold ht (by simp)).1 (hold ht' (by simp)).1
  · rw [htickets] at hk
    exact absurd (hc k hca) (hfree k hk)
  · obtain ⟨ht, hne⟩ := hold ht (by simp)
    exact absurd (Option.some.inj (h.inTurn ht)).symm hne
  · exact h.inTurn (hold ht (by simp)).1

/-- Nobody but the task that has its turn has just been called. -/
theorem gripAt_ne_called {grip : Grip} (h : Locked (some w.task) s roles (w.grips grip)) {t : PromiseId}
    (ht : t ≠ w.task) (l : String) : w.before.gripAt t ≠ .called l := by
  intro he
  have hb := h.inTurn (t := t) (by rw [grips_of_ne ht, he])
  exact ht (Option.some.inj hb).symm

/-- The lock is given back by who has it. -/
theorem drop {grip : Grip} {pooled' : Pooled} (h : Locked (some w.task) s roles (w.grips grip))
    (hpool : s'.pool = s.pool.put language pooled')
    (hg : grip.Holds language) (hp : s.pool.get? language = some pooled)
    (hheld : pooled'.lock.held = false) (htickets : pooled'.lock.tickets = pooled.lock.tickets)
    (hc : ∀ k, s'.Called k → s.Called k)
    (hf : ∀ t, (w.grips .free t).Fits roles s'.pool) : Locked (some w.task) s' roles (w.grips .free) := by
  have hold : ∀ {t x}, w.grips .free t = x → x ≠ .free → w.grips grip t = x ∧ t ≠ w.task := by
    intro t x ht hx
    rcases grips_cases ht with ⟨_, he⟩ | ⟨hne, ht⟩
    · exact absurd he.symm hx
    · exact ⟨by rw [grips_of_ne hne, ht], hne⟩
  have hholds : ∀ {t l}, (w.grips .free t).Holds l → (w.grips grip t).Holds l ∧ t ≠ w.task := by
    intro t l hh
    rcases holds_cases hh with ⟨_, he⟩ | ⟨hne, hh⟩
    · exact he.elim
    · exact ⟨by rwa [grips_of_ne hne], hne⟩
  have hnone : ∀ t, ¬ (w.grips .free t).Holds language := by
    intro t hh
    obtain ⟨hh, hne⟩ := hholds hh
    exact hne (h.single hh (show (w.grips _ w.task).Holds language by rwa [grips_self]))
  refine h.put hpool hf hc (fun hh => .inr (hholds hh).1) (fun ht => .inr (hold ht (by simp)).1)
    (fun ht => .inr (hold ht (by simp)).1) (fun t hh => absurd hh (hnone t))
    (fun t t' hh => absurd hh (hnone t)) (fun t k ht => ?_)
    (fun t t' l l' k ht ht' => h.own (hold ht (by simp)).1 (hold ht' (by simp)).1)
    (fun k hk hca => ?_) (fun t ht => ?_) fun t l ht => h.inTurn (hold ht (by simp)).1
  · rw [htickets]
    exact h.waiting (hold ht (by simp)).1 hp
  · rw [htickets] at hk ⊢
    exact ⟨hheld, (h.first hp hk (hc k hca)).2⟩
  · obtain ⟨ht, hne⟩ := hold ht (by simp)
    exact absurd (Option.some.inj (h.inTurn ht)).symm hne

/-- A task draws a new ticket. -/
theorem draw {k : PromiseId} {pooled' : Pooled} (h : Locked (some w.task) s roles (w.grips .free))
    (hpool : s'.pool = s.pool.put language pooled')
    (hp : s.pool.get? language = some pooled) (hheld : pooled'.lock.held = pooled.lock.held)
    (htickets : pooled'.lock.tickets = pooled.lock.tickets ++ [k]) (hk : ¬ s'.Called k)
    (hfresh : ∀ t l, w.grips .free t ≠ .ticket l k)
    (hc : ∀ k, s'.Called k → s.Called k)
    (hf : ∀ t, (w.grips (.ticket language k) t).Fits roles' s'.pool) :
    Locked (some w.task) s' roles' (w.grips (.ticket language k)) := by
  have hholds : ∀ {t l}, (w.grips (.ticket language k) t).Holds l → (w.grips .free t).Holds l := by
    intro t l hh
    rcases holds_cases hh with ⟨_, he⟩ | ⟨hne, hh⟩
    · exact he.elim
    · rwa [grips_of_ne hne]
  have hticket : ∀ {t l k'}, w.grips (.ticket language k) t = .ticket l k' →
      t = w.task ∧ l = language ∧ k' = k ∨ w.grips .free t = .ticket l k' := by
    intro t l k' ht
    rcases grips_cases ht with ⟨rfl, he⟩ | ⟨hne, ht⟩
    · cases he
      exact .inl ⟨rfl, rfl, rfl⟩
    · exact .inr (by rw [grips_of_ne hne, ht])
  have hcalled : ∀ {t l}, w.grips (.ticket language k) t ≠ .called l := by
    intro t l ht
    rcases grips_cases ht with ⟨_, he⟩ | ⟨hne, ht⟩
    · cases he
    · exact h.gripAt_ne_called hne l ht
  refine h.put hpool hf hc (fun hh => .inr (hholds hh)) (fun ht => ?_)
    (fun ht => absurd ht hcalled) (fun t hh => hheld.trans (h.held (hholds hh) hp))
    (fun t t' hh hh' => h.single (hholds hh) (hholds hh')) (fun t k' ht => ?_)
    (fun t t' l l' k' ht ht' => ?_) (fun k' hk' hca => ?_) (fun t ht => absurd ht hcalled)
    fun t l ht => absurd ht hcalled
  · exact (hticket ht).imp (fun he => he.2.1) id
  · rw [htickets, List.mem_append, List.mem_singleton]
    exact (hticket ht).symm.imp (fun ht => h.waiting ht hp) fun he => he.2.2
  · rcases hticket ht with ⟨rfl, _, rfl⟩ | hold
    · rcases hticket ht' with ⟨rfl, _, _⟩ | hold'
      · rfl
      · exact absurd hold' (hfresh t' l')
    · rcases hticket ht' with ⟨_, _, rfl⟩ | hold'
      · exact absurd hold (hfresh t l)
      · exact h.own hold hold'
  · rw [htickets, List.mem_append, List.mem_singleton] at hk'
    rcases hk' with hk' | rfl
    · obtain ⟨hfree, hhead⟩ := h.first hp hk' (hc k' hca)
      rw [htickets, List.head?_append, hhead]
      exact ⟨hheld.trans hfree, rfl⟩
    · exact absurd hca hk

/-- A task gives up its ticket: it has been called, or not. -/
theorem withdraw {k : PromiseId} {grip : Grip} {pooled' : Pooled}
    (h : Locked (some w.task) s roles (w.grips (.ticket language k)))
    (hpool : s'.pool = s.pool.put language pooled')
    (hp : s.pool.get? language = some pooled) (hheld : pooled'.lock.held = pooled.lock.held)
    (htickets : pooled'.lock.tickets = pooled.lock.tickets.filter (· ≠ k))
    (hg : grip = .free ∨ grip = .called language ∧ s.Called k)
    (hc : ∀ k, s'.Called k → s.Called k)
    (hf : ∀ t, (w.grips grip t).Fits roles s'.pool) :
    Locked (some w.task) s' roles (w.grips grip) := by
  have hholds : ∀ {t l}, (w.grips grip t).Holds l → (w.grips (.ticket language k) t).Holds l := by
    intro t l hh
    rcases holds_cases hh with ⟨_, he⟩ | ⟨hne, hh⟩
    · rcases hg with rfl | ⟨rfl, _⟩
      · exact he.elim
      · exact he.elim
    · rwa [grips_of_ne hne]
  have hticket : ∀ {t l k'}, w.grips grip t = .ticket l k' →
      w.grips (.ticket language k) t = .ticket l k' ∧ t ≠ w.task := by
    intro t l k' ht
    rcases grips_cases ht with ⟨_, he⟩ | ⟨hne, ht⟩
    · rcases hg with rfl | ⟨rfl, _⟩
      · cases he
      · cases he
    · exact ⟨by rw [grips_of_ne hne, ht], hne⟩
  have hcalled : ∀ {t l}, w.grips grip t = .called l → t = w.task ∧ l = language ∧ s.Called k := by
    intro t l ht
    rcases grips_cases ht with ⟨rfl, he⟩ | ⟨hne, ht⟩
    · rcases hg with rfl | ⟨rfl, hk⟩
      · cases he
      · cases he
        exact ⟨rfl, rfl, hk⟩
    · exact absurd ht (h.gripAt_ne_called hne l)
  have hmem : ∀ {k'}, k' ∈ pooled'.lock.tickets ↔ k' ∈ pooled.lock.tickets ∧ k' ≠ k := by
    intro k'
    rw [htickets, List.mem_filter, decide_eq_true_eq]
  refine h.put hpool hf hc (fun hh => .inr (hholds hh)) (fun ht => .inr (hticket ht).1)
    (fun ht => .inl (hcalled ht).2.1) (fun t hh => hheld.trans (h.held (hholds hh) hp))
    (fun t t' hh hh' => h.single (hholds hh) (hholds hh')) (fun t k' ht => ?_)
    (fun t t' l l' k' ht ht' => h.own (hticket ht).1 (hticket ht').1) (fun k' hk' hca => ?_)
    (fun t ht => ?_) fun t l ht => ?_
  · obtain ⟨ht, hne⟩ := hticket ht
    refine hmem.2 ⟨h.waiting ht hp, ?_⟩
    rintro rfl
    exact hne (h.own ht (show w.grips _ w.task = _ from grips_self))
  · obtain ⟨hk', hne⟩ := hmem.1 hk'
    obtain ⟨hfree, hhead⟩ := h.first hp hk' (hc k' hca)
    refine ⟨hheld.trans hfree, ?_⟩
    obtain ⟨ks, hks⟩ := List.head?_eq_some_iff.1 hhead
    rw [htickets, hks, List.filter_cons_of_pos (by simpa using hne)]
    rfl
  · obtain ⟨_, _, hk⟩ := hcalled ht
    obtain ⟨hfree, hhead⟩ := h.first hp (h.waiting (t := w.task) grips_self hp) hk
    refine ⟨hheld.trans hfree, fun k' hk' hca => ?_⟩
    obtain ⟨hk', hne⟩ := hmem.1 hk'
    have hhead' := (h.first hp hk' (hc k' hca)).2
    rw [hhead] at hhead'
    exact hne (Option.some.inj hhead').symm
  · rw [(hcalled ht).1]

/-- A new parser is put into the pool. -/
theorem make {pooled' : Pooled} (h : Locked busy s roles g)
    (hpool : s'.pool = s.pool.put language pooled') (hn : s.pool.contains language = false)
    (htickets : pooled'.lock.tickets = [])
    (hc : ∀ k, s'.Called k → s.Called k) (hf : ∀ t, (g t).Fits roles s'.pool) :
    Locked busy s' roles g := by
  have hnot : ¬ s.pool.contains language = true := by simp [hn]
  have hnone : ∀ t, ¬ (g t).Holds language := by
    intro t hh
    have hft := h.fits t
    cases hx : g t <;> rw [hx] at hh hft <;> try exact hh.elim
    · exact hnot (hh ▸ hft)
    · exact hnot (hh ▸ hft.2)
  refine h.put hpool hf hc .inr .inr .inr (fun t hh => absurd hh (hnone t))
    (fun t t' hh => absurd hh (hnone t)) (fun t k ht => ?_) (fun t t' l l' k => h.own)
    (fun k hk => ?_) (fun t ht => ?_) fun t l => h.inTurn
  · have hft := h.fits t
    rw [ht] at hft
    exact absurd hft.2 hnot
  · rw [htickets] at hk
    cases hk
  · have hft := h.fits t
    rw [ht] at hft
    exact absurd hft hnot

/-- The first ticket is called, the lock being free and nobody having been called. -/
theorem call {grip : Grip} {k : PromiseId} {ks : List PromiseId}
    (h : Locked (some w.task) s roles (w.grips grip)) (hg : grip = .free)
    (hp : s.pool.get? language = some pooled) (hheld : pooled.lock.held = false)
    (hk : pooled.lock.tickets = k :: ks)
    (hown : ∀ {l p}, s.pool.get? l = some p → k ∈ p.lock.tickets → l = language)
    (hpool : s'.pool = s.pool) (hc : ∀ k', s'.Called k' → k' = k ∨ s.Called k')
    (hf : ∀ t, (w.grips grip t).Fits roles s'.pool) :
    Locked (some w.task) s' roles (w.grips grip) := by
  subst hg
  refine ⟨hf, fun hh hl => h.held hh (hpool ▸ hl), h.single, fun ht hl => h.waiting ht (hpool ▸ hl),
    h.own, fun {l p k'} hl hk' hca => ?_, fun {t l p} ht hl => ?_, h.inTurn⟩
  · rw [hpool] at hl
    rcases hc k' hca with rfl | hca
    · obtain rfl := hown hl hk'
      rw [hp] at hl
      cases hl
      exact ⟨hheld, by rw [hk]; rfl⟩
    · exact h.first hl hk' hca
  · rcases grips_cases ht with ⟨_, he⟩ | ⟨hne, ht⟩
    · cases he
    · exact absurd ht (h.gripAt_ne_called hne l)

/-- During a turn nothing is done to the pool and no ticket is called. -/
theorem quiet (h : Locked (some w.task) m.service m.roles (w.grips m.grip))
    (hp : m'.service.pool = m.service.pool)
    (hs : ∀ p, m'.service.loop.outcome? p = m.service.loop.outcome? p)
    (hf : ∀ t, (w.grips m'.grip t).Fits m'.roles m'.service.pool)
    (hg : m'.grip = m.grip ∨ m'.grip.Idle ∨ ∃ l j, m.grip = .lease l ∧ m'.grip = .job l j) :
    Locked (some w.task) m'.service m'.roles (w.grips m'.grip) := by
  refine h.next hp hf (fun _ _ hca => ?_) (fun t => ?_) fun {t l} ht => ?_
  · obtain ⟨v, hv⟩ := hca
    exact ⟨v, (hs _).symm.trans hv⟩
  · by_cases ht : t = w.task
    · subst ht
      rwa [grips_self, grips_self]
    · rw [grips_of_ne ht, grips_of_ne ht]
      exact .inl rfl
  · rcases grips_cases ht with ⟨rfl, _⟩ | ⟨hne, ht⟩
    · rfl
    · exact absurd ht (h.gripAt_ne_called hne l)

end Locked

/-- Parsers stay in the pool. -/
theorem Stride.contains (hst : Stride w m m') (l : String)
    (hl : m.service.pool.contains l = true) : m'.service.pool.contains l = true := by
  cases hst with
  | submitted crew hc hg => rwa [Work.pool_handedIn]
  | dismissed => rwa [Work.pool_dismiss]
  | parserMade hn he hb => simp [hl]
  | taken hg hp hheld hall => simp [hl]
  | admitted hg hp => simp [hl]
  | drawn hg hp => simp [hl]
  | withdrawn hs hg hp => simp [hl]
  | released hp hg => simp [hl]
  | _ => exact hl

/-- A task that is given something rests on a promise with that outcome. -/
theorem InTurn.called (ht : InTurn w m) {k : PromiseId} (hs : w.stage.rest = .ticket language k)
    {r : Reply} (hr : w.given = .ok r) : m.service.Called k := by
  obtain ⟨task, given, hplaced, hgives, hmet⟩ := ht.placed
  have hrest := hplaced.rest
  rw [hs] at hrest
  unfold Loop.Gives at hgives
  rw [hrest.1] at hgives
  obtain ⟨o, ho, rfl⟩ := hgives
  obtain ⟨_, hgiven⟩ := Program.met_eq_ok (hmet.symm.trans hr)
  cases o with
  | value v => exact ⟨v, ho⟩
  | failed f => cases hgiven
  | cancelled => cases hgiven

theorem Locked.stride (h : Locked (some w.task) m.service m.roles (w.grips m.grip)) (ht : InTurn w m)
    (hst : Stride w m m') : Locked (some w.task) m'.service m'.roles (w.grips m'.grip) := by
  have hf : ∀ t, (w.grips m'.grip t).Fits m'.roles m'.service.pool := by
    intro t
    by_cases he : t = w.task
    · subst he
      rw [grips_self]
      exact (ht.stride hst).grip
    · have hold := (h.fits t).mono (hst.extends ht) hst.contains
      rwa [grips_of_ne he] at hold ⊢
  have hlaunch : ∀ {point : Stage} {hook : Hook} {p q : PromiseId},
      (((m.service.loop.spawn point).2.subscribe p (.hook hook)).shield q).2.outcome? =
        m.service.loop.outcome? := by
    intro point hook p q
    funext k
    exact (((Still.spawn point).trans (.subscribe p _)).trans (.shield q)).outcome k
  cases hst with
  | bootJoined hp hr => exact h.quiet rfl (Still.shield _).outcome hf (.inl rfl)
  | bootLaunched hp hn => exact h.quiet rfl (fun p => congrFun hlaunch p) hf (.inl rfl)
  | loadJoined language hp hr => exact h.quiet rfl (Still.shield _).outcome hf (.inl rfl)
  | loadLaunched language hp hn => exact h.quiet rfl (fun p => congrFun hlaunch p) hf (.inl rfl)
  | submitted crew hc hg =>
    refine h.quiet Work.pool_handedIn (fun p => Work.outcome?_handedIn) hf ?_
    generalize m.grip = before at hg ⊢
    cases hg with
    | boot => exact .inl rfl
    | fetch hs hk he => exact .inr (.inl trivial)
    | parse language source => exact .inr (.inr ⟨_, _, rfl, rfl⟩)
    | copy language source root => exact .inl rfl
  | guarded hg => exact h.quiet rfl (Still.shield _).outcome hf (.inl rfl)
  | waited hg => exact h.quiet rfl (Still.waiter _).outcome hf (.inl rfl)
  | @unsubscribed use language job waiter cancellation hs =>
    have hstill : m.service.loop.Still (m.service.loop.unsubscribe job (.signal waiter)) :=
      .unsubscribe job _
    exact h.quiet rfl hstill.outcome hf (.inl rfl)
  | bootTimed seconds hg => exact h.quiet rfl (Still.timer seconds).outcome hf (.inl rfl)
  | parserMade hn he hb => exact h.make rfl hn rfl (fun _ => id) hf
  | taken hg hp hheld hall =>
    refine h.take rfl hp hheld (fun k hk hca => ?_) rfl rfl (fun _ => id) hf
    obtain ⟨v, hv⟩ := hca
    have hcancelled := hall k hk
    unfold isCancelled at hcancelled
    rw [hv] at hcancelled
    cases hcancelled
  | admitted hg hp =>
    obtain ⟨hheld, hnone⟩ := h.entering (t := w.task) (by rw [grips_self, hg]) hp
    exact h.take rfl hp hheld hnone rfl rfl (fun _ => id) hf
  | drawn hg hp =>
    rw [hg] at h
    have hout : ∀ k, m.service.loop.promise.2.outcome? k = m.service.loop.outcome? k :=
      Still.promise.outcome
    refine h.draw rfl hp rfl rfl ?_ (fun t l he => ?_) ?_ hf
    · rintro ⟨v, hv⟩
      rw [hout] at hv
      exact Nat.lt_irrefl _ (outcome?_lt hv)
    · have hft := h.fits t
      rw [he] at hft
      exact Nat.lt_irrefl _ (ht.ordered.sound.assigned.lt_size (by simp [hft.1]))
    · rintro k ⟨v, hv⟩
      rw [hout] at hv
      exact ⟨v, hv⟩
  | withdrawn hs hg hp =>
    rw [hg] at h
    refine h.withdraw rfl hp rfl rfl ?_ (fun _ => id) hf
    cases hr : w.given with
    | ok r => exact .inr ⟨rfl, ht.called hs hr⟩
    | error f => exact .inl rfl
  | @calledNext language pooled k ks hg hp hheld hk =>
    have hrole := ht.tickets hp k (hk ▸ List.mem_cons_self)
    refine h.call hg hp hheld hk (fun {l p} hl hmem => ?_) rfl (fun k' hca => ?_) hf
    · have hrole' := ht.tickets hl k hmem
      rw [hrole] at hrole'
      cases hrole'
      rfl
    · obtain ⟨v, hv⟩ := hca
      replace hv : (m.service.loop.settle k (.value .nothing)).outcome? k' = some (.value v) := hv
      rw [outcome?_settle] at hv
      split at hv
      · rename_i hc
        exact .inl hc.1
      · exact .inr ⟨v, hv⟩
  | released hp hg =>
    refine h.drop rfl ?_ hp rfl rfl (fun _ => id) hf
    rcases hg with hg | ⟨job, hg, _⟩
    · rw [hg]
      rfl
    · rw [hg]
      rfl
  | gateMade => exact h.quiet rfl Still.promise.outcome hf (.inl rfl)
  | spawned call => exact h.quiet rfl (Still.spawn _).outcome hf (.inl rfl)
  | grouped hm => exact h.quiet rfl (Still.group _).outcome hf (.inl rfl)
  | dismissed => exact h.quiet Work.pool_dismiss (fun p => Work.outcome?_dismiss) hf (.inl rfl)
  | bootBegun hs hg => exact h.quiet rfl (fun _ => rfl) hf (.inr (.inl trivial))
  | bootFailed hfl hg => exact h.quiet rfl (fun _ => rfl) hf (.inr (.inl trivial))
  | bootReady hs hr hg => exact h.quiet rfl (fun _ => rfl) hf (.inr (.inl trivial))
  | bootAbandoned hs hfl hg => exact h.quiet rfl (fun _ => rfl) hf (.inr (.inl trivial))
  | fetchKept hs hk hg => exact h.quiet rfl (fun _ => rfl) hf (.inr (.inl trivial))
  | fetchRefused hs he hg => exact h.quiet rfl (fun _ => rfl) hf (.inr (.inl trivial))
  | fetchAbandoned hs hfl hg => exact h.quiet rfl (fun _ => rfl) hf (.inr (.inl trivial))
  | fetched hs hr hg => exact h.quiet rfl (fun _ => rfl) hf (.inr (.inl trivial))
  | fetchFailed hs => exact h.quiet rfl (fun _ => rfl) hf (.inr (.inl trivial))
  | _ => exact h.quiet rfl (fun _ => rfl) hf (.inl rfl)

theorem Locked.strides (h : Locked (some w.task) m.service m.roles (w.grips m.grip)) (ht : InTurn w m)
    (hst : Strides w m m') : Locked (some w.task) m'.service m'.roles (w.grips m'.grip) := by
  induction hst with
  | refl => exact h
  | tail hst hstep ih => exact ih.stride (ht.strides hst) hstep

/-! ## Steps -/

/-- A turn ends: the grips are those of the stages again. -/
theorem Locked.conclude (h : Locked (some w.task) m.service m.roles (w.grips m.grip)) (ht : InTurn w m)
    (hw : m.service.gripAt = w.before.gripAt) (hend : Ends w m turn) :
    Locked none { m.service with loop := Program.conclude w.task turn m.service.loop } m.roles
      (gripAt { m.service with loop := Program.conclude w.task turn m.service.loop }) := by
  have hgrip := gripAt_conclude hw hend
  have hidle : ∀ result, turn = .finish result → m.grip.Idle := by
    rintro result rfl
    rcases hend with ⟨hg, _⟩ | hg
    · rw [hg]
      trivial
    · rw [hg]
      trivial
  have hcases : ∀ t, gripAt { m.service with
      loop := Program.conclude w.task turn m.service.loop } t = w.grips m.grip t ∨
      gripAt { m.service with loop := Program.conclude w.task turn m.service.loop } t = .free := by
    intro t
    rw [hgrip]
    cases turn with
    | rest on point => exact .inl rfl
    | giveWay point => exact .inl rfl
    | finish result =>
      by_cases he : t = w.task
      · subst he
        exact .inr grips_self
      · exact .inl (grips_other he)
  refine h.next rfl (fun t => ?_) (fun {language pooled k} hp hk hca => ?_) (fun t => ?_)
    fun {t language} he => ?_
  · rcases hcases t with he | he
    · rw [he]
      exact h.fits t
    · rw [he]
      trivial
  · obtain ⟨v, hv⟩ := hca
    have hrole := ht.tickets hp k hk
    have hne : k ≠ w.task := by
      rintro rfl
      have htask := ht.ordered.sound.isTask (Option.isSome_iff_exists.1
        (ht.ordered.sound.present rfl)).choose_spec
      rw [hrole] at htask
      cases htask
    refine ⟨v, ?_⟩
    rw [← hv]
    exact (outcome?_conclude hne).symm
  · rcases hcases t with he | he
    · exact .inl he
    · refine .inr (.inl ?_)
      rw [he]
      trivial
  · obtain ⟨point, on, _, hpoint⟩ := exists_place?_of_gripAt (t := t) (by rw [he]; simp)
    rw [he] at hpoint
    exact absurd hpoint.symm (point.grip_ne_called language)

/-- Between turns nothing is done to the pool and no ticket is called. -/
theorem Locked.still (h : Locked none s roles s.gripAt) (ho : AtRest s roles) (ho' : AtRest s' roles')
    (hp : s'.pool = s.pool) (hg : s'.gripAt = s.gripAt)
    (hs : ∀ k language v, roles k = .ticket language → s'.loop.outcome? k = some (.value v) →
      s.loop.outcome? k = some (.value v)) : Locked none s' roles' s'.gripAt := by
  refine h.next hp ho'.gripAt_fits (fun hl hk hca => ?_) (fun t => .inl (by rw [hg])) fun ht => ?_
  · obtain ⟨v, hv⟩ := hca
    exact ⟨v, hs _ _ v (ho.tickets hl hk) hv⟩
  · rw [hg] at ht
    exact h.inTurn ht

/-- Every step keeps the locks in order. -/
theorem Locked.step {mv : Service.Move} (h : Locked none s roles s.gripAt) (ho : AtRest s roles)
    (hst : Step s roles mv s' roles') : Locked none s' roles' s'.gripAt := by
  have ho' := (ho.step hst).1
  cases hst with
  | idle => exact h
  | @carried i e hi hw hk =>
    refine h.still ho ho' rfl (gripAt_of_tasks (tasks_effect _)) fun k language v hr hv => ?_
    rcases outcome?_effect ho.sound hi hv with hv | ⟨hp, _⟩ | ⟨hp, _⟩ | ⟨hg, _, _⟩ | ⟨ht, _⟩ | ⟨hm, _⟩
    · exact hv
    · simp [hr] at hp
    · simp [hr] at hp
    · simp [hr] at hg
    · simp [hr] at ht
    · obtain ⟨j, hj⟩ := ho.sound.assigned.delivered hm
      simp [hr] at hj
  | @forgotten i hook op hi => cases hook <;> exact h.still ho ho' rfl rfl fun _ _ _ _ hv => hv
  | expired =>
    refine h.still ho ho' rfl rfl fun k _ v _ hv => ?_
    rw [← hv]
    exact (Still.expireDue.outcome k).symm
  | clocked time => exact h.still ho ho' rfl rfl fun _ _ _ _ hv => hv
  | spawned call =>
    refine h.still ho ho' rfl (gripAt_spawn ho.sound.get?_size) fun k _ v _ hv => ?_
    rw [← hv]
    exact ((Still.spawn (.start call)).outcome k).symm
  | workedOff hi =>
    rw [Work.workOff_eq hi] at ho' ⊢
    exact h.still ho ho' rfl rfl fun _ _ _ _ hv => hv
  | cancelled t ha =>
    refine h.still ho ho' rfl (gripAt_congr fun _ => place?_cancelTask) fun k _ v _ hv => ?_
    have hstruck : s.loop.Struck (fun _ => True) (s.loop.cancelTask t) :=
      .cancelTask trivial fun _ _ _ _ _ => trivial
    rcases hstruck.outcome hv with hv | ⟨hc, _⟩
    · exact hv
    · cases hc
  | leaseEnded hg fault =>
    refine h.still ho ho' rfl (gripAt_of_tasks tasks_settle) fun k _ v hr hv => ?_
    have hgate := ho.gate hg
    rw [outcome?_settle, if_neg] at hv
    · exact hv
    · rintro ⟨rfl, _⟩
      rw [hr] at hgate
      cases hgate
  | @turn i t task given turn m hwakes hst hres hend =>
    have ht := HasTurn.of_wakes ho hwakes hst hres hend
    have hl : Locked (some t) { s with loop := s.loop.pick i } roles
        (Woken.grips ⟨t, task.point, Program.met task given, { s with loop := s.loop.pick i }⟩
          task.point.grip) := by
      rw [ht.grips_eq]
      refine h.next rfl ho.gripAt_fits (fun _ _ hca => hca) (fun _ => .inl rfl) fun he => ?_
      cases h.inTurn he
    exact (hl.strides ht.started hst).conclude ht.inTurn ht.gripAt_eq hend

end Service

end SourceTrees
