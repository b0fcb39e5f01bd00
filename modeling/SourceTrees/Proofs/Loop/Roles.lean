import SourceTrees.Proofs.Loop.Tended
import Mathlib.Logic.Function.Basic

/-!
# What promises are for

Every promise is made for one purpose and serves no other: it is the promise of a task, a shield or a
waiter of another promise, the promise of a group, a timer, a gate, a ticket or a job.  Nothing in the
state tells the purpose once the promise has been settled, so it is kept beside the state, as a map
from promises to **roles**.

## Results

* `Loop.Assigned` — the places that can settle a promise are those of its role: a shield is settled by
  the outcome of what it shields, or is cancelled.
* `Loop.Listed` — the unfinished tasks are the open promises of tasks.
* `Loop.Sound` — both, together with the discipline of waking; kept by every operation.
-/

set_option autoImplicit false

namespace SourceTrees

/-- What a promise is made for.  Operations and jobs say which. -/
inductive Role (K J : Type) where
  | unused
  | call
  | operation (k : K)
  | shield (of : PromiseId)
  | waiter (of : PromiseId)
  | group
  | timer
  | gate
  | ticket (key : String)
  | job (j : J)

instance {K J : Type} : ∀ role : Role K J, Decidable (role = .call)
  | .call => isTrue rfl
  | .unused | .operation _ | .shield _ | .waiter _ | .group | .timer | .gate | .ticket _ | .job _ =>
    isFalse nofun

/-- The promises of tasks: calls and shared operations. -/
def Role.isTask {K J : Type} : Role K J → Bool
  | call | operation _ => true
  | _ => false

/-- The promises that are settled from outside the loop, or not at all. -/
def Role.isOuter {K J : Type} : Role K J → Bool
  | group | timer | gate | ticket _ | job _ => true
  | _ => false

/-- The purposes of promises. -/
abbrev Roles (K J : Type) := PromiseId → Role K J

variable {V P K J : Type} {roles : Roles K J}

/-- The reaction to a promise fits the roles of both. -/
def Reaction.Fits (roles : Roles K J) (p : PromiseId) : Reaction K → Prop
  | .wake _ => True
  | .relay q => roles q = .shield p
  | .signal w => roles w = .waiter p
  | .tally g => roles g = .group
  | .hook k => roles p = .operation k

/-- Promises keep their purposes; new ones get theirs. -/
def Extends (roles roles' : Roles K J) : Prop := ∀ p, roles p ≠ .unused → roles' p = roles p

theorem Extends.refl (roles : Roles K J) : Extends roles roles := fun _ _ => rfl

theorem Extends.trans {roles' roles'' : Roles K J} (h : Extends roles roles')
    (h' : Extends roles' roles'') : Extends roles roles'' := by
  intro p hp
  rw [h' p (by rwa [h p hp]), h p hp]

theorem Extends.eq {roles' : Roles K J} (h : Extends roles roles') {p : PromiseId} {role : Role K J}
    (hp : roles p = role) (hne : role ≠ .unused) : roles' p = role := by
  rw [h p (hp ▸ hne), hp]

namespace Loop

variable {l : Loop V P K} {p q t : PromiseId} {r : Reaction K} {i : Nat} {role : Role K J}

/-- The roles hold for the loop. -/
structure Assigned (roles : Roles K J) (l : Loop V P K) : Prop where
  unused : ∀ {p}, roles p = .unused ↔ l.promises.size ≤ p
  fits : ∀ {p r}, l.Due p r → r.Fits roles p
  delivered : ∀ {p o}, .deliver p o ∈ l.agenda → ∃ j, roles p = .job j
  expired : ∀ {p}, .expire p ∈ l.agenda → roles p = .timer
  timed : ∀ {x}, x ∈ l.timers → roles x.promise = .timer
  grouped : ∀ {g}, (l.groups.get? g).isSome = true → roles g = .group
  rests : ∀ {t task p}, l.tasks.get? t = some task → task.restsOn = some p →
    roles p ≠ .unused ∧ (roles p).isTask = false
  relayed : ∀ {p q}, roles q = .shield p → l.isPending q = true → l.Due p (.relay q)
  taken : ∀ {p q o}, roles q = .shield p → l.outcome? q = some o →
    o = .cancelled ∨ l.outcome? p = some o
  signalled : ∀ {p w}, roles w = .waiter p → l.isPending w = true → l.Due p (.signal w)
  waited : ∀ {p w o}, roles w = .waiter p → l.outcome? w = some o →
    o = .cancelled ∨ ∃ o', l.outcome? p = some o'
  ending : ∀ {t f}, (roles t).isTask = true → l.outcome? t = some (.failed f) → f.kind ≠ .cancelled

/-- The unfinished tasks are the open promises of tasks. -/
def Listed (roles : Roles K J) (l : Loop V P K) : Prop :=
  ∀ t, (l.tasks.get? t).isSome = true ↔ (roles t).isTask = true ∧ l.isPending t = true

namespace Assigned

theorem role_ne_unused (h : l.Assigned roles) (hp : p < l.promises.size) : roles p ≠ .unused :=
  fun hu => Nat.not_le.2 hp (h.unused.1 hu)

theorem lt_size (h : l.Assigned roles) (hp : roles p ≠ .unused) : p < l.promises.size :=
  Nat.lt_of_not_le fun hle => hp (h.unused.2 hle)

/-- The roles of the promises there are do not change when one more is made. -/
theorem update_eq (h : l.Assigned roles) {role role' : Role K J} (hp : roles p = role')
    (hne : role' ≠ .unused) : Function.update roles l.promises.size role p = role' := by
  rw [Function.update_of_ne (Nat.ne_of_lt (h.lt_size (hp ▸ hne))), hp]

theorem extends_update (h : l.Assigned roles) (role : Role K J) :
    Extends roles (Function.update roles l.promises.size role) :=
  fun _ hp => h.update_eq rfl hp

theorem fits_update (h : l.Assigned roles) {role : Role K J} (hf : r.Fits roles p) :
    r.Fits (Function.update roles l.promises.size role) p := by
  cases r with
  | wake t => trivial
  | relay q => exact h.update_eq hf (by simp)
  | signal w => exact h.update_eq hf (by simp)
  | tally g => exact h.update_eq hf (by simp)
  | hook k => exact h.update_eq hf (by simp)

theorem init : ({} : Loop V P K).Assigned (fun _ => (.unused : Role K J)) := by
  refine ⟨?_, ?_, ?_, ?_, ?_, ?_, ?_, ?_, ?_, ?_, ?_, ?_⟩
  · intro p
    simp
  · rintro p r (⟨rs, h, _⟩ | h)
    · simp at h
    · cases h
  · intro p o h
    cases h
  · intro p h
    cases h
  · intro x h
    cases h
  · intro g h
    cases h
  · intro t task p h
    cases h
  · intro p q h
    cases h
  · intro p q o h
    cases h
  · intro p w h
    cases h
  · intro p w o h
    cases h
  · intro t f h
    cases h

/-- A new promise that is settled from outside or belongs to a task. -/
theorem promise (h : l.Assigned roles) {role : Role K J}
    (hr : role.isTask = true ∨ role.isOuter = true) :
    l.promise.2.Assigned (Function.update roles l.promises.size role) := by
  have hsource : ∀ {q role'}, Function.update roles l.promises.size role q = role' →
      role'.isTask = false → role'.isOuter = false → roles q = role' := by
    intro q role' he ht ho
    rw [Function.update_apply] at he
    split at he
    · subst he
      simp [ht, ho] at hr
    · exact he
  have hpending : ∀ {q}, roles q ≠ .unused → l.promise.2.isPending q = true →
      l.isPending q = true := by
    intro q hne hq
    rw [isPending_promise, Bool.or_eq_true, decide_eq_true_eq] at hq
    rcases hq with he | hq
    · exact absurd he (Nat.ne_of_lt (h.lt_size hne))
    · exact hq
  refine ⟨?_, ?_, ?_, ?_, ?_, ?_, ?_, ?_, ?_, ?_, ?_, ?_⟩
  · intro q
    rw [size_promise, Function.update_apply]
    split
    · rename_i he
      subst he
      refine ⟨fun hc => ?_, fun hc => absurd hc (Nat.not_succ_le_self _)⟩
      subst hc
      simp [Role.isTask, Role.isOuter] at hr
    · rename_i he
      rw [h.unused]
      exact ⟨fun hle => Nat.lt_of_le_of_ne hle (Ne.symm he), Nat.le_of_succ_le⟩
  · intro q r hd
    exact h.fits_update (h.fits (due_promise.1 hd))
  · intro q o hm
    obtain ⟨j, hj⟩ := h.delivered hm
    exact ⟨j, h.update_eq hj (by simp)⟩
  · intro q hm
    exact h.update_eq (h.expired hm) (by simp)
  · intro x hm
    exact h.update_eq (h.timed hm) (by simp)
  · intro g hg
    exact h.update_eq (h.grouped hg) (by simp)
  · intro t task q ht hr'
    obtain ⟨hne, hq⟩ := h.rests ht hr'
    rw [h.update_eq rfl hne]
    exact ⟨hne, hq⟩
  · intro q q' he hq
    have he := hsource he rfl rfl
    exact due_promise.2 (h.relayed he (hpending (by simp [he]) hq))
  · intro q q' o he ho
    rw [outcome?_promise] at ho ⊢
    exact h.taken (hsource he rfl rfl) ho
  · intro q w he hq
    have he := hsource he rfl rfl
    exact due_promise.2 (h.signalled he (hpending (by simp [he]) hq))
  · intro q w o he ho
    rw [outcome?_promise] at ho ⊢
    exact h.waited (hsource he rfl rfl) ho
  · intro t f he ho
    rw [outcome?_promise] at ho
    rw [Function.update_of_ne (Nat.ne_of_lt (outcome?_lt ho))] at he
    exact h.ending he ho

/-- A promise is settled as its role says. -/
theorem settle (h : l.Assigned roles) {s : Settled V}
    (hs : ∀ q, roles p = .shield q → s = .cancelled ∨ l.outcome? q = some s)
    (hw : ∀ q, roles p = .waiter q → s = .cancelled ∨ ∃ o, l.outcome? q = some o)
    (ht : (roles p).isTask = true → ∀ f, s = .failed f → f.kind ≠ .cancelled) :
    (l.settle p s).Assigned roles := by
  have hold : ∀ {e}, e ∈ (l.settle p s).agenda → (∀ r, e ≠ .react r p) → e ∈ l.agenda := by
    intro e hm hne
    rcases mem_agenda_settle.1 hm with hm | ⟨r, rfl, _⟩
    · exact hm
    · exact absurd rfl (hne r)
  refine ⟨?_, ?_, ?_, ?_, ?_, ?_, ?_, ?_, ?_, ?_, ?_, ?_⟩
  · intro q
    rw [size_settle]
    exact h.unused
  · intro q r hd
    exact h.fits (due_settle.1 hd)
  · intro q o hm
    exact h.delivered (hold hm (by simp))
  · intro q hm
    exact h.expired (hold hm (by simp))
  · intro x hm
    rw [timers_settle] at hm
    exact h.timed hm
  · intro g hg
    rw [groups_settle] at hg
    exact h.grouped hg
  · intro t task q hg hr
    rw [tasks_settle] at hg
    exact h.rests hg hr
  · intro q q' he hq
    rw [isPending_settle, Bool.and_eq_true] at hq
    exact due_settle.2 (h.relayed he hq.1)
  · intro q q' o he ho
    rw [outcome?_settle] at ho
    split at ho
    · rename_i hc
      cases ho
      rw [hc.1] at he
      exact (hs q he).imp id outcome?_settle_of_some
    · exact (h.taken he ho).imp id outcome?_settle_of_some
  · intro q w he hq
    rw [isPending_settle, Bool.and_eq_true] at hq
    exact due_settle.2 (h.signalled he hq.1)
  · intro q w o he ho
    rw [outcome?_settle] at ho
    split at ho
    · rename_i hc
      cases ho
      rw [hc.1] at he
      exact (hw q he).imp id fun ⟨o', ho'⟩ => ⟨o', outcome?_settle_of_some ho'⟩
    · exact (h.waited he ho).imp id fun ⟨o', ho'⟩ => ⟨o', outcome?_settle_of_some ho'⟩
  · intro t f he ho
    rw [outcome?_settle] at ho
    split at ho
    · rename_i hc
      cases ho
      rw [hc.1] at he
      exact ht he f rfl
    · exact h.ending he ho

/-- Adding a reaction that fits. -/
theorem subscribe (h : l.Assigned roles) (hlt : p < l.promises.size) (hf : r.Fits roles p) :
    (l.subscribe p r).Assigned roles := by
  have hold : ∀ {e}, e ∈ (l.subscribe p r).agenda → e ≠ .react r p → e ∈ l.agenda := by
    intro e hm hne
    rcases mem_agenda_subscribe.1 hm with hm | ⟨he, _⟩
    · exact hm
    · exact absurd he hne
  refine ⟨?_, ?_, ?_, ?_, ?_, ?_, ?_, ?_, ?_, ?_, ?_, ?_⟩
  · intro q
    rw [size_subscribe]
    exact h.unused
  · intro q r' hd
    rcases (due_subscribe hlt).1 hd with hd | ⟨rfl, rfl⟩
    · exact h.fits hd
    · exact hf
  · intro q o hm
    exact h.delivered (hold hm (by simp))
  · intro q hm
    exact h.expired (hold hm (by simp))
  · intro x hm
    rw [timers_subscribe] at hm
    exact h.timed hm
  · intro g hg
    rw [groups_subscribe] at hg
    exact h.grouped hg
  · intro t task q hg hr
    rw [tasks_subscribe] at hg
    exact h.rests hg hr
  · intro q q' he hq
    rw [isPending_subscribe] at hq
    exact (due_subscribe hlt).2 (.inl (h.relayed he hq))
  · intro q q' o he ho
    rw [outcome?_subscribe] at ho ⊢
    exact h.taken he ho
  · intro q w he hq
    rw [isPending_subscribe] at hq
    exact (due_subscribe hlt).2 (.inl (h.signalled he hq))
  · intro q w o he ho
    rw [outcome?_subscribe] at ho
    simp only [outcome?_subscribe]
    exact h.waited he ho
  · intro t f he ho
    rw [outcome?_subscribe] at ho
    exact h.ending he ho

/-- Shields and waiters are promises that come with a reaction of another one. -/
theorem follower (h : l.Assigned roles) (hlt : p < l.promises.size)
    (hr : (r = .relay l.promises.size ∧ role = .shield p) ∨
      (r = .signal l.promises.size ∧ role = .waiter p)) :
    (l.promise.2.subscribe p r).Assigned (Function.update roles l.promises.size role) := by
  have hne : p ≠ l.promises.size := Nat.ne_of_lt hlt
  have hlt' : p < l.promise.2.promises.size := by
    rw [size_promise]
    exact Nat.lt_succ_of_lt hlt
  have hfits : r.Fits (Function.update roles l.promises.size role) p := by
    rcases hr with ⟨rfl, rfl⟩ | ⟨rfl, rfl⟩
    · exact Function.update_self ..
    · exact Function.update_self ..
  have hdue : ∀ {q r'}, l.Due q r' → (l.promise.2.subscribe p r).Due q r' :=
    fun hd => (due_subscribe hlt').2 (.inl (due_promise.2 hd))
  have hout : ∀ q, (l.promise.2.subscribe p r).outcome? q = l.outcome? q := by
    intro q
    rw [outcome?_subscribe, outcome?_promise]
  have hopen : ∀ {q}, q ≠ l.promises.size →
      (l.promise.2.subscribe p r).isPending q = true → l.isPending q = true := by
    intro q hq hp
    rw [isPending_subscribe, isPending_promise] at hp
    simpa [hq] using hp
  have hold : ∀ {e}, e ∈ (l.promise.2.subscribe p r).agenda → e ≠ .react r p → e ∈ l.agenda := by
    intro e hm hne
    rcases mem_agenda_subscribe.1 hm with hm | ⟨he, _⟩
    · exact hm
    · exact absurd he hne
  refine ⟨?_, ?_, ?_, ?_, ?_, ?_, ?_, ?_, ?_, ?_, ?_, ?_⟩
  · intro q
    rw [size_subscribe, size_promise, Function.update_apply]
    split
    · rename_i he
      subst he
      refine ⟨fun hc => ?_, fun hc => absurd hc (Nat.not_succ_le_self _)⟩
      rcases hr with ⟨_, rfl⟩ | ⟨_, rfl⟩ <;> cases hc
    · rename_i he
      rw [h.unused]
      exact ⟨fun hle => Nat.lt_of_le_of_ne hle (Ne.symm he), Nat.le_of_succ_le⟩
  · intro q r' hd
    rcases (due_subscribe hlt').1 hd with hd | ⟨rfl, rfl⟩
    · exact h.fits_update (h.fits (due_promise.1 hd))
    · exact hfits
  · intro q o hm
    obtain ⟨j, hj⟩ := h.delivered (hold hm (by simp))
    exact ⟨j, h.update_eq hj (by simp)⟩
  · intro q hm
    exact h.update_eq (h.expired (hold hm (by simp))) (by simp)
  · intro x hm
    rw [timers_subscribe] at hm
    exact h.update_eq (h.timed hm) (by simp)
  · intro g hg
    rw [groups_subscribe] at hg
    exact h.update_eq (h.grouped hg) (by simp)
  · intro t task q ht hr'
    rw [tasks_subscribe] at ht
    obtain ⟨hu, hq⟩ := h.rests ht hr'
    rw [h.update_eq rfl hu]
    exact ⟨hu, hq⟩
  · intro q q' he hq
    rw [Function.update_apply] at he
    split at he
    · rename_i he'
      subst he'
      rcases hr with ⟨rfl, rfl⟩ | ⟨rfl, rfl⟩
      · cases he
        exact (due_subscribe hlt').2 (.inr ⟨rfl, rfl⟩)
      · cases he
    · rename_i he'
      exact hdue (h.relayed he (hopen he' hq))
  · intro q q' o he ho
    rw [hout] at ho ⊢
    rw [Function.update_of_ne (Nat.ne_of_lt (outcome?_lt ho))] at he
    exact h.taken he ho
  · intro q w he hq
    rw [Function.update_apply] at he
    split at he
    · rename_i he'
      subst he'
      rcases hr with ⟨rfl, rfl⟩ | ⟨rfl, rfl⟩
      · cases he
      · cases he
        exact (due_subscribe hlt').2 (.inr ⟨rfl, rfl⟩)
    · rename_i he'
      exact hdue (h.signalled he (hopen he' hq))
  · intro q w o he ho
    simp only [hout] at ho ⊢
    rw [Function.update_of_ne (Nat.ne_of_lt (outcome?_lt ho))] at he
    exact h.waited he ho
  · intro t f he ho
    rw [hout] at ho
    rw [Function.update_of_ne (Nat.ne_of_lt (outcome?_lt ho))] at he
    exact h.ending he ho

/-- The signal of a settled waiter is taken back. -/
theorem unsubscribe [DecidableEq K] (h : l.Assigned roles) {w : PromiseId}
    (hw : l.isPending w = false) : (l.unsubscribe p (.signal w)).Assigned roles := by
  have hback : ∀ {q r}, (l.unsubscribe p (.signal w)).Due q r → l.Due q r := by
    intro q r hd
    rcases hd with hd | hd
    · exact .inl (subscribed_unsubscribe.1 hd).1
    · rw [agenda_unsubscribe] at hd
      exact .inr hd
  have hdue : ∀ {q r}, r ≠ .signal w → l.Due q r → (l.unsubscribe p (.signal w)).Due q r := by
    intro q r hne hd
    rcases hd with hd | hd
    · exact .inl (subscribed_unsubscribe.2 ⟨hd, fun hc => hne hc.2⟩)
    · refine .inr ?_
      rw [agenda_unsubscribe]
      exact hd
  refine ⟨?_, ?_, ?_, ?_, ?_, ?_, ?_, ?_, ?_, ?_, ?_, ?_⟩
  · intro q
    rw [size_unsubscribe]
    exact h.unused
  · intro q r hd
    exact h.fits (hback hd)
  · intro q o hm
    rw [agenda_unsubscribe] at hm
    exact h.delivered hm
  · intro q hm
    rw [agenda_unsubscribe] at hm
    exact h.expired hm
  · intro x hm
    rw [timers_unsubscribe] at hm
    exact h.timed hm
  · intro g hg
    rw [groups_unsubscribe] at hg
    exact h.grouped hg
  · intro t task q ht hr
    rw [tasks_unsubscribe] at ht
    exact h.rests ht hr
  · intro q q' he hq
    rw [isPending_unsubscribe] at hq
    exact hdue (by simp) (h.relayed he hq)
  · intro q q' o he ho
    rw [outcome?_unsubscribe] at ho ⊢
    exact h.taken he ho
  · intro q w' he hq
    rw [isPending_unsubscribe] at hq
    refine hdue ?_ (h.signalled he hq)
    rintro ⟨⟩
    rw [hw] at hq
    cases hq
  · intro q w' o he ho
    simp only [outcome?_unsubscribe] at ho ⊢
    exact h.waited he ho
  · intro t f he ho
    rw [outcome?_unsubscribe] at ho
    exact h.ending he ho

/-- An errand leaves the agenda, the promise that it would settle being settled. -/
theorem pick (h : l.Assigned roles) {e : Errand V K} (hi : l.agenda[i]? = some e)
    (hs : ∀ p q, e = .react (.relay q) p → l.isPending q = false)
    (hw : ∀ p w, e = .react (.signal w) p → l.isPending w = false) :
    (l.pick i).Assigned roles where
  unused := h.unused
  fits hd := h.fits (due_of_due_pick hd)
  delivered hm := h.delivered (mem_agenda_of_mem_pick hm)
  expired hm := h.expired (mem_agenda_of_mem_pick hm)
  timed := h.timed
  grouped := h.grouped
  rests := h.rests
  relayed {p q} he hq := by
    refine due_pick hi (fun hc => ?_) (h.relayed he hq)
    rw [show (l.pick i).isPending q = l.isPending q from rfl, hs p q hc] at hq
    cases hq
  taken := h.taken
  signalled {p w} he hq := by
    refine due_pick hi (fun hc => ?_) (h.signalled he hq)
    rw [show (l.pick i).isPending w = l.isPending w from rfl, hw p w hc] at hq
    cases hq
  waited := h.waited
  ending := h.ending

/-- Errands are put on the agenda that deliver outcomes of jobs or end timers. -/
theorem enqueueAll (h : l.Assigned roles) {es : List (Errand V K)}
    (he : ∀ e ∈ es, (∃ p o j, e = .deliver p o ∧ roles p = .job j) ∨
      (∃ p, e = .expire p ∧ roles p = .timer) ∨ ∃ t, e = .step t) :
    ({ l with agenda := l.agenda ++ es } : Loop V P K).Assigned roles where
  unused := h.unused
  fits {p r} hd := by
    rcases hd with hd | hm
    · exact h.fits (.inl hd)
    · rcases List.mem_append.1 hm with hm | hm
      · exact h.fits (.inr hm)
      · obtain ⟨_, _, _, hc, _⟩ | ⟨_, hc, _⟩ | ⟨_, hc⟩ := he _ hm <;> cases hc
  delivered {p o} hm := by
    rcases List.mem_append.1 hm with hm | hm
    · exact h.delivered hm
    · obtain ⟨_, _, j, hc, hj⟩ | ⟨_, hc, _⟩ | ⟨_, hc⟩ := he _ hm
      · cases hc
        exact ⟨j, hj⟩
      · cases hc
      · cases hc
  expired {p} hm := by
    rcases List.mem_append.1 hm with hm | hm
    · exact h.expired hm
    · obtain ⟨_, _, _, hc, _⟩ | ⟨_, hc, ht⟩ | ⟨_, hc⟩ := he _ hm
      · cases hc
      · cases hc
        exact ht
      · cases hc
  timed := h.timed
  grouped := h.grouped
  rests := h.rests
  relayed hq hp := by
    rcases h.relayed hq hp with hd | hd
    · exact .inl hd
    · exact .inr (List.mem_append_left _ hd)
  taken := h.taken
  signalled hq hp := by
    rcases h.signalled hq hp with hd | hd
    · exact .inl hd
    · exact .inr (List.mem_append_left _ hd)
  waited := h.waited
  ending := h.ending

/-- Tasks, groups and timers are other ones. -/
theorem replace (h : l.Assigned roles) {tasks : Keyed PromiseId (Task P)}
    {groups : Keyed PromiseId Group} {timers : List Timer} {now : Float}
    (htask : ∀ {t task p}, tasks.get? t = some task → task.restsOn = some p →
      roles p ≠ .unused ∧ (roles p).isTask = false)
    (hgroup : ∀ {g}, (groups.get? g).isSome = true → roles g = .group)
    (htimer : ∀ {x}, x ∈ timers → roles x.promise = .timer) :
    ({ l with tasks, groups, timers, now } : Loop V P K).Assigned roles where
  unused := h.unused
  fits := h.fits
  delivered := h.delivered
  expired := h.expired
  timed := htimer
  grouped := hgroup
  rests := htask
  relayed := h.relayed
  taken := h.taken
  signalled := h.signalled
  waited := h.waited
  ending := h.ending

end Assigned

end Loop

end SourceTrees
