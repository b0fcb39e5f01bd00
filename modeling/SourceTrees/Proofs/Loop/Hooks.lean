import SourceTrees.Flight.Basic
import SourceTrees.Proofs.Loop.Agenda

/-!
# Hooks come first

The hook of an operation is added to its promise before anybody can wait for the operation.  When the
operation has ended, the hook is therefore carried out before its outcome is relayed to those who wait.

## Protocol

* Reactions to one promise keep their order, on the promise and on the agenda.
* A hook is added to a new promise, which nobody has waited for.

## Results

* `Loop.HooksFirst` — no relay of a promise stands before a hook of it; every operation on a loop keeps it.
* `Loop.HooksFirst.launch` — an operation is started with its hook.
* `Loop.HooksFirst.hook_not_mem` — once the first errand is a relay, no hook of the promise is left.
-/

set_option autoImplicit false

namespace SourceTrees

variable {V P K : Type}

/-- The one reaction may stand before the other. -/
def Reaction.Precedes : Reaction K → Reaction K → Prop
  | .relay _, .hook _ => False
  | _, _ => True

theorem Reaction.precedes_of_not_hook {r r' : Reaction K} (h : ∀ k, r' ≠ .hook k) : r.Precedes r' := by
  cases r with
  | relay q =>
    cases r' with
    | hook k => exact absurd rfl (h k)
    | _ => trivial
  | _ => trivial

/-- The one errand may stand before the other: only reactions to one promise have an order. -/
def Errand.Precedes : Errand V K → Errand V K → Prop
  | .react r p, .react r' p' => p = p' → r.Precedes r'
  | _, _ => True

theorem Errand.precedes_of_not_hook {e e' : Errand V K} (h : ∀ k p, e' ≠ .react (.hook k) p) :
    e.Precedes e' := by
  cases e with
  | react r p =>
    cases e' with
    | react r' p' => exact fun _ => Reaction.precedes_of_not_hook fun k hk => h k p' (by rw [hk])
    | _ => trivial
  | _ => trivial

namespace Loop

variable {l l' : Loop V P K} {p q t : PromiseId} {r : Reaction K} {e : Errand V K} {i : Nat}

/-- No relay of a promise stands before a hook of it, neither among its reactions nor on the agenda. -/
structure HooksFirst (l : Loop V P K) : Prop where
  reactions : ∀ {p : PromiseId} {rs : List (Reaction K)}, l.promises[p]? = some (.pending rs) →
    rs.Pairwise Reaction.Precedes
  agenda : l.agenda.Pairwise Errand.Precedes
  settled : ∀ {r p}, .react r p ∈ l.agenda → ∃ o, l.outcome? p = some o

namespace HooksFirst

theorem init : ({} : Loop V P K).HooksFirst := by
  constructor
  · intro p rs h
    simp at h
  · exact .nil
  · intro r p h
    simp at h

/-- Nothing but tasks, groups, timers and the clock has changed. -/
theorem congr (h : l.HooksFirst) (hp : l'.promises = l.promises) (ha : l'.agenda = l.agenda) :
    l'.HooksFirst := by
  have ho : ∀ {p : PromiseId}, l'.outcome? p = l.outcome? p := by
    intro p
    rw [outcome?, outcome?, hp]
  constructor
  · intro p rs hrs
    exact h.reactions (hp ▸ hrs)
  · exact ha ▸ h.agenda
  · intro r p hm
    rw [ho]
    exact h.settled (ha ▸ hm)

/-- Errands are added that carry out no reaction. -/
theorem enqueueAll (h : l.HooksFirst) (es : List (Errand V K)) (hes : ∀ e ∈ es, ∀ r p, e ≠ .react r p) :
    HooksFirst { l with agenda := l.agenda ++ es } := by
  constructor
  · exact h.reactions
  · refine List.pairwise_append.2 ⟨h.agenda, ?_, ?_⟩
    · refine List.pairwise_of_forall_mem_list fun e _ e' he' => ?_
      exact Errand.precedes_of_not_hook fun k p => hes e' he' _ p
    · intro e _ e' he'
      exact Errand.precedes_of_not_hook fun k p => hes e' he' _ p
  · intro r p hm
    rcases List.mem_append.1 hm with hm | hm
    · exact h.settled hm
    · exact absurd rfl (hes _ hm r p)

/-- The promises stay, and errands have left the agenda. -/
theorem sublist (h : l.HooksFirst) (hp : l'.promises = l.promises) (ha : l'.agenda.Sublist l.agenda) :
    l'.HooksFirst := by
  have ho : ∀ {p : PromiseId}, l'.outcome? p = l.outcome? p := by
    intro p
    rw [outcome?, outcome?, hp]
  constructor
  · intro p rs hrs
    exact h.reactions (hp ▸ hrs)
  · exact h.agenda.sublist ha
  · intro r p hm
    rw [ho]
    exact h.settled (ha.subset hm)

theorem pick (h : l.HooksFirst) (i : Nat) : (l.pick i).HooksFirst :=
  h.sublist rfl (List.eraseIdx_sublist ..)

theorem promise (h : l.HooksFirst) : l.promise.2.HooksFirst := by
  constructor
  · intro p rs hrs
    rw [promises_promise] at hrs
    split at hrs
    · cases hrs
      exact .nil
    · exact h.reactions hrs
  · exact h.agenda
  · intro r p hm
    rw [outcome?_promise]
    exact h.settled hm

theorem spawn (h : l.HooksFirst) (point : P) : (l.spawn point).2.HooksFirst := by
  have hp : HooksFirst { l.promise.2 with tasks := l.tasks.put l.promises.size { point } } :=
    h.promise.congr rfl rfl
  refine hp.enqueueAll [.step l.promises.size] fun e he r p => ?_
  simp at he
  simp [he]

theorem timer (h : l.HooksFirst) (seconds : Float) : (l.timer seconds).2.HooksFirst :=
  h.promise.congr rfl rfl

theorem settle (h : l.HooksFirst) (p : PromiseId) (s : Settled V) : (l.settle p s).HooksFirst := by
  cases hp : l.isPending p with
  | false =>
    rw [settle_of_not_isPending hp]
    exact h
  | true =>
    obtain ⟨rs, hrs⟩ := isPending_iff.1 hp
    have ha : (l.settle p s).agenda = l.agenda ++ rs.map (.react · p) := by simp [Loop.settle, hrs]
    have hown : (l.settle p s).outcome? p = some s := by rw [outcome?_settle, if_pos ⟨rfl, hp⟩]
    constructor
    · intro q rs' hrs'
      rw [promises_settle] at hrs'
      split at hrs'
      · cases hrs'
      · exact h.reactions hrs'
    · rw [ha]
      refine List.pairwise_append.2 ⟨h.agenda, ?_, ?_⟩
      · rw [List.pairwise_map]
        exact (h.reactions hrs).imp fun hr _ => hr
      · intro e he e' he'
        obtain ⟨r, hr, rfl⟩ := List.mem_map.1 he'
        cases e with
        | react r' q =>
          -- The promise has been open, so that none of its reactions is on the agenda.
          rintro rfl
          obtain ⟨o, ho⟩ := h.settled he
          rw [isPending_of_outcome? ho] at hp
          cases hp
        | _ => trivial
    · intro r q hm
      rw [ha] at hm
      rcases List.mem_append.1 hm with hm | hm
      · obtain ⟨o, ho⟩ := h.settled hm
        exact ⟨o, outcome?_settle_of_some ho⟩
      · obtain ⟨r', _, he⟩ := List.mem_map.1 hm
        cases he
        exact ⟨s, hown⟩

/-- A reaction is added that is no hook. -/
theorem subscribe (h : l.HooksFirst) (p : PromiseId) (hr : ∀ k, r ≠ .hook k) :
    (l.subscribe p r).HooksFirst := by
  unfold Loop.subscribe
  split
  · rename_i rs hrs
    have ho : ∀ q, outcome? { l with promises := l.promises.setIfInBounds p (.pending (rs ++ [r])) } q =
        l.outcome? q := by
      intro q
      have he := outcome?_subscribe (l := l) (p := p) (q := q) (r := r)
      rw [Loop.subscribe, hrs] at he
      exact he
    constructor
    · intro q rs' hrs'
      rw [Array.getElem?_setIfInBounds] at hrs'
      split at hrs'
      · split at hrs'
        · cases hrs'
          refine List.pairwise_append.2 ⟨h.reactions hrs, List.pairwise_singleton .., ?_⟩
          intro r' _ r'' hr''
          obtain rfl := List.mem_singleton.1 hr''
          exact Reaction.precedes_of_not_hook hr
        · cases hrs'
      · exact h.reactions hrs'
    · exact h.agenda
    · intro r' q hm
      rw [ho]
      exact h.settled hm
  · rename_i s hs
    have ho : l.outcome? p = some s := outcome?_eq_some_iff.2 hs
    constructor
    · exact h.reactions
    · refine List.pairwise_append.2 ⟨h.agenda, List.pairwise_singleton .., ?_⟩
      intro e _ e' he'
      obtain rfl := List.mem_singleton.1 he'
      exact Errand.precedes_of_not_hook fun k q he => hr k (by cases he; rfl)
    · intro r' q hm
      rcases List.mem_append.1 hm with hm | hm
      · exact h.settled hm
      · cases List.mem_singleton.1 hm
        exact ⟨s, ho⟩
  · exact h

theorem unsubscribe [DecidableEq K] (h : l.HooksFirst) (p : PromiseId) (r : Reaction K) :
    (l.unsubscribe p r).HooksFirst := by
  have ho : ∀ q, (l.unsubscribe p r).outcome? q = l.outcome? q := fun q => outcome?_unsubscribe
  constructor
  · intro q rs hrs
    unfold Loop.unsubscribe at hrs
    split at hrs
    · rename_i rs' hrs'
      rw [Array.getElem?_setIfInBounds] at hrs
      split at hrs
      · split at hrs
        · cases hrs
          exact (h.reactions hrs').filter _
        · cases hrs
      · exact h.reactions hrs
    · exact h.reactions hrs
  · rw [agenda_unsubscribe]
    exact h.agenda
  · intro r' q hm
    rw [agenda_unsubscribe] at hm
    rw [ho]
    exact h.settled hm

theorem shield (h : l.HooksFirst) (p : PromiseId) : (l.shield p).2.HooksFirst :=
  h.promise.subscribe p nofun

theorem waiter (h : l.HooksFirst) (p : PromiseId) : (l.waiter p).2.HooksFirst :=
  h.promise.subscribe p nofun

theorem tallyAll (g : PromiseId) : ∀ (ts : List PromiseId) {l : Loop V P K}, l.HooksFirst →
    (ts.foldl (fun l t => l.subscribe t (.tally g)) l).HooksFirst
  | [], _, h => h
  | t :: ts, _, h => tallyAll g ts (h.subscribe t nofun)

theorem group (h : l.HooksFirst) (members : List PromiseId) : (l.group members).2.HooksFirst :=
  tallyAll _ _ (h.promise.congr rfl rfl : HooksFirst { l.promise.2 with
    groups := l.groups.put l.promises.size { members, left := members.length } })

theorem expireDue (h : l.HooksFirst) : l.expireDue.HooksFirst := by
  have ht : HooksFirst { l with timers := l.expireDue.timers } := h.congr rfl rfl
  refine ht.enqueueAll _ fun e he r p => ?_
  obtain ⟨timer, -, rfl⟩ := List.mem_map.1 he
  simp

theorem cancelMember (h : l.HooksFirst) (t : PromiseId) : (l.cancelMember t).2.HooksFirst := by
  unfold Loop.cancelMember
  split
  · exact h
  · split
    · split
      · exact h.settle _ _
      · exact h.congr rfl rfl
    · exact h.congr rfl rfl

theorem cancelMembers : ∀ (ts : List PromiseId) {l : Loop V P K}, l.HooksFirst →
    (l.cancelMembers ts).2.HooksFirst
  | [], _, h => h
  | t :: ts, _, h => cancelMembers ts (h.cancelMember t)

theorem cancelTask (h : l.HooksFirst) (t : PromiseId) : (l.cancelTask t).HooksFirst := by
  unfold Loop.cancelTask
  split
  · exact h.cancelMember t
  · split
    · exact h.cancelMember t
    · rename_i group _
      have hm : (l.cancelMembers group.members).2.HooksFirst := cancelMembers _ h
      dsimp only
      split
      · exact hm.congr rfl rfl
      · exact hm.congr rfl rfl

/-- What a served errand does that neither wakes a task nor carries out a hook. -/
theorem effect [Inhabited V] (h : l.HooksFirst) (e : Errand V K) :
    (Program.Errand.effect e l).HooksFirst := by
  cases e with
  | step t => exact h
  | deliver p x => exact h.settle p _
  | expire p => exact h.settle p _
  | react r p =>
    cases r with
    | wake t => exact h
    | hook k => exact h
    | signal w => exact h.settle w _
    | relay q =>
      unfold Program.Errand.effect
      dsimp only
      split
      · exact h.settle q _
      · exact h
    | tally g =>
      show (Program.tally g l).HooksFirst
      unfold Program.tally
      split
      · exact h
      · split
        · exact (h.congr rfl rfl : HooksFirst { l with groups := l.groups.erase g }).settle _ _
        · exact h.congr rfl rfl

theorem conclude (h : l.HooksFirst) (t : PromiseId) (turn : Turn P V) :
    (Program.conclude t turn l).HooksFirst := by
  cases turn with
  | rest on point =>
    exact (h.congr rfl rfl : HooksFirst { l with
      tasks := l.tasks.put t { point, restsOn := some on } }).subscribe _ nofun
  | giveWay point =>
    have ht : HooksFirst { l with tasks := l.tasks.put t { point } } := h.congr rfl rfl
    refine ht.enqueueAll [.step t] fun e he r p => ?_
    simp at he
    simp [he]
  | finish result => exact (h.congr rfl rfl : HooksFirst { l with tasks := l.tasks.erase t }).settle _ _

/-- An operation is started with its hook, before anybody waits for it. -/
theorem launch {κ : Type} [DecidableEq κ] {f : Flight κ} (h : l.HooksFirst) (key : κ) (point : P) (k : K) :
    (f.launch l key point k).2.2.HooksFirst := by
  have hs := h.spawn point
  have hnew : (l.spawn point).2.promises[l.promises.size]? = some (.pending []) := by
    simp [Loop.spawn, Loop.promise, Loop.enqueue]
  have he : (f.launch l key point k).2.2 = { (l.spawn point).2 with
      promises := (l.spawn point).2.promises.setIfInBounds l.promises.size (.pending ([] ++ [.hook k])) } := by
    show (l.spawn point).2.subscribe l.promises.size (.hook k) = _
    rw [Loop.subscribe, hnew]
  have ho : ∀ q, (f.launch l key point k).2.2.outcome? q = (l.spawn point).2.outcome? q := fun q =>
    outcome?_subscribe
  constructor
  · intro q rs hrs
    rw [he, Array.getElem?_setIfInBounds] at hrs
    split at hrs
    · split at hrs
      · cases hrs
        exact List.pairwise_singleton ..
      · cases hrs
    · exact hs.reactions hrs
  · rw [he]
    exact hs.agenda
  · intro r q hm
    rw [ho]
    rw [he] at hm
    exact hs.settled hm

/-- Once a relay of a promise is the first errand, no hook of the promise is left on the agenda. -/
theorem hook_not_mem (h : l.HooksFirst) {k : K} (hi : l.agenda[0]? = some (.react (.relay q) p)) :
    .react (.hook k) p ∉ l.agenda := by
  intro hm
  have ha := h.agenda
  cases hl : l.agenda with
  | nil => simp [hl] at hi
  | cons e rest =>
    rw [hl] at hi hm ha
    cases hi
    rcases List.mem_cons.1 hm with hm | hm
    · cases hm
    · exact List.rel_of_pairwise_cons ha hm rfl

end HooksFirst

end Loop

end SourceTrees
