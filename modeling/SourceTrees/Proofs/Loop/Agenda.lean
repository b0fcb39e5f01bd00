import SourceTrees.Proofs.Loop.Cancels

/-!
# The agenda grows

Errands leave the agenda only as they are served.  Whatever else happens puts new ones at its end, so that
the errands that stand on it keep their order.

## Results

* `Loop.Grows` — the agenda has been added to; every operation on a loop has it grow.
* `Loop.Due.isPending` — nothing is due to a settled promise once the agenda is empty.
* `Loop.outcome?_deliver` — a delivery that is served settles its promise.
-/

set_option autoImplicit false

namespace SourceTrees.Loop

variable {V P K : Type} {l l' l'' : Loop V P K} {p t : PromiseId} {r : Reaction K} {e : Errand V K}

/-- The agenda has been added to at its end. -/
def Grows (l l' : Loop V P K) : Prop := l.agenda <+: l'.agenda

namespace Grows

theorem mem (h : l.Grows l') (he : e ∈ l.agenda) : e ∈ l'.agenda := List.IsPrefix.subset h he

theorem congr (h : l'.agenda = l.agenda) : l.Grows l' := by
  unfold Grows
  exact h ▸ List.prefix_refl _

theorem refl (l : Loop V P K) : l.Grows l := congr rfl

theorem trans (h : l.Grows l') (h' : l'.Grows l'') : l.Grows l'' := List.IsPrefix.trans h h'

theorem enqueueAll (es : List (Errand V K)) : l.Grows { l with agenda := l.agenda ++ es } :=
  List.prefix_append l.agenda es

theorem settle (p : PromiseId) (s : Settled V) : l.Grows (l.settle p s) := by
  unfold Loop.settle
  split
  · exact List.prefix_append _ _
  · exact refl l

theorem subscribe (p : PromiseId) (r : Reaction K) : l.Grows (l.subscribe p r) := by
  unfold Loop.subscribe
  split
  · exact refl l
  · exact enqueueAll _
  · exact refl l

theorem promise : l.Grows l.promise.2 := congr rfl

theorem spawn (point : P) : l.Grows (l.spawn point).2 := enqueueAll [.step l.promises.size]

theorem shield (p : PromiseId) : l.Grows (l.shield p).2 := promise.trans (subscribe p _)

theorem waiter (p : PromiseId) : l.Grows (l.waiter p).2 := promise.trans (subscribe p _)

theorem mark (t : PromiseId) : l.Grows (l.mark t) := congr rfl

theorem cancelMember (t : PromiseId) : l.Grows (l.cancelMember t).2 := by
  unfold Loop.cancelMember
  split
  · exact refl l
  · split
    · split
      · exact settle _ _
      · exact mark t
    · exact mark t

theorem cancelMembers : ∀ (ts : List PromiseId) {l : Loop V P K}, l.Grows (l.cancelMembers ts).2
  | [], l => refl l
  | t :: ts, _ => (cancelMember t).trans (cancelMembers ts)

theorem cancelTask (t : PromiseId) : l.Grows (l.cancelTask t) := by
  unfold Loop.cancelTask
  split
  · exact cancelMember t
  · split
    · exact cancelMember t
    · rename_i group _
      have h : l.Grows (l.cancelMembers group.members).2 := cancelMembers _
      dsimp only
      split
      · exact h
      · exact h.trans (mark t)

theorem tallyAll (g : PromiseId) : ∀ (ts : List PromiseId) {l : Loop V P K},
    l.Grows (ts.foldl (fun l t => l.subscribe t (.tally g)) l)
  | [], l => refl l
  | t :: ts, _ => (subscribe t (.tally g)).trans (tallyAll g ts)

theorem group (members : List PromiseId) : l.Grows (l.group members).2 :=
  (congr rfl : l.Grows { l.promise.2 with
    groups := l.groups.put l.promises.size { members, left := members.length } }).trans (tallyAll _ _)

theorem expireDue : l.Grows l.expireDue := enqueueAll _

theorem tally [Inhabited V] (g : PromiseId) : l.Grows (Program.tally g l) := by
  unfold Program.tally
  split
  · exact refl l
  · split
    · exact (congr rfl : l.Grows { l with groups := l.groups.erase g }).trans (settle _ _)
    · exact congr rfl

theorem effect [Inhabited V] (e : Errand V K) : l.Grows (Program.Errand.effect e l) := by
  cases e with
  | step t => exact refl l
  | deliver p x => exact settle p _
  | expire p => exact settle p _
  | react r p =>
    cases r with
    | wake t => exact refl l
    | hook k => exact refl l
    | signal w => exact settle w _
    | tally g => exact tally g
    | relay q =>
      unfold Program.Errand.effect
      dsimp only
      split
      · exact settle q _
      · exact refl l

theorem conclude (t : PromiseId) (turn : Turn P V) : l.Grows (Program.conclude t turn l) := by
  cases turn with
  | rest on point =>
    exact (congr rfl : l.Grows { l with tasks := l.tasks.put t { point, restsOn := some on } }).trans
      (subscribe _ _)
  | giveWay point => exact enqueueAll _
  | finish result =>
    exact (congr rfl : l.Grows { l with tasks := l.tasks.erase t }).trans (settle _ _)

end Grows

/-- Where nothing is left to serve, a promise with a reaction due is open. -/
theorem Due.isPending (h : l.Due p r) (hagenda : l.agenda = []) : l.isPending p = true := by
  rcases h with hs | hm
  · exact hs.isPending
  · rw [hagenda] at hm
    cases hm

/-- A delivery that is served settles its promise, if it was open. -/
theorem outcome?_deliver [Inhabited V] {x : Except Fault V} (hlt : p < l.promises.size) :
    ∃ o, (Program.Errand.effect (.deliver p x) l).outcome? p = some o := by
  show ∃ o, (l.settle p (.ofResult x)).outcome? p = some o
  rw [outcome?_settle]
  rcases isPending_or_settled hlt with hp | ⟨o, ho⟩
  · exact ⟨_, if_pos ⟨rfl, hp⟩⟩
  · refine ⟨o, ?_⟩
    rw [if_neg, ho]
    rintro ⟨_, hp⟩
    rw [isPending_of_outcome? ho] at hp
    cases hp

end SourceTrees.Loop
