import Mathlib.Algebra.BigOperators.Group.Finset.Basic
import Mathlib.Algebra.Order.BigOperators.Group.Finset
import SourceTrees.Proofs.Loop.Groups

/-!
# A group is told often enough

A group that waits for tasks is told of each that finishes.  So it does not wait in vain: as long as it is
open, it will be told at least as often as tasks are left.

## Protocol

* A promise that is open **will tell** the group once for each of its reactions that do; when it is settled
  errands take their place.
* Nothing that a loop does takes a telling away, except that the errand is served that tells the group; and
  that errand lowers the count.

## Results

* `Loop.tellings` — how often a group will be told.
* `Loop.StillTold` — nothing has changed for a group; every operation that does not concern it leaves it so.
* `Loop.Hears` — the group does not wait in vain; `Loop.Hears.effect`, `Loop.Hears.group` — every errand keeps
  that, and a group that is formed begins so.
-/

set_option autoImplicit false

namespace SourceTrees.Loop

variable {V P K J : Type} {l l' l'' : Loop V P K} {g g' p q t : PromiseId} {members : List PromiseId} {i : Nat}
  {r : Reaction K} {e : Errand V K}

/-! ## Tellings -/

/-- How often the promise will tell the group when it is settled. -/
def willTell (l : Loop V P K) (g p : PromiseId) : Nat :=
  match l.promises[p]? with
  | some (.pending rs) => rs.countP (Reaction.tells g)
  | _ => 0

/-- How often the group will be told, by promises and by errands. -/
def tellings (l : Loop V P K) (g : PromiseId) : Nat :=
  ∑ p ∈ Finset.range l.promises.size, l.willTell g p + l.agenda.countP (Errand.tells g)

/-- How many tasks a group still counts. -/
def left (l : Loop V P K) (g : PromiseId) : Nat := ((l.groups.get? g).map Group.left).getD 0

theorem willTell_congr (hp : l'.promises[p]? = l.promises[p]?) : l'.willTell g p = l.willTell g p := by
  unfold willTell
  rw [hp]

theorem willTell_of_size_le (h : l.promises.size ≤ p) : l.willTell g p = 0 := by
  unfold willTell
  rw [Array.getElem?_eq_none h]

/-- Who will tell a group has not been settled yet. -/
theorem isPending_of_willTell (h : 0 < l.willTell g p) : l.isPending p = true := by
  unfold willTell at h
  split at h
  · rename_i rs hrs
    exact isPending_iff.2 ⟨rs, hrs⟩
  · cases h

theorem left_congr (h : l'.groups = l.groups) : l'.left g = l.left g := by rw [left, left, h]

theorem left_of_get? {group : Group} (h : l.groups.get? g = some group) : l.left g = group.left := by
  rw [left, h]
  rfl

theorem left_put (groups : Keyed PromiseId Group) (group : Group) :
    left { l with groups := groups.put p group } g =
      if g = p then group.left else left { l with groups } g := by
  unfold left
  rw [Keyed.get?_put]
  split <;> rfl

/-- Where one promise has changed, the others will tell the group as often as before. -/
theorem sum_willTell (hsize : l'.promises.size = l.promises.size)
    (hne : ∀ q, q ≠ p → l'.willTell g q = l.willTell g q) :
    ∑ q ∈ Finset.range l'.promises.size, l'.willTell g q + l.willTell g p =
      ∑ q ∈ Finset.range l.promises.size, l.willTell g q + l'.willTell g p := by
  rw [hsize]
  by_cases hp : p < l.promises.size
  · have hmem := Finset.mem_range.2 hp
    have hold := Finset.add_sum_erase _ (fun q : Nat => l.willTell g q) hmem
    have hnew := Finset.add_sum_erase _ (fun q : Nat => l'.willTell g q) hmem
    have hothers : ∑ q ∈ (Finset.range l.promises.size).erase p, l'.willTell g q =
        ∑ q ∈ (Finset.range l.promises.size).erase p, l.willTell g q :=
      Finset.sum_congr rfl fun q hq => hne q (Finset.ne_of_mem_erase hq)
    omega
  · have hle := Nat.le_of_not_lt hp
    rw [willTell_of_size_le hle, willTell_of_size_le (hsize ▸ hle)]
    exact congrArg (· + 0) (Finset.sum_congr rfl fun q hq => hne q (Nat.ne_of_lt
      (Nat.lt_of_lt_of_le (Finset.mem_range.1 hq) hle)))

/-! ## What does not concern a group -/

/-- The group counts as many as before, it will be told as often as before, and by nobody else. -/
structure StillTold (g : PromiseId) (l l' : Loop V P K) : Prop where
  left : l'.left g = l.left g
  tellings : l'.tellings g = l.tellings g
  willTell : ∀ p, l'.willTell g p ≤ l.willTell g p

namespace StillTold

theorem refl (l : Loop V P K) : StillTold g l l := ⟨rfl, rfl, fun _ => Nat.le_refl _⟩

theorem trans (h : StillTold g l l') (h' : StillTold g l' l'') : StillTold g l l'' :=
  ⟨h'.left.trans h.left, h'.tellings.trans h.tellings, fun p => Nat.le_trans (h'.willTell p) (h.willTell p)⟩

/-- Errands are put on the agenda that tell the group nothing. -/
theorem enqueueAll (es : List (Errand V K)) (hp : l'.promises = l.promises) (hleft : l'.left g = l.left g)
    (ha : l'.agenda = l.agenda ++ es) (hes : ∀ e ∈ es, e.tells g = false) : StillTold g l l' := by
  have hwill : l'.willTell g = l.willTell g := funext fun p => willTell_congr (by rw [hp])
  have hnone : es.countP (Errand.tells g) = 0 := List.countP_eq_zero.2 fun e he => by simp [hes e he]
  refine ⟨hleft, ?_, fun p => Nat.le_of_eq (congrFun hwill p)⟩
  rw [Loop.tellings, hwill, hp, ha, List.countP_append, hnone]
  rfl

theorem congr (hp : l'.promises = l.promises) (hleft : l'.left g = l.left g) (ha : l'.agenda = l.agenda) :
    StillTold g l l' :=
  enqueueAll [] hp hleft (by rw [ha, List.append_nil]) fun _ he => by cases he

theorem enqueue (he : e.tells g = false) : StillTold g l (l.enqueue e) :=
  enqueueAll [e] rfl rfl rfl fun e' he' => by rw [List.mem_singleton.1 he', he]

theorem promise : StillTold g l l.promise.2 := by
  have hwill : l.promise.2.willTell g = l.willTell g := by
    funext p
    by_cases hp : p = l.promises.size
    · rw [hp, willTell_of_size_le (Nat.le_refl _), Loop.willTell, promises_promise, if_pos rfl]
      rfl
    · exact willTell_congr (by rw [promises_promise, if_neg hp])
  refine ⟨rfl, ?_, fun p => Nat.le_of_eq (congrFun hwill p)⟩
  rw [Loop.tellings, hwill, size_promise, Finset.sum_range_succ, willTell_of_size_le (Nat.le_refl _)]
  rfl

/-- What has told the group as a promise tells it as errands once it is settled. -/
theorem settle (p : PromiseId) (s : Settled V) : StillTold g l (l.settle p s) := by
  cases hp : l.isPending p with
  | false =>
    rw [settle_of_not_isPending hp]
    exact refl l
  | true =>
    obtain ⟨rs, hrs⟩ := isPending_iff.1 hp
    have hne : ∀ q, q ≠ p → (l.settle p s).willTell g q = l.willTell g q := fun q hq =>
      willTell_congr (by rw [promises_settle, if_neg fun hc => hq hc.1])
    have hsettled : (l.settle p s).willTell g p = 0 := by
      rw [Loop.willTell, promises_settle, if_pos ⟨rfl, hp⟩]
    refine ⟨left_congr groups_settle, ?_, fun q => ?_⟩
    · have hagenda : (l.settle p s).agenda = l.agenda ++ rs.map (.react · p) := by
        unfold Loop.settle
        rw [hrs]
      have hwill : l.willTell g p = rs.countP (Reaction.tells g) := by
        unfold Loop.willTell
        rw [hrs]
      have hsum := sum_willTell size_settle hne
      rw [Loop.tellings, Loop.tellings, hagenda, List.countP_append, countP_react]
      omega
    · by_cases hq : q = p
      · rw [hq, hsettled]
        exact Nat.zero_le _
      · exact Nat.le_of_eq (hne q hq)

theorem subscribe (p : PromiseId) (hr : r.tells g = false) : StillTold g l (l.subscribe p r) := by
  have hwill : (l.subscribe p r).willTell g = l.willTell g := by
    funext q
    rcases promises_subscribe (l := l) (p := p) (q := q) (r := r) with he | ⟨rfl, rs, hold, he⟩
    · exact willTell_congr he
    · rw [Loop.willTell, Loop.willTell, hold, he]
      simp [hr]
  have hagenda : (l.subscribe p r).agenda.countP (Errand.tells g) = l.agenda.countP (Errand.tells g) := by
    unfold Loop.subscribe
    split
    · rfl
    · rw [Loop.enqueue, List.countP_append, List.countP_singleton]
      simp [Errand.tells, hr]
    · rfl
  refine ⟨left_congr groups_subscribe, ?_, fun q => Nat.le_of_eq (congrFun hwill q)⟩
  rw [Loop.tellings, hwill, size_subscribe, hagenda]
  rfl

theorem unsubscribe [DecidableEq K] (p : PromiseId) (hr : r.tells g = false) :
    StillTold g l (l.unsubscribe p r) := by
  have hwill : (l.unsubscribe p r).willTell g = l.willTell g := by
    funext q
    rcases promises_unsubscribe (l := l) (p := p) (q := q) (r := r) with he | ⟨rfl, rs, hold, he⟩
    · exact willTell_congr he
    · rw [Loop.willTell, Loop.willTell, hold, he]
      -- The reaction that is taken away tells nothing.
      dsimp only
      rw [List.countP_filter]
      refine List.countP_congr fun r' _ => ?_
      by_cases he : r' = r
      · simp [he, hr]
      · simp [he]
  refine ⟨left_congr groups_unsubscribe, ?_, fun q => Nat.le_of_eq (congrFun hwill q)⟩
  rw [Loop.tellings, hwill, size_unsubscribe, agenda_unsubscribe]
  rfl

theorem spawn (point : P) : StillTold g l (l.spawn point).2 :=
  promise.trans ((congr rfl rfl rfl : StillTold g l.promise.2 { l.promise.2 with
    tasks := l.promise.2.tasks.put l.promises.size { point } }).trans (enqueue rfl))

theorem shield (p : PromiseId) : StillTold g l (l.shield p).2 := promise.trans (subscribe p rfl)

theorem waiter (p : PromiseId) : StillTold g l (l.waiter p).2 := promise.trans (subscribe p rfl)

theorem timer (seconds : Float) : StillTold g l (l.timer seconds).2 := promise.trans (congr rfl rfl rfl)

theorem mark (t : PromiseId) : StillTold g l (l.mark t) := congr rfl rfl rfl

theorem expireDue : StillTold g l l.expireDue := by
  refine enqueueAll _ rfl rfl rfl fun e he => ?_
  obtain ⟨timer, -, rfl⟩ := List.mem_map.1 he
  rfl

theorem cancelMember (t : PromiseId) : StillTold g l (l.cancelMember t).2 := by
  unfold Loop.cancelMember
  split
  · exact refl l
  · split
    · split
      · exact settle _ _
      · exact mark t
    · exact mark t

theorem cancelMembers : ∀ (ts : List PromiseId) {l : Loop V P K}, StillTold g l (l.cancelMembers ts).2
  | [], l => refl l
  | t :: ts, _ => (cancelMember t).trans (cancelMembers ts)

/-- Whoever is cancelled, the group counts as before. -/
theorem cancelTask (t : PromiseId) : StillTold g l (l.cancelTask t) := by
  unfold Loop.cancelTask
  split
  · exact cancelMember t
  · split
    · exact cancelMember t
    · rename_i p _ _ group hg
      have hs : StillTold g l (l.cancelMembers group.members).2 := cancelMembers group.members
      dsimp only
      split
      · refine hs.trans (congr rfl ?_ rfl)
        have hg' : (l.cancelMembers group.members).2.groups.get? p = some group :=
          (congrArg (·.get? p) (groups_cancelMembers group.members)).trans hg
        rw [left_put]
        split
        · rename_i he
          rw [he, left_of_get? hg']
        · rfl
      · exact hs.trans (mark t)

theorem conclude (t : PromiseId) (turn : Turn P V) : StillTold g l (Program.conclude t turn l) := by
  cases turn with
  | rest on point =>
    exact (congr rfl rfl rfl : StillTold g l { l with
      tasks := l.tasks.put t { point, restsOn := some on } }).trans (subscribe on rfl)
  | giveWay point =>
    exact (congr rfl rfl rfl : StillTold g l { l with tasks := l.tasks.put t { point } }).trans (enqueue rfl)
  | finish result =>
    exact (congr rfl rfl rfl : StillTold g l { l with tasks := l.tasks.erase t }).trans (settle t _)

/-- Other groups are formed of whom they will. -/
theorem otherGroup (hg : g < l.promises.size) (others : List PromiseId) : StillTold g l (l.group others).2 := by
  have hne : l.promises.size ≠ g := Nat.ne_of_gt hg
  have hall : ∀ (ts : List PromiseId) {l : Loop V P K} {g' : PromiseId}, g' ≠ g →
      StillTold g l (ts.foldl (fun l t => l.subscribe t (.tally g')) l) := by
    intro ts
    induction ts with
    | nil => exact fun _ => refl _
    | cons t ts ih => exact fun hne => (subscribe t (by simp [Reaction.tells, hne])).trans (ih hne)
  refine promise.trans ((congr rfl ?_ rfl : StillTold g l.promise.2 { l.promise.2 with
    groups := l.groups.put l.promises.size { members := others, left := others.length } }).trans
      (hall others hne))
  rw [left_put, if_neg (Ne.symm hne)]
  rfl

/-- Another group is told. -/
theorem tally [Inhabited V] (hne : g' ≠ g) : StillTold g l (Program.tally g' l) := by
  unfold Program.tally
  split
  · exact refl l
  · split
    · refine (congr rfl ?_ rfl : StillTold g l { l with groups := l.groups.erase g' }).trans (settle _ _)
      unfold Loop.left
      rw [Keyed.get?_erase, if_neg (Ne.symm hne)]
    · refine congr rfl ?_ rfl
      rw [left_put, if_neg (Ne.symm hne)]

/-- An errand does nothing to a group that it does not tell. -/
theorem effect [Inhabited V] (he : e.tells g = false) : StillTold g l (Program.Errand.effect e l) := by
  unfold Program.Errand.effect
  split
  · split
    · exact settle _ _
    · exact refl l
  · exact settle _ _
  · exact tally (by simpa [Errand.tells, Reaction.tells] using he)
  · exact settle _ _
  · exact settle _ _
  · exact refl l

end StillTold

/-! ## Groups that do not wait in vain -/

/-- The group will be told as often at least as tasks are left, by its members and nobody else; and somebody
    is left unless it is settled. -/
structure Hears (l : Loop V P K) (g : PromiseId) (members : List PromiseId) : Prop where
  group_lt : g < l.promises.size
  only : ∀ t, 0 < l.willTell g t → t ∈ members
  enough : l.isPending g = true → 0 < l.left g ∧ l.left g ≤ l.tellings g

/-- The errand that is taken up tells the group no more. -/
theorem tellings_pick (hi : l.agenda[i]? = some e) :
    (l.pick i).tellings g + (if e.tells g then 1 else 0) = l.tellings g := by
  obtain ⟨hlt, rfl⟩ := List.getElem?_eq_some_iff.1 hi
  have hsplit := (List.getElem_cons_eraseIdx_perm hlt).countP_eq (Errand.tells g)
  rw [List.countP_cons] at hsplit
  show _ + (l.agenda.eraseIdx i).countP _ + _ = _ + _
  rw [Nat.add_assoc, hsplit]
  rfl

namespace Hears

/-- Where all its members have finished, an errand tells a group that is open. -/
theorem exists_errand (h : l.Hears g members) (hp : l.isPending g = true)
    (hm : ∀ t ∈ members, l.isPending t = false) : ∃ e ∈ l.agenda, e.tells g = true := by
  have hnone : ∑ t ∈ Finset.range l.promises.size, l.willTell g t = 0 := by
    refine Finset.sum_eq_zero fun t _ => ?_
    by_contra hne
    have hopen := isPending_of_willTell (Nat.pos_of_ne_zero hne)
    cases (hm t (h.only t (Nat.pos_of_ne_zero hne))).symm.trans hopen
  obtain ⟨hpos, hle⟩ := h.enough hp
  rw [tellings, hnone, Nat.zero_add] at hle
  exact List.countP_pos_iff.1 (Nat.lt_of_lt_of_le hpos hle)

/-- Nothing is done that concerns the group. -/
theorem mono (h : l.Hears g members) (hl : l.Later l') (hs : StillTold g l l') : l'.Hears g members where
  group_lt := Nat.lt_of_lt_of_le h.group_lt hl.size_le
  only t ht := h.only t (Nat.lt_of_lt_of_le ht (hs.willTell t))
  enough hp := by
    rw [hs.left, hs.tellings]
    exact h.enough (hl.isPending h.group_lt hp)

/-- An errand is taken up that does not tell the group. -/
theorem pick (h : l.Hears g members) (hi : l.agenda[i]? = some e) (he : e.tells g = false) :
    (l.pick i).Hears g members where
  group_lt := h.group_lt
  only := h.only
  enough hp := by
    have htellings := tellings_pick (g := g) hi
    rw [he] at htellings
    obtain ⟨hpos, hle⟩ := h.enough hp
    refine ⟨hpos, ?_⟩
    show l.left g ≤ _
    simp only [Bool.false_eq_true, if_false, Nat.add_zero] at htellings
    omega

/-- A group that is settled waits no more. -/
theorem of_settled (hg : g < l.promises.size) (honly : ∀ t, 0 < l.willTell g t → t ∈ members) (o : Settled V) :
    (l.settle g o).Hears g members ∧ (l.settle g o).isPending g = false := by
  have hsettled : (l.settle g o).isPending g = false := by simp [isPending_settle]
  refine ⟨⟨?_, fun t ht => ?_, fun hp => ?_⟩, hsettled⟩
  · rw [size_settle]
    exact hg
  · exact honly t (Nat.lt_of_lt_of_le ht ((StillTold.settle g o).willTell t))
  · cases hsettled.symm.trans hp

/-- The group is told: one is left less, or it is settled. -/
theorem tally [Inhabited V] (h : l.Hears g members) (hi : l.agenda[i]? = some e) (he : e.tells g = true) :
    (Program.tally g (l.pick i)).Hears g members ∧
      ((Program.tally g (l.pick i)).isPending g = true →
        (Program.tally g (l.pick i)).left g < l.left g) := by
  have htellings := tellings_pick (g := g) hi
  rw [he, if_pos rfl] at htellings
  unfold Program.tally
  cases hg : l.groups.get? g with
  | none =>
    have hnone : (l.pick i).groups.get? g = none := hg
    have hleft : l.left g = 0 := by
      rw [left, hg]
      rfl
    rw [hnone]
    refine ⟨⟨h.group_lt, h.only, fun hp => ?_⟩, fun hp => ?_⟩ <;>
    · have hpos := (h.enough hp).1
      omega
  | some group =>
    have hsome : (l.pick i).groups.get? g = some group := hg
    have hleft := left_of_get? hg
    rw [hsome]
    dsimp only
    split
    · -- Nobody else is left.
      let closed : Loop V P K := { l.pick i with groups := (l.pick i).groups.erase g }
      have hsettled := of_settled (l := closed) h.group_lt h.only
        (if group.cancelled then .failed .cancellation else .value default)
      refine ⟨hsettled.1, fun hp => ?_⟩
      cases hsettled.2.symm.trans hp
    · rename_i hmore
      have hput : left { l.pick i with groups := (l.pick i).groups.put g { group with left := group.left - 1 } } g =
          group.left - 1 := by
        rw [left_put, if_pos rfl]
      refine ⟨⟨h.group_lt, h.only, fun hp => ?_⟩, fun hp => ?_⟩
      · have henough := (h.enough hp).2
        rw [hput]
        refine ⟨by omega, ?_⟩
        show _ ≤ (l.pick i).tellings g
        omega
      · rw [hput]
        omega

/-- **An errand takes nothing from a group that is open, unless it tells the group; then one is left less.** -/
theorem effect [Inhabited V] (h : l.Hears g members) (hi : l.agenda[i]? = some e) :
    (Program.Errand.effect e (l.pick i)).Hears g members ∧
      ((Program.Errand.effect e (l.pick i)).isPending g = true →
        (Program.Errand.effect e (l.pick i)).left g + (if e.tells g then 1 else 0) ≤ l.left g) := by
  cases he : e.tells g with
  | true =>
    obtain ⟨p, rfl⟩ : ∃ p, e = .react (.tally g) p := by
      cases e with
      | react r p =>
        cases r with
        | tally g' => exact ⟨p, by rw [show g' = g by simpa [Errand.tells, Reaction.tells] using he]⟩
        | _ => cases he
      | _ => cases he
    obtain ⟨htold, hless⟩ := h.tally hi he
    exact ⟨htold, fun hp => hless hp⟩
  | false =>
    have hs : StillTold g (l.pick i) (Program.Errand.effect e (l.pick i)) := .effect he
    refine ⟨(h.pick hi he).mono (.effect e) hs, fun _ => ?_⟩
    rw [hs.left]
    exact Nat.le_refl _

/-- Nothing will tell a group that is still to be formed. -/
theorem none_tells {roles : Roles K J} (h : l.Assigned roles) :
    l.tellings l.promises.size = 0 ∧ ∀ t, l.willTell l.promises.size t = 0 := by
  have hwill : ∀ t, l.willTell l.promises.size t = 0 := by
    intro t
    unfold willTell
    split
    · rename_i rs hrs
      exact List.countP_eq_zero.2 fun r hr => by simp [h.not_tells (.inl ⟨rs, hrs, hr⟩)]
    · rfl
  refine ⟨?_, hwill⟩
  have hagenda : l.agenda.countP (Errand.tells l.promises.size) = 0 := by
    refine List.countP_eq_zero.2 fun e he => ?_
    cases e with
    | react r p => simp [Errand.tells, h.not_tells (.inr he)]
    | _ => exact Bool.false_ne_true
  rw [tellings, hagenda, Finset.sum_eq_zero fun t _ => hwill t]

/-- A member is entered: it will tell the group. -/
theorem enter (ht : t < l.promises.size) :
    (l.subscribe t (.tally g)).tellings g = l.tellings g + 1 ∧
      ∀ q, q ≠ t → (l.subscribe t (.tally g)).willTell g q = l.willTell g q := by
  have hne : ∀ q, q ≠ t → (l.subscribe t (.tally g)).willTell g q = l.willTell g q := fun q hq => by
    rcases promises_subscribe (l := l) (p := t) (q := q) (r := .tally g) with he | ⟨rfl, -⟩
    · exact willTell_congr he
    · exact absurd rfl hq
  refine ⟨?_, hne⟩
  have hsum := sum_willTell (size_subscribe (l := l) (p := t) (r := .tally g)) hne
  have htally : Reaction.tells g (.tally g : Reaction K) = true := decide_eq_true rfl
  rcases isPending_or_settled ht with hp | ⟨o, ho⟩
  · obtain ⟨rs, hrs⟩ := isPending_iff.1 hp
    have hthen : (l.subscribe t (.tally g)).willTell g t = l.willTell g t + 1 := by
      have hlater : (l.subscribe t (.tally g)).promises[t]? = some (.pending (rs ++ [.tally g])) := by
        unfold Loop.subscribe
        rw [hrs]
        simp [ht]
      rw [willTell, willTell, hrs, hlater]
      simp [htally]
    have hagenda : (l.subscribe t (.tally g)).agenda = l.agenda := by
      unfold Loop.subscribe
      rw [hrs]
    rw [tellings, tellings, hagenda]
    omega
  · have hthen : l.subscribe t (.tally g) = l.enqueue (.react (.tally g) t) := by
      unfold Loop.subscribe
      rw [outcome?_eq_some_iff.1 ho]
    rw [hthen, tellings, tellings, Loop.enqueue, List.countP_append, List.countP_singleton]
    simp only [Errand.tells, htally, if_true]
    rfl

/-- All members are entered. -/
theorem enterAll : ∀ (ts : List PromiseId) {l : Loop V P K}, (∀ t ∈ ts, t < l.promises.size) →
    (ts.foldl (fun l t => l.subscribe t (.tally g)) l).tellings g = l.tellings g + ts.length ∧
      ∀ q, q ∉ ts → (ts.foldl (fun l t => l.subscribe t (.tally g)) l).willTell g q = l.willTell g q := by
  intro ts
  induction ts with
  | nil => exact fun _ => ⟨rfl, fun _ _ => rfl⟩
  | cons t ts ih =>
    intro l hts
    obtain ⟨htellings, hne⟩ := enter (l := l) (g := g) (hts t List.mem_cons_self)
    obtain ⟨hrest, hothers⟩ := ih (l := l.subscribe t (.tally g)) fun q hq => by
      rw [size_subscribe]
      exact hts q (List.mem_cons_of_mem _ hq)
    refine ⟨?_, fun q hq => ?_⟩
    · rw [List.foldl_cons, hrest, htellings, List.length_cons]
      omega
    · obtain ⟨hqt, hqs⟩ := not_or.1 (mt List.mem_cons.2 hq)
      exact (hothers q hqs).trans (hne q hqt)

/-- A group of tasks that is formed does not wait in vain. -/
theorem group {roles : Roles K J} (h : l.Assigned roles) (hm : ∀ t ∈ members, t < l.promises.size)
    (hne : members ≠ []) : (l.group members).2.Hears l.promises.size members := by
  obtain ⟨hnone, hnobody⟩ := none_tells h
  let formed : Loop V P K := { l.promise.2 with
    groups := l.groups.put l.promises.size { members, left := members.length } }
  have hsize : formed.promises.size = l.promises.size + 1 := size_promise
  have hformed : formed.tellings l.promises.size = 0 := StillTold.promise.tellings.trans hnone
  obtain ⟨htellings, hothers⟩ := enterAll (l := formed) (g := l.promises.size) members fun t ht => by
    rw [hsize]
    exact Nat.lt_succ_of_lt (hm t ht)
  replace htellings : (l.group members).2.tellings l.promises.size =
      formed.tellings l.promises.size + members.length := htellings
  have hleft : (l.group members).2.left l.promises.size = members.length := by
    refine (left_congr (l := formed) (groups_tallyAll members)).trans ?_
    rw [left_put, if_pos rfl]
  refine ⟨?_, fun t ht => ?_, fun _ => ?_⟩
  · have hlt : l.promises.size < formed.promises.size := hsize ▸ Nat.lt_succ_self _
    exact Nat.lt_of_lt_of_le hlt (Later.tallyAll (l := formed) _ members).size_le
  · by_contra hout
    have hzero : (l.group members).2.willTell l.promises.size t = 0 :=
      (hothers t hout).trans (Nat.le_zero.1 (hnobody t ▸ StillTold.promise.willTell t))
    omega
  · rw [hleft, htellings, hformed, Nat.zero_add]
    exact ⟨List.length_pos_of_ne_nil hne, Nat.le_refl _⟩

end Hears

end SourceTrees.Loop
