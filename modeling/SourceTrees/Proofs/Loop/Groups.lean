import SourceTrees.Proofs.Loop.Cancels

/-!
# When a group is settled

The promise of a group is settled when all its tasks have finished, and no sooner.

## Protocol

* A group counts how many tasks are left.  A task that finishes **tells** the group, once for every time that
  it is a member, and the errand that does so lowers the count.
* So at least as many are left as have not finished yet or are about to tell.

## Results

* `Loop.Counts` — the count of a group is right; every operation of the loop keeps it, `Loop.Counts.group`
  begins it, and `Loop.Counts.told` lowers the count.
* `Loop.Gathers` — the group is not settled yet and counts, or all its tasks have finished;
  `Loop.Gathers.effect`, `Loop.Gathers.conclude` — errands and the ends of turns keep that.
-/

set_option autoImplicit false

namespace SourceTrees

variable {V P K J : Type}

/-- The reaction tells the group that a task of it has finished. -/
def Reaction.tells (g : PromiseId) : Reaction K → Bool
  | .tally g' => g' = g
  | _ => false

/-- The errand tells the group that a task of it has finished. -/
def Errand.tells (g : PromiseId) : Errand V K → Bool
  | .react r _ => r.tells g
  | _ => false

namespace Loop

variable {l l' : Loop V P K} {g p : PromiseId} {members : List PromiseId} {left i : Nat} {r : Reaction K}
  {e : Errand V K}

/-- So many tasks of the group are left at least as have not finished or are about to tell it. -/
structure Counts (l : Loop V P K) (g : PromiseId) (members : List PromiseId) (left : Nat) : Prop where
  group_lt : g < l.promises.size
  known : ∀ t ∈ members, t < l.promises.size
  once : ∀ {t rs}, l.promises[t]? = some (.pending rs) → rs.countP (Reaction.tells g) ≤ members.count t
  enough : members.countP l.isPending + l.agenda.countP (Errand.tells g) ≤ left

/-- The errands that wait for a promise tell the group as often as its reactions do. -/
theorem countP_react (rs : List (Reaction K)) :
    (rs.map fun r => (.react r p : Errand V K)).countP (Errand.tells g) = rs.countP (Reaction.tells g) := by
  rw [List.countP_map]
  rfl

/-- Nothing tells a group that is still to be formed. -/
theorem Assigned.not_tells {roles : Roles K J} (h : l.Assigned roles) (hdue : l.Due p r) :
    r.tells l.promises.size = false := by
  cases r with
  | tally g =>
    refine decide_eq_false ?_
    rintro rfl
    have hg : roles l.promises.size = .group := h.fits hdue
    rw [h.unused.2 (Nat.le_refl _)] at hg
    cases hg
  | _ => rfl

namespace Counts

/-- It is about promises and the agenda, on which more may come that tells nothing. -/
theorem enqueueAll (h : l.Counts g members left) (es : List (Errand V K)) (hp : l'.promises = l.promises)
    (ha : l'.agenda = l.agenda ++ es) (hes : ∀ e ∈ es, e.tells g = false) : l'.Counts g members left where
  group_lt := hp ▸ h.group_lt
  known := hp ▸ h.known
  once hrs := h.once (hp ▸ hrs)
  enough := by
    have hpending : l'.isPending = l.isPending := by
      unfold Loop.isPending
      rw [hp]
    have hnone : es.countP (Errand.tells g) = 0 := List.countP_eq_zero.2 fun e he => by simp [hes e he]
    rw [hpending, ha, List.countP_append, hnone]
    exact h.enough

theorem congr (h : l.Counts g members left) (hp : l'.promises = l.promises) (ha : l'.agenda = l.agenda) :
    l'.Counts g members left :=
  h.enqueueAll [] hp (by rw [ha, List.append_nil]) fun _ h => by cases h

theorem enqueue (h : l.Counts g members left) (he : e.tells g = false) :
    (l.enqueue e).Counts g members left :=
  h.enqueueAll [e] rfl rfl fun e' he' => by rw [List.mem_singleton.1 he', he]

theorem promise (h : l.Counts g members left) : l.promise.2.Counts g members left where
  group_lt := by
    rw [size_promise]
    exact Nat.lt_succ_of_lt h.group_lt
  known t ht := by
    rw [size_promise]
    exact Nat.lt_succ_of_lt (h.known t ht)
  once hrs := by
    rw [promises_promise] at hrs
    split at hrs
    · cases hrs
      exact Nat.zero_le _
    · exact h.once hrs
  enough := by
    refine Nat.le_trans (Nat.le_of_eq (congrArg (· + _) (List.countP_congr fun t ht => ?_))) h.enough
    rw [isPending_promise, decide_eq_false (Nat.ne_of_lt (h.known t ht)), Bool.false_or]

/-- Who has finished tells the group, but no more often than it counts. -/
theorem settle (h : l.Counts g members left) (p : PromiseId) (s : Settled V) :
    (l.settle p s).Counts g members left := by
  cases hp : l.isPending p with
  | false => rwa [settle_of_not_isPending hp]
  | true =>
    refine ⟨by rw [size_settle]; exact h.group_lt, by rw [size_settle]; exact h.known, fun hrs => ?_, ?_⟩
    · rw [promises_settle] at hrs
      split at hrs
      · cases hrs
      · exact h.once hrs
    · obtain ⟨rs, hrs⟩ := isPending_iff.1 hp
      have hagenda : (l.settle p s).agenda = l.agenda ++ rs.map (.react · p) := by
        unfold Loop.settle
        rw [hrs]
      have hsplit : members.countP l.isPending =
          members.countP (l.settle p s).isPending + members.count p := by
        have hboth : ∀ ms : List PromiseId, ms.countP l.isPending =
            ms.countP (l.settle p s).isPending + ms.count p := by
          intro ms
          induction ms with
          | nil => rfl
          | cons t ms ih =>
            rw [List.countP_cons, List.countP_cons, List.count_cons, ih, isPending_settle]
            by_cases he : t = p
            · subst he
              simp [hp]
              omega
            · simp [he]
              omega
        exact hboth members
      have honce := h.once hrs
      have henough := h.enough
      rw [hagenda, List.countP_append, countP_react]
      omega

theorem subscribe (h : l.Counts g members left) (p : PromiseId) (hr : r.tells g = false) :
    (l.subscribe p r).Counts g members left := by
  refine ⟨by rw [size_subscribe]; exact h.group_lt, by rw [size_subscribe]; exact h.known, fun hrs => ?_, ?_⟩
  · rename_i t _
    rcases promises_subscribe (l := l) (p := p) (q := t) (r := r) with he | ⟨rfl, rs, hold, he⟩
    · exact h.once (he ▸ hrs)
    · cases he.symm.trans hrs
      rw [List.countP_append, List.countP_singleton, hr]
      exact h.once hold
  · have hpending : (l.subscribe p r).isPending = l.isPending := funext fun _ => isPending_subscribe
    have hagenda : (l.subscribe p r).agenda.countP (Errand.tells g) = l.agenda.countP (Errand.tells g) := by
      unfold Loop.subscribe
      split
      · rfl
      · rw [Loop.enqueue, List.countP_append, List.countP_singleton]
        simp [Errand.tells, hr]
      · rfl
    rw [hpending, hagenda]
    exact h.enough

theorem unsubscribe [DecidableEq K] (h : l.Counts g members left) (p : PromiseId) (r : Reaction K) :
    (l.unsubscribe p r).Counts g members left := by
  refine ⟨by rw [size_unsubscribe]; exact h.group_lt, by rw [size_unsubscribe]; exact h.known,
    fun hrs => ?_, ?_⟩
  · rename_i t _
    rcases promises_unsubscribe (l := l) (p := p) (q := t) (r := r) with he | ⟨rfl, rs, hold, he⟩
    · exact h.once (he ▸ hrs)
    · cases he.symm.trans hrs
      exact Nat.le_trans (List.Sublist.countP_le List.filter_sublist) (h.once hold)
  · have hpending : (l.unsubscribe p r).isPending = l.isPending := funext fun _ => isPending_unsubscribe
    rw [hpending, agenda_unsubscribe]
    exact h.enough

theorem spawn (h : l.Counts g members left) (point : P) : (l.spawn point).2.Counts g members left :=
  (h.promise.congr rfl rfl : Counts { l.promise.2 with
    tasks := l.promise.2.tasks.put l.promises.size { point } } g members left).enqueue rfl

theorem shield (h : l.Counts g members left) (p : PromiseId) : (l.shield p).2.Counts g members left :=
  h.promise.subscribe p rfl

theorem waiter (h : l.Counts g members left) (p : PromiseId) : (l.waiter p).2.Counts g members left :=
  h.promise.subscribe p rfl

theorem timer (h : l.Counts g members left) (seconds : Float) :
    (l.timer seconds).2.Counts g members left :=
  h.promise.congr rfl rfl

theorem expireDue (h : l.Counts g members left) : l.expireDue.Counts g members left := by
  refine h.enqueueAll _ rfl rfl fun e he => ?_
  obtain ⟨timer, -, rfl⟩ := List.mem_map.1 he
  rfl

/-- Another group is formed. -/
theorem otherGroup (h : l.Counts g members left) (others : List PromiseId) :
    (l.group others).2.Counts g members left := by
  have hall : ∀ (ts : List PromiseId) {l : Loop V P K} {g' : PromiseId}, g' ≠ g →
      l.Counts g members left →
      (ts.foldl (fun l t => l.subscribe t (.tally g')) l).Counts g members left := by
    intro ts
    induction ts with
    | nil => exact fun _ h => h
    | cons t ts ih => exact fun hne h => ih hne (h.subscribe t (by simp [Reaction.tells, hne]))
  exact hall others (Nat.ne_of_gt h.group_lt) (h.promise.congr rfl rfl : Counts { l.promise.2 with
    groups := l.groups.put l.promises.size { members := others, left := others.length } } g members left)

theorem pick (h : l.Counts g members left) (i : Nat) : (l.pick i).Counts g members left where
  group_lt := h.group_lt
  known := h.known
  once := h.once
  enough :=
    Nat.le_trans (Nat.add_le_add_left (List.Sublist.countP_le (List.eraseIdx_sublist ..)) _) h.enough

/-- Who tells the group lowers the count. -/
theorem told (h : l.Counts g members left) (hi : l.agenda[i]? = some e) (he : e.tells g = true) :
    (l.pick i).Counts g members (left - 1) where
  group_lt := h.group_lt
  known := h.known
  once := h.once
  enough := by
    obtain ⟨hlt, rfl⟩ := List.getElem?_eq_some_iff.1 hi
    have hsplit := (List.getElem_cons_eraseIdx_perm hlt).countP_eq (Errand.tells g)
    rw [List.countP_cons_of_pos he] at hsplit
    have henough := h.enough
    have hpending : (l.pick i).isPending = l.isPending := rfl
    rw [hpending]
    show _ + (l.agenda.eraseIdx i).countP _ ≤ _
    omega

/-- A group of which nobody is left has finished. -/
theorem finished (h : l.Counts g members 0) : ∀ t ∈ members, l.isPending t = false := by
  intro t ht
  have hzero : members.countP l.isPending = 0 := by
    have := h.enough
    omega
  simpa using List.countP_eq_zero.1 hzero t ht

/-- A member is entered. -/
theorem enter (h : l.Counts g members left) {t : PromiseId} (ht : t < l.promises.size) :
    (l.subscribe t (.tally g)).Counts g (members ++ [t]) (left + 1) where
  group_lt := by
    rw [size_subscribe]
    exact h.group_lt
  known q hq := by
    rw [size_subscribe]
    rcases List.mem_append.1 hq with hq | hq
    · exact h.known q hq
    · exact List.mem_singleton.1 hq ▸ ht
  once {q rs} hrs := by
    rw [List.count_append]
    rcases promises_subscribe (l := l) (p := t) (q := q) (r := .tally g) with he | ⟨rfl, rs, hold, he⟩
    · exact Nat.le_trans (h.once (he ▸ hrs)) (Nat.le_add_right ..)
    · cases he.symm.trans hrs
      have hone : [(.tally g : Reaction K)].countP (Reaction.tells g) = [q].count q := by
        simp [Reaction.tells]
      rw [List.countP_append, hone]
      exact Nat.add_le_add_right (h.once hold) _
  enough := by
    have hpending : (l.subscribe t (.tally g)).isPending = l.isPending := funext fun _ => isPending_subscribe
    have hagenda : (l.subscribe t (.tally g)).agenda.countP (Errand.tells g) +
        (if l.isPending t then 1 else 0) ≤ l.agenda.countP (Errand.tells g) + 1 := by
      unfold Loop.subscribe
      split
      · split <;> simp
      · rename_i o ho
        rw [isPending_of_outcome? (outcome?_eq_some_iff.2 ho), Loop.enqueue, List.countP_append,
          List.countP_singleton]
        simp [Errand.tells, Reaction.tells]
      · split <;> simp
    have henough := h.enough
    rw [hpending, List.countP_append, List.countP_singleton]
    omega

theorem enterAll (ts : List PromiseId) {l : Loop V P K} {members : List PromiseId} {left : Nat}
    (h : l.Counts g members left) (hts : ∀ t ∈ ts, t < l.promises.size) :
    (ts.foldl (fun l t => l.subscribe t (.tally g)) l).Counts g (members ++ ts) (left + ts.length) := by
  induction ts generalizing l members left with
  | nil =>
    rw [List.append_nil]
    exact h
  | cons t ts ih =>
    have hrest := ih (h.enter (hts t List.mem_cons_self)) fun q hq => by
      rw [size_subscribe]
      exact hts q (List.mem_cons_of_mem _ hq)
    rw [List.append_cons, List.length_cons, Nat.add_comm ts.length, ← Nat.add_assoc]
    exact hrest

/-- A group that is formed counts its members. -/
theorem group {roles : Roles K J} (h : l.Assigned roles) (hm : ∀ t ∈ members, t < l.promises.size) :
    (l.group members).2.Counts l.promises.size members members.length := by
  have hcounts : Counts { l.promise.2 with
      groups := l.groups.put l.promises.size { members, left := members.length } } l.promises.size [] 0 := by
    refine ⟨?_, nofun, fun {t rs} hrs => ?_, ?_⟩
    · show l.promises.size < l.promise.2.promises.size
      rw [size_promise]
      exact Nat.lt_succ_self _
    · replace hrs : l.promise.2.promises[t]? = _ := hrs
      rw [promises_promise] at hrs
      split at hrs
      · cases hrs
        exact Nat.zero_le _
      · refine Nat.le_of_eq (List.countP_eq_zero.2 fun r hr => ?_)
        rw [h.not_tells (.inl ⟨rs, hrs, hr⟩)]
        exact Bool.false_ne_true
    · refine Nat.le_of_eq ?_
      rw [List.countP_nil, Nat.zero_add]
      refine List.countP_eq_zero.2 fun e he => ?_
      cases e with
      | react r p =>
        rw [Errand.tells, h.not_tells (.inr he)]
        exact Bool.false_ne_true
      | _ => exact Bool.false_ne_true
  have hall := hcounts.enterAll members fun t ht => by
    show t < l.promise.2.promises.size
    rw [size_promise]
    exact Nat.lt_succ_of_lt (hm t ht)
  rw [List.nil_append, Nat.zero_add] at hall
  exact hall

end Counts

/-! ## Groups that are waited for -/

/-- The group is not settled and counts who is left, or all its tasks have finished. -/
structure Gathers (l : Loop V P K) (g : PromiseId) (members : List PromiseId) : Prop where
  known : ∀ t ∈ members, t < l.promises.size
  waits : (∃ group, l.groups.get? g = some group ∧ l.outcome? g = none ∧ l.Counts g members group.left) ∨
    ∀ t ∈ members, l.isPending t = false

namespace Gathers

/-- Nothing is done to the group, or its tasks have finished. -/
theorem mono (h : l.Gathers g members) (hl : l.Later l') (hgroups : l'.groups.get? g = l.groups.get? g)
    (hout : l'.outcome? g = l.outcome? g)
    (hcounts : ∀ {left}, l.Counts g members left → l'.Counts g members left) : l'.Gathers g members := by
  refine ⟨fun t ht => Nat.lt_of_lt_of_le (h.known t ht) hl.size_le, ?_⟩
  rcases h.waits with ⟨group, hg, hnone, hc⟩ | hall
  · exact .inl ⟨group, hgroups.trans hg, hout.trans hnone, hcounts hc⟩
  · exact .inr fun t ht => hl.isPending_eq_false (h.known t ht) (hall t ht)

/-- Something else is settled. -/
theorem settle (h : l.Gathers g members) (hne : p ≠ g) (s : Settled V) : (l.settle p s).Gathers g members :=
  h.mono (.settle p s) (congrArg (·.get? g) groups_settle)
    (by rw [outcome?_settle, if_neg fun hc => hne hc.1.symm]) fun hc => hc.settle p s

/-- An errand has been taken up that does not tell the group. -/
theorem pick (h : l.Gathers g members) (i : Nat) : (l.pick i).Gathers g members :=
  ⟨h.known, h.waits.imp_left fun ⟨group, hg, hnone, hc⟩ => ⟨group, hg, hnone, hc.pick i⟩⟩

/-- The group is told: it is settled if nobody else is left. -/
theorem tally [Inhabited V] (h : l.Gathers g members) (hi : l.agenda[i]? = some e)
    (he : e.tells g = true) : (Program.tally g (l.pick i)).Gathers g members := by
  have hlater : (l.pick i).Later (Program.tally g (l.pick i)) := .effect (.react (.tally g) g)
  refine ⟨fun t ht => Nat.lt_of_lt_of_le (h.known t ht) hlater.size_le, ?_⟩
  rcases h.waits with ⟨group, hg, hnone, hc⟩ | hall
  · have htold := hc.told hi he
    have hg' : (l.pick i).groups.get? g = some group := hg
    unfold Program.tally
    rw [hg']
    dsimp only
    split
    · rename_i hleft
      have hzero : group.left - 1 = 0 := by omega
      refine .inr fun t ht => ?_
      rw [isPending_settle]
      have hdone := (hzero ▸ htold).finished t ht
      exact Bool.and_eq_false_imp.2 fun hp => absurd (hp.symm.trans hdone) (by decide)
    · refine .inl ⟨{ group with left := group.left - 1 }, ?_, hnone, htold.congr rfl rfl⟩
      rw [Keyed.get?_put, if_pos rfl]
  · exact .inr fun t ht => hlater.isPending_eq_false (h.known t ht) (hall t ht)

/-- Another group is told. -/
theorem tallyOther [Inhabited V] (h : l.Gathers g members) {g' : PromiseId} (hne : g' ≠ g) :
    (Program.tally g' l).Gathers g members := by
  unfold Program.tally
  cases hg : l.groups.get? g' with
  | none => exact h
  | some group =>
    dsimp only
    split
    · refine settle (l := { l with groups := l.groups.erase g' }) ?_ hne _
      refine h.mono (.congr rfl rfl) ?_ rfl fun hc => hc.congr rfl rfl
      show (l.groups.erase g').get? g = _
      rw [Keyed.get?_erase, if_neg (Ne.symm hne)]
    · refine h.mono (.congr rfl rfl) ?_ rfl fun hc => hc.congr rfl rfl
      show (l.groups.put g' _).get? g = _
      rw [Keyed.get?_put, if_neg (Ne.symm hne)]

/-- An errand settles the group only if all its tasks have finished. -/
theorem effect [Inhabited V] {roles : Roles K J} {busy : Option PromiseId} {base : Nat}
    (h : l.Gathers g members) (hs : l.Sound roles busy base) (hr : roles g = .group)
    (hi : l.agenda[i]? = some e) : (Program.Errand.effect e (l.pick i)).Gathers g members := by
  have hmem := List.mem_of_getElem? hi
  -- Nothing but a tally settles a group.
  have hother : ∀ {p s role}, roles p = role → role ≠ .group → ((l.pick i).settle p s).Gathers g members :=
    fun hp hne => (h.pick i).settle (by rintro rfl; exact hne (hp.symm.trans hr)) _
  cases e with
  | step t => exact h.pick i
  | deliver p x =>
    obtain ⟨job, hj⟩ := hs.assigned.delivered hmem
    exact hother hj (by simp)
  | expire p => exact hother (hs.assigned.expired hmem) (by simp)
  | react r p =>
    have hfits := hs.assigned.fits (.inr hmem)
    cases r with
    | wake t => exact h.pick i
    | hook k => exact h.pick i
    | signal w => exact hother hfits (by simp)
    | relay q =>
      unfold Program.Errand.effect
      dsimp only
      split
      · exact hother hfits (by simp)
      · exact h.pick i
    | tally g' =>
      by_cases he : g' = g
      · subst he
        exact h.tally hi (decide_eq_true rfl)
      · exact (h.pick i).tallyOther he

/-- The end of a turn settles the task alone. -/
theorem conclude (h : l.Gathers g members) {t : PromiseId} (hne : t ≠ g) (turn : Turn P V) :
    (Program.conclude t turn l).Gathers g members := by
  refine h.mono (.conclude t turn) (congrArg (·.get? g) groups_conclude)
    (outcome?_conclude (Ne.symm hne)) fun {left} hc => ?_
  cases turn with
  | rest on point =>
    exact (hc.congr rfl rfl : Counts { l with
      tasks := l.tasks.put t { point, restsOn := some on } } g members left).subscribe on rfl
  | giveWay point =>
    exact (hc.congr rfl rfl : Counts { l with tasks := l.tasks.put t { point } } g members left).enqueue rfl
  | finish result =>
    exact (hc.congr rfl rfl : Counts { l with tasks := l.tasks.erase t } g members left).settle t _

/-- A group that is formed waits for its members. -/
theorem group {roles : Roles K J} (h : l.Assigned roles) (hm : ∀ t ∈ members, t < l.promises.size) :
    (l.group members).2.Gathers l.promises.size members := by
  have hc := Counts.group h hm
  refine ⟨hc.known, .inl ⟨{ members, left := members.length }, ?_, ?_, hc⟩⟩
  · rw [show (l.group members).2.groups = _ from groups_tallyAll members]
    show (l.groups.put l.promises.size _).get? _ = _
    rw [Keyed.get?_put, if_pos rfl]
  · rw [(Still.group members).outcome]
    exact Option.eq_none_iff_forall_ne_some.2 fun o ho => absurd (outcome?_lt ho) (Nat.lt_irrefl _)

/-- If the group is settled all its tasks have finished. -/
theorem finished (h : l.Gathers g members) {o : Settled V} (ho : l.outcome? g = some o) :
    ∀ t ∈ members, ∃ o, l.outcome? t = some o := by
  intro t ht
  refine (isPending_or_settled (h.known t ht)).resolve_left fun hp => ?_
  rcases h.waits with ⟨_, _, hnone, _⟩ | hall
  · cases hnone.symm.trans ho
  · cases (hall t ht).symm.trans hp

end Gathers

end Loop

end SourceTrees
