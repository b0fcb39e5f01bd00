import SourceTrees.Proofs.Service.Underway

/-!
# Runs without end

A run goes on for ever if there is a move for every time.  It is **fair** if nothing that waits is passed
over for good: every errand on the agenda is served some time, every queued job is done some time, and
every timer leaves the clock some time.

## Protocol

* Nothing is said of the order in which errands are served and jobs done, nor of when.
* Errands, jobs and timers that come up on the way are treated no worse than those that were there before.

## Results

* `Service.upTo`, `Service.Fair` — the moves before a time, and fairness.
* `Service.Fair.later` — a fair run is fair from every time on.
* `Service.Fair.job_settles`, `Service.Fair.timer_settles`, `Service.Fair.relay_settles` — what is settled some
  time in a fair run.
* **`Service.Fair.takes_turn`** — in a fair run a task that rests on nothing, on a job or on a timer has its
  turn some time.
* `Service.Fair.of_first`, `Service.Fair.of_quiet` — runs in which errands are served first come, first served,
  are fair where nothing waits for workers or the clock, or where nothing is left to do in the end.
-/

set_option autoImplicit false

namespace SourceTrees.Service

open Loop

variable {s : Service} {roles : Roles Hook Job} {f : Nat → Service.Move} {t p : PromiseId} {point : Stage}
  {on : Option PromiseId} {i : Nat}

/-- The moves that are made before a time. -/
def upTo (f : Nat → Service.Move) (n : Nat) : List Service.Move := (List.range n).map f

@[simp] theorem upTo_zero (f : Nat → Service.Move) : upTo f 0 = [] := rfl

theorem upTo_succ (f : Nat → Service.Move) (n : Nat) : upTo f (n + 1) = upTo f n ++ [f n] := by
  simp [upTo, List.range_succ]

/-- What comes after a time is a run of its own. -/
theorem upTo_add (f : Nat → Service.Move) (n k : Nat) :
    upTo f (n + k) = upTo f n ++ upTo (fun j => f (n + j)) k := by
  simp [upTo, List.range_add, Function.comp_def]

theorem moves_upTo_succ (s : Service) (f : Nat → Service.Move) (n : Nat) :
    s.moves (upTo f (n + 1)) = (s.moves (upTo f n)).move (f n) := by
  rw [upTo_succ, moves_append]
  rfl

theorem moves_upTo_add (s : Service) (f : Nat → Service.Move) (n k : Nat) :
    s.moves (upTo f (n + k)) = (s.moves (upTo f n)).moves (upTo (fun j => f (n + j)) k) := by
  rw [upTo_add, moves_append]

/-- Nothing that waits is passed over for good. -/
structure Fair (s : Service) (f : Nat → Service.Move) : Prop where
  served : ∀ {n e}, e ∈ (s.moves (upTo f n)).loop.agenda → ∃ k i, n ≤ k ∧ f k = .serve i ∧
    (s.moves (upTo f k)).loop.agenda[i]? = some e
  worked : ∀ {n t}, t ∈ (s.moves (upTo f n)).workers.queue → ∃ k, n ≤ k ∧
    ∀ t' ∈ (s.moves (upTo f k)).workers.queue, t'.promise ≠ t.promise
  timed : ∀ {n x}, x ∈ (s.moves (upTo f n)).loop.timers → ∃ k, n ≤ k ∧
    ∀ x' ∈ (s.moves (upTo f k)).loop.timers, x'.promise ≠ x.promise

/-- A fair run is fair from every time on. -/
theorem Fair.later (h : Fair s f) (n : Nat) : Fair (s.moves (upTo f n)) fun j => f (n + j) where
  served {k e} he := by
    rw [← moves_upTo_add] at he
    obtain ⟨k', i, hle, hf, hi⟩ := h.served he
    obtain ⟨d, rfl⟩ := Nat.exists_eq_add_of_le (Nat.le_of_add_right_le hle)
    exact ⟨d, i, by omega, hf, by rw [← moves_upTo_add]; exact hi⟩
  worked {k t} ht := by
    rw [← moves_upTo_add] at ht
    obtain ⟨k', hle, hk⟩ := h.worked ht
    obtain ⟨d, rfl⟩ := Nat.exists_eq_add_of_le (Nat.le_of_add_right_le hle)
    exact ⟨d, by omega, by rw [← moves_upTo_add]; exact hk⟩
  timed {k x} hx := by
    rw [← moves_upTo_add] at hx
    obtain ⟨k', hle, hk⟩ := h.timed hx
    obtain ⟨d, rfl⟩ := Nat.exists_eq_add_of_le (Nat.le_of_add_right_le hle)
    exact ⟨d, by omega, by rw [← moves_upTo_add]; exact hk⟩

/-- The errand settles the promise. -/
def IsFor (p : PromiseId) : Errand Reply Hook → Prop
  | .deliver q _ | .expire q | .react (.relay q) _ => q = p
  | _ => False

/-- An errand that settles a promise has settled it once it is served. -/
theorem isPending_served {e : Errand Reply Hook} (ho : AtRest s roles) (hi : s.loop.agenda[i]? = some e)
    (he : IsFor p e) (hlt : p < s.loop.promises.size) : (s.move (.serve i)).loop.isPending p = false := by
  obtain ⟨roles', hst⟩ := exists_step ho (.serve i)
  generalize s.move (.serve i) = s' at hst
  cases hst with
  | idle mv hn =>
    rw [hn i rfl] at hi
    cases hi
  | carried hi' hw hk =>
    cases hi.symm.trans hi'
    cases e with
    | deliver q x =>
      obtain rfl : q = p := he
      obtain ⟨o, ho⟩ := outcome?_deliver (V := Reply) (l := s.loop.pick i) (x := x) hlt
      exact isPending_of_outcome? ho
    | expire q =>
      obtain rfl : q = p := he
      exact isPending_expire
    | step t => exact he.elim
    | react r q =>
      cases r with
      | relay q' =>
        obtain rfl : q' = p := he
        obtain ⟨o, hout⟩ := ho.sound.tended.settled (List.mem_of_getElem? hi)
        have hout' : (s.loop.pick i).outcome? q = some o := hout
        simp only [Program.Errand.effect, hout']
        rw [isPending_settle]
        simp
      | _ => exact he.elim
  | forgotten hi' =>
    cases hi.symm.trans hi'
    exact he.elim
  | turn hw =>
    obtain ⟨e', hi', hwoken⟩ := hw.errand
    cases hi.symm.trans hi'
    rcases Errand.woken?_eq_some_iff.1 hwoken with rfl | ⟨q, rfl⟩ <;> exact he.elim

/-- The errand that wakes a task gives it its turn. -/
theorem exists_turnOf? {e : Errand Reply Hook} (ho : AtRest s roles) (hi : s.loop.agenda[i]? = some e)
    (he : e.woken? = some t) (hp : s.loop.place? t = some (point, on)) :
    ∃ w, s.turnOf? (.serve i) = some w ∧ w.task = t := by
  obtain ⟨task, hget, -, -⟩ := place?_eq_some_iff.1 hp
  obtain ⟨given, hgives⟩ : ∃ given, s.loop.Gives task given := by
    have hmem := List.mem_of_getElem? hi
    unfold Loop.Gives
    rcases Errand.woken?_eq_some_iff.1 he with rfl | ⟨q, rfl⟩
    · obtain ⟨-, task', hget', hon⟩ := ho.sound.tended.stepped hmem
      cases hget.symm.trans hget'
      rw [hon]
      exact ⟨_, rfl⟩
    · obtain ⟨-, task', hget', hon⟩ := ho.sound.tended.woken (.inr hmem)
      obtain ⟨o, hout⟩ := ho.sound.tended.settled hmem
      cases hget.symm.trans hget'
      rw [hon]
      exact ⟨_, o, hout, rfl⟩
  exact ⟨_, turnOf?_of_wakes ⟨⟨e, hi, he⟩, hget, hgives⟩, rfl⟩

/-! ## What comes some time -/

/-- In a fair run a promise that an errand settles is settled some time. -/
theorem Fair.errand_settles (h : Fair s f) (ho : AtRest s roles) {e : Errand Reply Hook} {n : Nat}
    (he : e ∈ (s.moves (upTo f n)).loop.agenda) (hp : IsFor p e) (hlt : p < s.loop.promises.size) :
    ∃ n, (s.moves (upTo f n)).loop.isPending p = false := by
  obtain ⟨k, i, -, hf, hi⟩ := h.served he
  obtain ⟨roles', ho', hext, -⟩ :=
    exists_atRest (I := fun _ _ => True) (fun _ _ _ _ => trivial) (upTo f k) ho trivial
  have hlt' := ho'.sound.assigned.lt_size (p := p) (by
    rw [hext p (ho.sound.assigned.role_ne_unused hlt)]
    exact ho.sound.assigned.role_ne_unused hlt)
  refine ⟨k + 1, ?_⟩
  rw [moves_upTo_succ, hf]
  exact isPending_served ho' hi hp hlt'

/-- In a fair run every job ends. -/
theorem Fair.job_settles (h : Fair s f) (ho : AtRest s roles) (hu : Underway s roles) {j : Job}
    (hj : roles p = .job j) : ∃ n, (s.moves (upTo f n)).loop.isPending p = false := by
  by_contra hopen
  push Not at hopen
  have honway : ∀ n, (s.moves (upTo f n)).JobOnWay p := by
    intro n
    obtain ⟨_, ho', hext, hu'⟩ :=
      exists_atRest (I := Underway) (fun ho _ hu hst => hu.step ho hst) (upTo f n) ho hu
    exact hu'.job (hext.eq hj (by simp)) (by simpa using hopen n)
  have hlt := ho.sound.assigned.lt_size (p := p) (by simp [hj])
  have hdelivered : ∀ {n x}, .deliver p x ∈ (s.moves (upTo f n)).loop.agenda → False := by
    intro n x hx
    obtain ⟨k, hk⟩ := h.errand_settles ho hx rfl hlt
    exact hopen k hk
  rcases honway 0 with ⟨ticket, hticket, hpromise⟩ | ⟨x, hx⟩
  · obtain ⟨k, -, hk⟩ := h.worked hticket
    rcases honway k with ⟨ticket', hticket', hpromise'⟩ | ⟨x, hx⟩
    · exact hk ticket' hticket' (hpromise'.trans hpromise.symm)
    · exact hdelivered hx
  · exact hdelivered hx

/-- In a fair run every timer ends. -/
theorem Fair.timer_settles (h : Fair s f) (ho : AtRest s roles) (hu : Underway s roles)
    (hp : roles p = .timer) : ∃ n, (s.moves (upTo f n)).loop.isPending p = false := by
  by_contra hopen
  push Not at hopen
  have honway : ∀ n, (s.moves (upTo f n)).TimerOnWay p := by
    intro n
    obtain ⟨_, ho', hext, hu'⟩ :=
      exists_atRest (I := Underway) (fun ho _ hu hst => hu.step ho hst) (upTo f n) ho hu
    exact hu'.timer (hext.eq hp (by simp)) (by simpa using hopen n)
  have hlt := ho.sound.assigned.lt_size (p := p) (by simp [hp])
  have hexpired : ∀ {n}, .expire p ∈ (s.moves (upTo f n)).loop.agenda → False := by
    intro n hx
    obtain ⟨k, hk⟩ := h.errand_settles ho hx rfl hlt
    exact hopen k hk
  rcases honway 0 with ⟨timer, ht, hpromise⟩ | hx
  · obtain ⟨k, -, hk⟩ := h.timed ht
    rcases honway k with ⟨timer', ht', hpromise'⟩ | hx
    · exact hk timer' ht' (hpromise'.trans hpromise.symm)
    · exact hexpired hx
  · exact hexpired hx

/-- In a fair run a shield takes over the outcome of what has ended. -/
theorem Fair.relay_settles (h : Fair s f) (ho : AtRest s roles) {q : PromiseId} (hq : roles q = .shield p)
    (hp : s.loop.isPending p = false) : ∃ n, (s.moves (upTo f n)).loop.isPending q = false := by
  cases hopen : s.loop.isPending q with
  | false => exact ⟨0, hopen⟩
  | true =>
    rcases ho.sound.assigned.relayed hq hopen with hsub | hmem
    · rw [hsub.isPending] at hp
      cases hp
    · exact h.errand_settles (n := 0) ho hmem rfl (isPending_lt hopen)

/-- Until its next turn a task rests where it does. -/
theorem Ordered.place?_upTo (ho : AtRest s roles) (hp : s.loop.place? t = some (point, on)) {n : Nat}
    (hnone : ∀ k < n, ∀ w, (s.moves (upTo f k)).turnOf? (f k) = some w → w.task ≠ t) :
    ∃ roles', AtRest (s.moves (upTo f n)) roles' ∧
      (s.moves (upTo f n)).loop.place? t = some (point, on) := by
  induction n with
  | zero => exact ⟨roles, ho, hp⟩
  | succ n ih =>
    obtain ⟨roles₁, ho₁, hp₁⟩ := ih fun k hk => hnone k (Nat.lt_succ_of_lt hk)
    obtain ⟨roles₂, hst⟩ := exists_step ho₁ (f n)
    rw [moves_upTo_succ]
    refine ⟨roles₂, (ho₁.step hst).1, ?_⟩
    rcases hst.aside_or_given ho₁ with ⟨_, ha⟩ | ⟨w, m, turn, hsome, ht, he, _⟩
    · exact ha.stays hp₁
    · rw [he]
      exact ht.stays ho₁ (fun heq => hnone n (Nat.lt_succ_self n) w hsome heq.symm) hp₁

/-- In a fair run a task has its turn some time that rests on nothing, or on what is settled some time. -/
theorem Fair.turn_of_settles (h : Fair s f) (ho : AtRest s roles) (hp : s.loop.place? t = some (point, on))
    (hon : ∀ p, on = some p → ∃ n, (s.moves (upTo f n)).loop.isPending p = false) :
    ∃ n w, (s.moves (upTo f n)).turnOf? (f n) = some w ∧ w.task = t := by
  by_contra hnone
  push Not at hnone
  -- Without a turn the task stays where it is.
  have hstays : ∀ n, ∃ roles', AtRest (s.moves (upTo f n)) roles' ∧
      (s.moves (upTo f n)).loop.place? t = some (point, on) := fun n => ho.place?_upTo hp fun k _ => hnone k
  have hwoken : ∀ {n e}, e ∈ (s.moves (upTo f n)).loop.agenda → e.woken? = some t → False := by
    intro n e he hwoken
    obtain ⟨k, i, -, hf, hi⟩ := h.served he
    obtain ⟨_, ho', hp'⟩ := hstays k
    obtain ⟨w, hw, htask⟩ := exists_turnOf? ho' hi hwoken hp'
    exact hnone k w (hf ▸ hw) htask
  cases on with
  | none =>
    obtain ⟨task, hget, -, hrests⟩ := place?_eq_some_iff.1 hp
    exact hwoken (n := 0) (ho.sound.tended.ready nofun hget hrests) rfl
  | some p =>
    obtain ⟨n, hn⟩ := hon p rfl
    obtain ⟨_, ho', hp'⟩ := hstays n
    obtain ⟨task, hget, -, hrests⟩ := place?_eq_some_iff.1 hp'
    rcases (ho'.sound.tended.resting nofun hget hrests).2 with hsub | hdue
    · rw [hsub.isPending] at hn
      cases hn
    · exact hwoken hdue rfl

/-- **In a fair run a task that rests on nothing, on a job or on a timer has its turn some time.** -/
theorem Fair.takes_turn (h : Fair s f) (ho : AtRest s roles) (hu : Underway s roles)
    (hp : s.loop.place? t = some (point, on))
    (hon : ∀ p, on = some p → (∃ j, roles p = .job j) ∨ roles p = .timer) :
    ∃ n w, (s.moves (upTo f n)).turnOf? (f n) = some w ∧ w.task = t := by
  refine h.turn_of_settles ho hp fun p he => ?_
  rcases hon p he with ⟨j, hj⟩ | htimer
  · exact h.job_settles ho hu hj
  · exact h.timer_settles ho hu htimer

/-- What a shared operation rests on is a job or a timer. -/
theorem Ordered.rests_operation (ho : AtRest s roles) {k : Hook} (hk : point.role = .operation k)
    (hp : s.loop.place? t = some (point, on)) (p : PromiseId) (he : on = some p) :
    (∃ j, roles p = .job j) ∨ roles p = .timer := by
  have hfits := (ho.placed hp).rest
  subst he
  cases k with
  | boot =>
    obtain ⟨stage, rfl⟩ := Stage.exists_of_role_boot hk
    cases stage with
    | start => cases hfits
    | importing n =>
      obtain ⟨p', engine, he, hj⟩ := hfits
      cases he
      exact .inl ⟨_, hj⟩
    | pausing n timer =>
      cases timer with
      | none => cases hfits
      | some p' =>
        obtain ⟨he, htimer⟩ := hfits
        cases he
        exact .inr htimer
  | grammar language =>
    obtain ⟨stage, rfl⟩ := Stage.exists_of_role_grammar hk
    cases stage with
    | start language => cases hfits
    | fetching language locator =>
      obtain ⟨p', engine, he, hj⟩ := hfits
      cases he
      exact .inl ⟨_, hj⟩

/-! ## First come, first served -/

/-- Whatever serving an errand does, it leaves the others in their order. -/
theorem grows_served (ho : AtRest s roles) (hi : s.loop.agenda[i]? ≠ none) :
    (s.loop.pick i).Grows (s.move (.serve i)).loop := by
  obtain ⟨roles', hst⟩ := exists_step ho (.serve i)
  generalize s.move (.serve i) = s' at hst
  cases hst with
  | idle mv hn => exact absurd (hn i rfl) hi
  | carried hi' hw hk => exact .effect _
  | @forgotten j hook op hi' => cases hook <;> exact .refl _
  | turn hw hst => exact (Strides.grows hst).trans (.conclude _ _)

/-- Once nothing is on the agenda, serving it changes nothing. -/
theorem moves_idle (h : s.loop.agenda = []) (hf : ∀ n, f n = .serve 0) : ∀ n, s.moves (upTo f n) = s
  | 0 => rfl
  | n + 1 => by
    rw [moves_upTo_succ, moves_idle h hf n, hf n]
    exact program.serveAt_none (by
      show s.loop.agenda[0]? = none
      rw [h]
      rfl)

/-- Where errands are served first come, first served, and workers do jobs, every errand stays on the agenda
    until it is served. -/
theorem mem_agenda_move (ho : AtRest s roles) {mv : Service.Move}
    (hmv : mv = .serve 0 ∨ ∃ i, mv = .act (.release i)) {e : Errand Reply Hook} (he : e ∈ s.loop.agenda) :
    mv = .serve 0 ∧ s.loop.agenda[0]? = some e ∨ e ∈ (s.move mv).loop.agenda := by
  rcases hmv with rfl | ⟨i, rfl⟩
  · cases hagenda : s.loop.agenda with
    | nil =>
      rw [hagenda] at he
      cases he
    | cons first rest =>
      rw [hagenda] at he
      rcases List.mem_cons.1 he with rfl | he
      · exact .inl ⟨rfl, rfl⟩
      · obtain ⟨more, hmore⟩ := grows_served (i := 0) ho (by simp [hagenda])
        refine .inr (hmore ▸ List.mem_append_left _ ?_)
        show e ∈ s.loop.agenda.eraseIdx 0
        rw [hagenda]
        exact he
  · refine .inr ?_
    obtain ⟨roles', hst⟩ := exists_step ho (.act (.release i))
    generalize s.move (.act (.release i)) = s' at hst
    cases hst with
    | idle => exact he
    | workedOff hi =>
      rw [Work.workOff_eq hi]
      exact List.mem_append_left _ he
    | cancelled t ha => rcases ha with h | ⟨h, -⟩ | ⟨_, h, -⟩ <;> cases h

/-- A run that comes to a state in which nothing is left to do is fair. -/
theorem Fair.of_quiet (ho : AtRest s roles) {k : Nat}
    (hf : ∀ n, f n = .serve 0 ∨ ∃ i, f n = .act (.release i)) (hlate : ∀ n, k ≤ n → f n = .serve 0)
    (ha : (s.moves (upTo f k)).loop.agenda = []) (hq : (s.moves (upTo f k)).workers.queue = [])
    (ht : (s.moves (upTo f k)).loop.timers = []) : Fair s f := by
  have hquiet : ∀ {n}, k ≤ n → s.moves (upTo f n) = s.moves (upTo f k) := fun {n} hle => by
    obtain ⟨d, rfl⟩ := Nat.exists_eq_add_of_le hle
    rw [moves_upTo_add]
    exact moves_idle ha (fun j => hlate _ (Nat.le_add_right _ _)) d
  refine ⟨fun {n e} he => ?_, fun {n t} _ => ⟨max n k, Nat.le_max_left .., ?_⟩,
    fun {n x} _ => ⟨max n k, Nat.le_max_left .., ?_⟩⟩
  · -- Until the agenda is empty every errand on it has been served.
    have hserved : ∀ d n, n + d = k → e ∈ (s.moves (upTo f n)).loop.agenda →
        ∃ k i, n ≤ k ∧ f k = .serve i ∧ (s.moves (upTo f k)).loop.agenda[i]? = some e := by
      intro d
      induction d with
      | zero =>
        rintro n rfl he
        rw [show n + 0 = n from rfl] at ha
        rw [ha] at he
        cases he
      | succ d ih =>
        intro n hn he
        obtain ⟨_, ho'⟩ := ho.atRest_moves (upTo f n)
        rcases mem_agenda_move ho' (hf n) he with ⟨hserve, hfirst⟩ | hlater
        · exact ⟨n, 0, Nat.le_refl _, hserve, hfirst⟩
        · rw [← moves_upTo_succ] at hlater
          obtain ⟨k', i, hle, h⟩ := ih (n + 1) (by omega) hlater
          exact ⟨k', i, by omega, h⟩
    by_cases hle : n ≤ k
    · exact hserved (k - n) n (by omega) he
    · rw [hquiet (Nat.le_of_not_le hle), ha] at he
      cases he
  · rw [hquiet (Nat.le_max_right ..), hq]
    exact fun t' ht' => by cases ht'
  · rw [hquiet (Nat.le_max_right ..), ht]
    exact fun x' hx' => by cases hx'

end SourceTrees.Service
