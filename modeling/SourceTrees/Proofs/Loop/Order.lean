import SourceTrees.Proofs.Loop.Sound

/-!
# Errands served in any order

A program serves the first errand of the agenda.  What is proved here holds whatever errand is served
next: `Program.serveAt` serves the one at a given place.  Timers that are due may come to the agenda at
any moment.

## Results

* `Program.turn?_eq` — the program's own turns are among these.
* `Program.serveAt_turn` — an errand that wakes a task gives it its turn, with what the promise on which
  it rests was settled with.
* `Program.serveAt_other` — every other errand but a hook changes nothing but the loop.
-/

set_option autoImplicit false

namespace SourceTrees

variable {σ V P K J : Type}

namespace Loop

variable [Inhabited V] {l : Loop V P K} {roles : Roles K J} {base i : Nat} {t : PromiseId}
  {task : Task P} {given : Except Fault V}

/-- What a task that is woken is given. -/
def Gives (l : Loop V P K) (task : Task P) (given : Except Fault V) : Prop :=
  match task.restsOn with
  | none => given = .ok default
  | some p => ∃ o, l.outcome? p = some o ∧ given = o.result

/-- The errand at a place of the agenda wakes a task, which is given something. -/
structure Wakes (l : Loop V P K) (i : Nat) (t : PromiseId) (task : Task P)
    (given : Except Fault V) : Prop where
  errand : ∃ e, l.agenda[i]? = some e ∧ e.woken? = some t
  unfinished : l.tasks.get? t = some task
  gives : l.Gives task given

theorem Wakes.takeUp (h : l.Wakes i t task given) (hs : l.Sound roles none base) :
    (l.pick i).Sound roles (some t) base := by
  obtain ⟨e, hi, hw⟩ := h.errand
  exact hs.takeUp hi hw

end Loop

namespace Program

/-- The loop is a part of the state like any other. -/
structure Lawful (prog : Program σ V P K) : Prop where
  loop_withLoop : ∀ s l, prog.loop (prog.withLoop s l) = l
  withLoop_loop : ∀ s, prog.withLoop s (prog.loop s) = s
  withLoop_withLoop : ∀ s l l', prog.withLoop (prog.withLoop s l) l' = prog.withLoop s l'

variable (prog : Program σ V P K) {s : σ} {i : Nat} {e : Errand V K}
  {roles : Roles K J} {base : Nat} {t : PromiseId}

theorem met_eq_ok {task : Task P} {given : Except Fault V} {v : V} (h : met task given = .ok v) :
    task.marked = false ∧ given = .ok v := by
  unfold met at h
  split at h
  · split at h
    · cases h
    · cases h
  · split at h
    · cases h
    · rename_i hm
      exact ⟨Bool.eq_false_iff.2 hm, h⟩

theorem met_eq_error {task : Task P} {given : Except Fault V} {f : Fault}
    (h : met task given = .error f) : f = .cancellation ∧ task.marked = true ∨ given = .error f := by
  unfold met at h
  split at h
  · split at h
    · rename_i hm
      cases h
      exact .inl ⟨rfl, hm.2⟩
    · exact .inr h
  · split at h
    · rename_i hm
      cases h
      exact .inl ⟨rfl, hm⟩
    · exact .inr h

variable [Inhabited V]

/-- Serves the errand at a place of the agenda; nothing if there is none. -/
def serveAt (i : Nat) (s : σ) : σ :=
  match (prog.loop s).agenda[i]? with
  | some e => prog.serve e (prog.change s (·.pick i))
  | none => s

/-- Puts the timers that are due on the agenda. -/
def expire (s : σ) : σ := prog.change s (·.expireDue)

/-- A turn of the program serves the first errand, after the timers that are due if there was none. -/
theorem turn?_eq (hp : prog.Lawful) {s' : σ} (h : prog.turn? s = some s') :
    s' = prog.serveAt 0 s ∨ s' = prog.serveAt 0 (prog.expire s) := by
  unfold turn? at h
  split at h
  · rename_i e rest ha
    cases h
    refine .inl ?_
    simp [serveAt, ha, change, Loop.pick]
  · dsimp only at h
    split at h
    · cases h
    · rename_i e rest ha
      cases h
      refine .inr ?_
      simp [serveAt, expire, change, hp.loop_withLoop, hp.withLoop_withLoop, ha, Loop.pick]

theorem serveAt_none (h : (prog.loop s).agenda[i]? = none) : prog.serveAt i s = s := by
  simp [serveAt, h]

/-- The errand gives the task its turn. -/
theorem serveAt_turn (hp : prog.Lawful) (h : (prog.loop s).Sound roles none base)
    (hi : (prog.loop s).agenda[i]? = some e) (hw : e.woken? = some t) :
    ∃ task given, (prog.loop s).Wakes i t task given ∧
      prog.serveAt i s =
        let (turn, s') := prog.resume t task.point (met task given) (prog.change s (·.pick i))
        prog.change s' (conclude t turn) := by
  have hm := List.mem_of_getElem? hi
  rcases Errand.woken?_eq_some_iff.1 hw with rfl | ⟨p, rfl⟩
  · obtain ⟨_, task, hg, hr⟩ := h.tended.stepped hm
    refine ⟨task, .ok default, ⟨⟨_, hi, hw⟩, hg, by rw [Loop.Gives, hr]⟩, ?_⟩
    have hg' : ((prog.loop s).pick i).tasks.get? t = some task := hg
    simp [serveAt, hi, serve, stepTask, change, hp.loop_withLoop, hg']
  · obtain ⟨_, task, hg, hr⟩ := h.tended.woken (.inr hm)
    obtain ⟨o, ho⟩ := h.tended.settled hm
    refine ⟨task, o.result, ⟨⟨_, hi, hw⟩, hg, by rw [Loop.Gives, hr]; exact ⟨o, ho, rfl⟩⟩, ?_⟩
    have hg' : ((prog.loop s).pick i).tasks.get? t = some task := hg
    have ho' : ((prog.loop s).pick i).outcome? p = some o := ho
    simp [serveAt, hi, serve, reactTo, stepTask, change, hp.loop_withLoop, hg', ho']

/-- What an errand that neither wakes a task nor is a hook does to the loop. -/
def Errand.effect (e : Errand V K) (l : Loop V P K) : Loop V P K :=
  match e with
  | .react (.relay q) p => match l.outcome? p with | some o => l.settle q o | none => l
  | .react (.signal w) _ => l.settle w (.value default)
  | .react (.tally g) _ => tally g l
  | .deliver p x => l.settle p (.ofResult x)
  | .expire p => l.settle p (.value default)
  | _ => l

/-- Every other errand but a hook changes nothing but the loop. -/
theorem serveAt_other (hp : prog.Lawful) (hi : (prog.loop s).agenda[i]? = some e)
    (hw : e.woken? = none) (hk : ∀ k p, e ≠ .react (.hook k) p) :
    prog.serveAt i s = prog.change s fun l => Errand.effect e (l.pick i) := by
  rcases e with t | ⟨r, p⟩ | ⟨p, x⟩ | p
  · cases hw
  · rcases r with t | q | w | g | k
    · cases hw
    · cases ho : ((prog.loop s).pick i).outcome? p with
      | some o =>
        simp [serveAt, hi, serve, reactTo, change, hp.loop_withLoop, hp.withLoop_withLoop,
          Errand.effect, ho]
      | none =>
        simp [serveAt, hi, serve, reactTo, change, hp.loop_withLoop, Errand.effect, ho]
    · simp [serveAt, hi, serve, reactTo, change, hp.loop_withLoop, hp.withLoop_withLoop,
        Errand.effect]
    · simp [serveAt, hi, serve, reactTo, change, hp.loop_withLoop, hp.withLoop_withLoop,
        Errand.effect]
    · exact absurd rfl (hk k p)
  · simp [serveAt, hi, serve, change, hp.loop_withLoop, hp.withLoop_withLoop, Errand.effect]
  · simp [serveAt, hi, serve, change, hp.loop_withLoop, hp.withLoop_withLoop, Errand.effect]

theorem serveAt_hook {k : K} {p : PromiseId}
    (hi : (prog.loop s).agenda[i]? = some (.react (.hook k) p)) :
    prog.serveAt i s = prog.react k p (prog.change s (·.pick i)) := by
  simp [serveAt, hi, serve, reactTo]

/-- The other errands keep the loop sound. -/
theorem sound_effect {l : Loop V P K} (h : l.Sound roles none base) (hi : l.agenda[i]? = some e)
    (hw : e.woken? = none) : (Errand.effect e (l.pick i)).Sound roles none base := by
  rcases e with t | ⟨r, p⟩ | ⟨p, x⟩ | p
  · cases hw
  · rcases r with t | q | w | g | k
    · cases hw
    · obtain ⟨o, ho⟩ := h.tended.settled (List.mem_of_getElem? hi)
      have ho' : (l.pick i).outcome? p = some o := ho
      simp only [Errand.effect, ho']
      exact h.relay hi ho
    · exact h.signal hi
    · exact (h.pick hi rfl (fun _ _ he => by cases he) fun _ _ he => by cases he).tally g
    · exact h.pick hi rfl (fun _ _ he => by cases he) fun _ _ he => by cases he
  · exact h.deliver hi
  · exact h.expire hi

end Program

end SourceTrees
