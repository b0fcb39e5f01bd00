import SourceTrees.Proofs.Loop.Hooks
import SourceTrees.Proofs.Service.Course

/-!
# Operations are forgotten before anybody goes on

A flight forgets an operation by a hook of it.  Where errands are served first come, first served, that is
done before any of those who wait for the operation is told of its end.

## Protocol

* A move is **calm** if it serves the first errand, does a job or lets time pass: nothing is asked for, and
  nobody is cancelled.

## Results

* `Service.Maps` — the flight of a hook maps to an operation; only attaching makes it do so.
* `Service.Step.hooksFirst` — in every run hooks come first.
* **`Service.Prompt.step`** — in a calm run, once a shield has taken over the outcome of an operation, the
  operation has been forgotten.
-/

set_option autoImplicit false

namespace SourceTrees.Service

open Loop

variable {s s' : Service} {roles roles' : Roles Hook Job} {busy : Option PromiseId} {base : Nat} {w : Woken}
  {m m' : Midst} {mv : Service.Move} {q op : PromiseId} {k : Hook} {o : Settled Reply}

/-- The move serves the first errand, does a job, or lets time pass. -/
def Move.isCalm : Service.Move → Bool
  | .serve place => place = 0
  | .act (.release _) | .expire | .clock _ => true
  | .act _ => false

theorem Move.spares_of_isCalm (h : mv.isCalm = true) : SparesOperations s mv := by
  cases mv with
  | act a => cases a <;> trivial
  | _ => trivial

theorem Move.not_cancels_of_isCalm {c : PromiseId} (h : mv.isCalm = true) : ¬ s.Cancels c mv := by
  cases mv with
  | act a => cases a <;> first | exact not_false | cases h
  | _ => exact not_false

/-- The flight of the hook maps to the operation. -/
def Maps (s : Service) : Hook → PromiseId → Prop
  | .boot, op => s.bootFlight.entries.get? () = some op
  | .grammar language, op => s.grammarFlight.entries.get? language = some op

/-- What is mapped is an operation that has not been forgotten. -/
theorem Ordered.maps (h : Ordered busy base s roles) (hm : s.Maps k op) :
    roles op = .operation k ∧ s.loop.Due op (.hook k) := by
  cases k with
  | boot => exact h.boot.entry hm
  | grammar language => exact h.load.entry hm

/-! ## Hooks come first -/

theorem hooksFirst_handedIn (h : s.loop.HooksFirst) (crew : Crew) (job : Job) :
    (Work.handedIn s crew job).loop.HooksFirst := by
  unfold Work.handedIn
  split
  · refine h.promise.enqueueAll _ fun e he r p => ?_
    simp at he
    simp [he]
  · exact h.promise

theorem hooksFirst_dismiss (h : s.loop.HooksFirst) : (Work.dismiss s).2.loop.HooksFirst := by
  rw [Work.dismiss_eq]
  split
  · exact h
  · refine h.enqueueAll _ fun e he r p => ?_
    obtain ⟨t, -, w', rfl, -⟩ := Ticket.mem_runAll he
    simp

theorem Stride.hooksFirst (hst : Stride w m m') (h : m.service.loop.HooksFirst) :
    m'.service.loop.HooksFirst := by
  cases hst with
  | bootJoined hp hr => exact h.shield _
  | bootLaunched hp hn => exact (h.launch (f := m.service.bootFlight) () (Stage.boot .start) Hook.boot).shield _
  | loadJoined language hp hr => exact h.shield _
  | loadLaunched language hp hn =>
    exact (h.launch (f := m.service.grammarFlight) language (Stage.fetch (.start language))
      (Hook.grammar language)).shield _
  | submitted crew hc hg => exact hooksFirst_handedIn h crew _
  | guarded hg => exact h.shield _
  | waited hg => exact h.waiter _
  | unsubscribed hs => exact h.unsubscribe _ _
  | bootTimed seconds hg => exact h.timer seconds
  | timerDropped p hs => exact h.congr rfl rfl
  | drawn hg hp => exact h.promise
  | calledNext hg hp hheld hk => exact h.settle _ _
  | gateMade => exact h.promise
  | spawned call hc => exact h.spawn _
  | grouped hm => exact h.group _
  | dismissed => exact hooksFirst_dismiss h
  | _ => exact h

theorem Strides.hooksFirst (hst : Strides w m m') (h : m.service.loop.HooksFirst) :
    m'.service.loop.HooksFirst := by
  induction hst with
  | refl => exact h
  | tail _ hstep ih => exact hstep.hooksFirst ih

/-- In every run hooks come first. -/
theorem Step.hooksFirst (hst : Step s roles mv s' roles') (h : s.loop.HooksFirst) : s'.loop.HooksFirst := by
  cases hst with
  | idle => exact h
  | carried hi hw hk => exact (h.pick _).effect _
  | @forgotten i hook op hi => cases hook <;> exact h.pick i
  | expired => exact h.expireDue
  | clocked time => exact h.congr rfl rfl
  | spawned call => exact h.spawn _
  | workedOff hi =>
    rw [Work.workOff_eq hi]
    refine h.enqueueAll _ fun e he r p => ?_
    simp at he
    simp [he]
  | cancelled t ha => exact h.cancelTask t
  | leaseEnded hg fault => exact h.settle _ _
  | turn hwakes hsts hres hend => exact (Strides.hooksFirst hsts (h.pick _)).conclude _ _

/-! ## What is mapped -/

/-- A flight comes to map to an operation only as that is started. -/
theorem Stride.maps_cases (hst : Stride w m m') (h : m'.service.Maps k op) :
    m.service.Maps k op ∨ op = m.service.loop.promises.size := by
  cases hst with
  | bootLaunched hp hn =>
    cases k with
    | boot =>
      replace h : (m.service.bootFlight.entries.put () m.service.loop.promises.size).get? () = some op := h
      rw [Keyed.get?_put, if_pos rfl] at h
      cases h
      exact .inr rfl
    | grammar language => exact .inl h
  | loadLaunched language hp hn =>
    cases k with
    | boot => exact .inl h
    | grammar l =>
      replace h : (m.service.grammarFlight.entries.put language m.service.loop.promises.size).get? l =
        some op := h
      rw [Keyed.get?_put] at h
      split at h
      · cases h
        exact .inr rfl
      · exact .inl h
  | submitted crew hc hg =>
    refine .inl ?_
    unfold Work.handedIn at h
    split at h <;> cases k <;> exact h
  | dismissed =>
    refine .inl ?_
    rw [Work.dismiss_eq] at h
    split at h <;> cases k <;> exact h
  | _ => cases k <;> exact .inl h

theorem Strides.maps_cases (hst : Strides w m m') (h : m'.service.Maps k op) :
    m.service.Maps k op ∨ m.service.loop.promises.size ≤ op := by
  induction hst with
  | refl => exact .inl h
  | tail hst hstep ih =>
    rcases hstep.maps_cases h with h | rfl
    · exact ih h
    · exact .inr (Strides.later hst).size_le

theorem maps_forgotten {hook : Hook} {q : PromiseId} {l : Loop Reply Stage Hook}
    (h : (Calls.react hook q { s with loop := l }).Maps k op) : s.Maps k op := by
  have hforget : ∀ {κ : Type} [DecidableEq κ] {f : Flight κ} {key key' : κ},
      (f.forget key q).entries.get? key' = some op → f.entries.get? key' = some op := by
    intro κ _ f key key' h
    unfold Flight.forget at h
    split at h
    · rw [Keyed.get?_erase] at h
      split at h
      · cases h
      · exact h
    · exact h
  cases hook <;> cases k
  · exact hforget h
  · exact h
  · exact h
  · exact hforget h

theorem Step.maps_cases (hst : Step s roles mv s' roles') (h : s'.Maps k op) :
    s.Maps k op ∨ s.loop.promises.size ≤ op := by
  cases hst with
  | forgotten hi => exact .inl (maps_forgotten h)
  | workedOff hi =>
    rw [Work.workOff_eq hi] at h
    exact .inl (by cases k <;> exact h)
  | @turn i t task given turn m hwakes hsts hres hend =>
    have hm : m.service.Maps k op := by cases k <;> exact h
    rcases Strides.maps_cases hsts hm with hm | hle
    · exact .inl (by cases k <;> exact hm)
    · exact .inr hle
  | _ => exact .inl (by cases k <;> exact h)

/-! ## Shields of operations -/

/-- Whoever has been told of the end of an operation, the operation has been forgotten. -/
def Prompt (s : Service) (roles : Roles Hook Job) : Prop :=
  ∀ q op k o, roles q = .shield op → roles op = .operation k → s.loop.outcome? q = some o → o ≠ .cancelled →
    ¬ s.Maps k op

/-- In a calm run a shield takes over an outcome as it is relayed, which is the first errand then. -/
theorem Step.relayed_first (ho : AtRest s roles) (hst : Step s roles mv s' roles') (hmv : mv.isCalm = true)
    (hq : roles' q = .shield op) (hout : s'.loop.outcome? q = some o) :
    s.loop.outcome? q = some o ∨
      s.loop.agenda[0]? = some (.react (.relay q) op) ∧ ∀ k, s'.Maps k op → s.Maps k op := by
  cases hst with
  | idle => exact .inl hout
  | @carried i e hi hw hk =>
    obtain rfl : i = 0 := of_decide_eq_true hmv
    have ha := ho.sound.assigned
    have hm := List.mem_of_getElem? hi
    have hsettle : ∀ {p x}, ((s.loop.pick 0).settle p x).outcome? q = some o →
        roles p ≠ .shield op → s.loop.outcome? q = some o := by
      intro p x hout hp
      rw [outcome?_settle] at hout
      split at hout
      · rename_i he
        exact absurd (he.1 ▸ hq) hp
      · exact hout
    cases e with
    | step t => exact .inl hout
    | deliver p x =>
      obtain ⟨j, hj⟩ := ha.delivered hm
      exact .inl (hsettle hout (by simp [hj]))
    | expire p => exact .inl (hsettle hout (by simp [ha.expired hm]))
    | react r p =>
      have hfits := ha.fits (.inr hm)
      cases r with
      | wake t => exact .inl hout
      | hook k' => exact absurd rfl (hk k' p)
      | signal w' =>
        have hrole : roles w' = .waiter p := hfits
        exact .inl (hsettle hout (by simp [hrole]))
      | tally g =>
        have hrole : roles g = .group := hfits
        refine .inl ?_
        replace hout : (Program.tally g (s.loop.pick 0)).outcome? q = some o := hout
        unfold Program.tally at hout
        split at hout
        · exact hout
        · split at hout
          · rw [outcome?_settle] at hout
            split at hout
            · rename_i he
              rw [← he.1, hq] at hrole
              cases hrole
            · exact hout
          · exact hout
      | relay q' =>
        have hrole : roles q' = .shield p := hfits
        by_cases he : q' = q
        · subst he
          cases hq.symm.trans hrole
          exact .inr ⟨hi, fun k h => by cases k <;> exact h⟩
        · refine .inl ?_
          simp only [Program.Errand.effect] at hout
          split at hout
          · rw [outcome?_settle, if_neg fun hc => he hc.1.symm] at hout
            exact hout
          · exact hout
  | @forgotten i hook op' hi => cases hook <;> exact .inl hout
  | expired => exact .inl ((Still.expireDue.outcome q).symm.trans hout)
  | clocked time => exact .inl hout
  | spawned call => cases hmv
  | workedOff hi =>
    rw [Work.workOff_eq hi] at hout
    exact .inl hout
  | cancelled t ha =>
    rcases ha with rfl | ⟨rfl, _⟩ | ⟨language, rfl, _⟩ <;> cases hmv
  | leaseEnded hg fault => cases hmv
  | turn hwakes hsts hres hend =>
    have ht := ho.takeUp hwakes
    rw [(ht.strides hsts).outcome?_conclude (by rw [hq]; rfl),
      Strides.outcome?_eq ht hsts (by simp [hq])] at hout
    exact .inl hout

/-- **In a calm run operations are forgotten before anybody is told of their end.** -/
theorem Prompt.step (h : Prompt s roles) (ho : AtRest s roles) (hf : s.loop.HooksFirst)
    (hst : Step s roles mv s' roles') (hmv : mv.isCalm = true) : Prompt s' roles' := by
  intro q op k o hq hop hout hne hm
  obtain ⟨ho', hext⟩ := ho.step hst
  rcases hst.relayed_first ho hmv hq hout with hold | ⟨hi, hmaps⟩
  · have hq' : roles q = .shield op :=
      (hext q (ho.sound.assigned.role_ne_unused (outcome?_lt hold))).symm.trans hq
    have hended := (ho.sound.assigned.taken hq' hold).resolve_left hne
    have hlt := outcome?_lt hended
    have hop' : roles op = .operation k := (hext op (ho.sound.assigned.role_ne_unused hlt)).symm.trans hop
    have hm' := (hst.maps_cases hm).resolve_right (Nat.not_le.2 hlt)
    exact h q op k o hq' hop' hold hne hm'
  · -- The hook has been carried out, since it stood before the relay.
    obtain ⟨hrole, hdue⟩ := ho.maps (hmaps k hm)
    obtain ⟨o', hout'⟩ := hf.settled (List.mem_of_getElem? hi)
    rcases hdue with hsub | hmem
    · have hopen := hsub.isPending
      rw [isPending_of_outcome? hout'] at hopen
      cases hopen
    · exact hf.hook_not_mem hi hmem

end SourceTrees.Service
