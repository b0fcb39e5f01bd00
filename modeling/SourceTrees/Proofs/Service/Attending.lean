import SourceTrees.Proofs.Service.Booting

/-!
# What becomes of those who wait for the boot

A call that needs the engine rests on a shield of the boot.  It goes on when the boot has ended with the
engine, and otherwise ends with the fault of the boot.

## Protocol

* A call **attends** a boot if it rests on a shield of it and is not to meet a cancellation.
* Warm-ups are left out, which swallow faults, and so are tools, which answer with a document.

## Results

* `Service.Follows.step` — a call that attends a boot follows it, whatever happens, except that the call
  is cancelled.
* `Service.Follows.receives` — the fault of the boot has reached the call, or it is on its way.
* `Service.HasTurn.ready_of_attends` — a call goes on only if the engine is ready.
-/

set_option autoImplicit false

namespace SourceTrees

/-- A call rests here that waits for the boot and passes a fault of it on. -/
def Stage.attends : Stage → Bool
  | init | grammar (.booting _) | parser (.grammar _ (.booting _))
  | lease _ (.parser (.grammar _ (.booting _))) | parse .tree (.booting ..)
  | parse .tree (.leasing _ _ _ (.parser (.grammar _ (.booting _)))) => true
  | _ => false

theorem Stage.exists_of_attends {stage : Stage} (h : stage.attends = true) :
    stage.rest = .shield .boot ∧ stage.role = .call ∧
      ∀ f s, (Calls.resume stage (.error f) s).1 = .finish (.error f) := by
  unfold attends at h
  split at h <;> first | exact ⟨rfl, rfl, fun _ _ => rfl⟩ | cases h

namespace Service

open Loop

variable {s s' : Service} {roles roles' : Roles Hook Job} {w : Woken} {m : Midst} {mv : Service.Move}
  {c op outer : PromiseId} {point : Stage} {on : Option PromiseId} {turn : Turn Stage Reply}

/-- The call rests on a shield of the operation, and nobody has cancelled it. -/
def Attends (s : Service) (c op : PromiseId) : Prop :=
  ∃ point outer, s.loop.tasks.get? c = some { point, restsOn := some outer } ∧ point.attends = true ∧
    s.loop.isPending outer = true ∧ s.loop.Due op (.relay outer)

/-- If the operation has failed, the call has failed as it has, or an errand is on the agenda that hands
    the fault on. -/
def Receives (s : Service) (c op : PromiseId) : Prop :=
  ∀ f, s.loop.outcome? op = some (.failed f) → f.kind = .boot ∧
    (s.loop.outcome? c = some (.failed f) ∨ s.loop.isPending c = true ∧
      ∃ outer, .react (.relay outer) op ∈ s.loop.agenda ∨ .react (.wake c) outer ∈ s.loop.agenda)

/-- The call rests on a shield that has no outcome but the boot's, it has failed with the boot, or the
    boot has succeeded. -/
inductive Follows (s : Service) (roles : Roles Hook Job) (c op : PromiseId) : Prop
  | waiting {point : Stage} {outer : PromiseId}
      (ht : s.loop.tasks.get? c = some { point, restsOn := some outer })
      (ha : point.attends = true) (hs : roles outer = .shield op)
      (ho : ∀ {o}, s.loop.outcome? outer = some o → s.loop.outcome? op = some o)
  | failed {f : Fault} (hop : s.loop.outcome? op = some (.failed f))
      (hc : s.loop.outcome? c = some (.failed f))
  | booted {v : Reply} (hop : s.loop.outcome? op = some (.value v))

/-- What is attended is a boot. -/
theorem Attends.follows (h : s.Attends c op) (ho : AtRest s roles) :
    roles op = .operation .boot ∧ Follows s roles c op := by
  obtain ⟨point, outer, ht, ha, hp, hdue⟩ := h
  have hs : roles outer = .shield op := ho.sound.assigned.fits hdue
  have hrest := (ho.placed (place?_of_get? ht)).rest
  rw [(Stage.exists_of_attends ha).1] at hrest
  obtain ⟨q, op', hon, hq, hop⟩ := hrest
  cases hon
  rw [hs] at hq
  cases hq
  refine ⟨hop, .waiting ht ha hs fun hout => ?_⟩
  rw [outcome?_of_isPending hp] at hout
  cases hout

namespace Follows

/-- The call has its turn: it goes on with the engine, or ends with the fault of the boot. -/
theorem serve (hb : Booting s roles s.gripAt) (hop : roles op = .operation .boot)
    (ht : HasTurn s roles w m turn)
    (hst : Step s roles mv { m.service with loop := Program.conclude w.task turn m.service.loop } m.roles)
    (hget : s.loop.tasks.get? w.task = some { point, restsOn := some outer })
    (ha : point.attends = true)
    (ho : ∀ {o}, s.loop.outcome? outer = some o → s.loop.outcome? op = some o) :
    Follows { m.service with loop := Program.conclude w.task turn m.service.loop } m.roles w.task op := by
  obtain ⟨task, given, hget', hpoint, _, hgives, hmet⟩ := ht.woken
  cases hget'.symm.trans hget
  rw [Program.met_of_not_marked rfl] at hmet
  obtain ⟨o, hout, rfl⟩ := hgives
  have hend := ho hout
  rcases hb.ended hop hend with ⟨⟨v, rfl⟩, _⟩ | ⟨f, rfl, hf⟩
  · exact .booted (hst.outcome?_of_some hend)
  · have hturn : turn = .finish (.error f) := by
      have hres := congrArg Prod.fst ht.resumed
      rw [← hpoint, hmet] at hres
      exact hres.symm.trans ((Stage.exists_of_attends ha).2.2 f w.before)
    subst hturn
    refine .failed (hst.outcome?_of_some hend) ?_
    have hfin := outcome?_finish ht.inTurn.unfinished.2 (.error f)
    rw [hfin]
    simp [Program.ended, hf]

/-- **A call that is not cancelled follows the boot that it attends.** -/
theorem step (h : Follows s roles c op) (hb : Booting s roles s.gripAt)
    (hop : roles op = .operation .boot) (ho : AtRest s roles) (hst : Step s roles mv s' roles')
    (hsp : SparesOperations s mv) (hc : ¬ s.Cancels c mv) : Follows s' roles' c op := by
  rcases h with ⟨ht, ha, hs, hout⟩ | ⟨hop, hc⟩ | hop
  case failed => exact .failed (hst.outcome?_of_some hop) (hst.outcome?_of_some hc)
  case booted => exact .booted (hst.outcome?_of_some hop)
  rename_i point outer
  obtain ⟨ho', hext⟩ := ho.step hst
  have hplace := place?_of_get? ht
  have hs' := hext.eq hs (by simp)
  rcases hst.stays_or_turn ho hplace with hstays | ⟨w, m, turn, hturn, rfl, _, rfl, rfl⟩
  · obtain ⟨⟨point', on, marked⟩, hget, hpoint, hon⟩ := place?_eq_some_iff.1 hstays
    obtain ⟨rfl, rfl⟩ : point' = point ∧ on = some outer := ⟨hpoint, hon⟩
    have hunmarked : marked = false := by
      rcases hst.task_cases ho hget with ⟨before, hbefore, _, hmark⟩ | ⟨hm, _⟩
      · cases hbefore.symm.trans ht
        by_contra hne
        exact hc ((hmark (by simpa using hne)).resolve_left (by simp) hsp).2
      · exact hm
    subst hunmarked
    refine .waiting hget ha hs' fun hout' => hst.outcome?_of_some ?_
    rcases hst.outcome?_cases ho (by rw [hs']; rfl) hout' with hold | hset
    · exact hout hold
    · rcases hset with (⟨hr, hq⟩ | ⟨hr, _⟩ | ⟨hr, _, _⟩ | ⟨hr, _⟩ | ⟨hm, _⟩) | ⟨hr, _⟩ | ⟨hr, _⟩ |
        ⟨hrests, hcalled, _⟩
      case errand.relayed =>
        cases hs'.symm.trans hr
        exact hq
      case errand.delivered =>
        obtain ⟨job, hj⟩ := ho.sound.assigned.delivered hm
        cases hs.symm.trans hj
      case cancelled => exact absurd (ho.place?_alone hrests hplace ▸ (hcalled hsp).2) hc
      all_goals cases hs'.symm.trans hr
  · exact serve hb hop hturn hst ht ha hout

/-- The fault of the boot has reached the call, or it is on its way. -/
theorem receives (h : Follows s roles c op) (hb : Booting s roles s.gripAt)
    (hop : roles op = .operation .boot) (ho : AtRest s roles) : s.Receives c op := by
  intro f hf
  have hkind : f.kind = .boot := by
    rcases hb.ended hop hf with ⟨⟨v, he⟩, _⟩ | ⟨g, he, hg⟩
    · cases he
    · cases he
      exact hg
  refine ⟨hkind, ?_⟩
  rcases h with @⟨point, outer, ht, ha, hs, hout⟩ | ⟨hop', hc⟩ | hop'
  · refine .inr ⟨ho.sound.isPending ht, outer, ?_⟩
    have hlt : outer < s.loop.promises.size := ho.sound.assigned.lt_size (by simp [hs])
    rcases isPending_or_settled hlt with hopen | ⟨o', hend'⟩
    · refine .inl ((ho.sound.assigned.relayed hs hopen).resolve_left fun hsub => ?_)
      have hp := hsub.isPending
      rw [isPending_of_outcome? hf] at hp
      cases hp
    · refine .inr ((ho.sound.tended.resting (by simp) ht rfl).2.resolve_left fun hsub => ?_)
      have hp := hsub.isPending
      rw [isPending_of_outcome? hend'] at hp
      cases hp
  · rw [hop'] at hf
    cases hf
    exact .inl hc
  · rw [hop'] at hf
    cases hf

end Follows

/-! ## Going on -/

/-- **A call that waits for the boot goes on, or ends well, only if the engine is ready.** -/
theorem Engined.ready_of_goes (h : Engined s roles) (ho : AtRest s roles) (hst : Step s roles mv s' roles')
    (hp : s.loop.place? c = some (point, on)) (ha : point.attends = true)
    (hgo : (∃ r, s'.loop.outcome? c = some (.value r)) ∨
      ∃ point' on', s'.loop.place? c = some (point', on') ∧ (point', on') ≠ (point, on)) :
    s'.phase = .ready := by
  rcases hst.stays_or_turn ho hp with hp' | ⟨w, m, turn, ht, rfl, rfl, rfl, rfl⟩
  · rcases hgo with ⟨r, hr⟩ | ⟨point', on', hplace, hne⟩
    · rw [outcome?_of_isPending ((ho.step hst).1.isPending_of_place? hp')] at hr
      cases hr
    · exact absurd (Option.some.inj (hplace.symm.trans hp')) hne
  · cases hg : w.given with
    | ok r =>
      have hready := h.booting.ready_of_given ht (Stage.exists_of_attends ha).1 hg
      exact (EngineKept.of_hasTurn h.booting ht (h.bootsWell ht) hready).phase
    | error f =>
      have hturn : turn = .finish (.error f) := by
        have hres := congrArg Prod.fst ht.resumed
        rw [hg] at hres
        exact hres.symm.trans ((Stage.exists_of_attends ha).2.2 f w.before)
      subst hturn
      have hfin := outcome?_finish ht.inTurn.unfinished.2 (.error f)
      rcases hgo with ⟨r, hr⟩ | ⟨point', on', hplace, _⟩
      · cases Program.ended_eq_value.1 (Option.some.inj (hfin.symm.trans hr))
      · have hpend := (ho.step hst).1.isPending_of_place? hplace
        rw [isPending_of_outcome? hfin] at hpend
        cases hpend

end Service

end SourceTrees
