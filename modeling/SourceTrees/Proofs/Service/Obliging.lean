import SourceTrees.Proofs.Engine.Answering
import SourceTrees.Proofs.Service.Prompt
import SourceTrees.Proofs.Service.Regular

/-!
# Worlds that oblige a call

In some worlds every step goes well that a call needs: the engine is loaded, the grammar of its language is
fetched, parsers can be made, and the source is parsed.  From the time on at which the world has come to be
such a one, the jobs of the call end well; jobs that have been handed in before may have failed.

## Protocol

* Promises are numbered as they are made, so that the jobs that are handed in from a time on are those from
  a number on.

## Results

* `Obliging` — the worlds of the kind oblige the call.
* `Job.GoesWell` — how a job ends that the call needs.
* **`Service.Favoured.step`** — in such worlds every step that cancels nobody keeps that the jobs since
  end well.
-/

set_option autoImplicit false

namespace SourceTrees

open Loop

/-- The worlds of the kind oblige a call for the language, and what is done in them leads to no others. -/
structure Obliging (c : Config) (name : String) (call : Call) (P : World → Prop) : Prop where
  kept : ∃ F G, Attempt.KeptByWork F G P
  raises : ∀ {w}, P w → w.RaisesWell
  fetches : ∀ {w}, P w → w.FetchesWell
  boot : ∀ {w}, P w → ∃ x, ((Attempt.loadEngine c.engineModule).run w).1 = .ok x
  fetch : ∀ {w}, P w → ∃ g, ((Attempt.fetchGrammar c.engineModule (c.locator name)).run w).1 = .ok g
  bind : ∀ {w}, P w → ∀ g, ∃ parser, ((Attempt.bindParser c.engineModule g).run w).1 = .ok parser
  parse : ∀ {w}, P w → ∀ {code source}, call = .parse code (.str name) → code.toSource = .ok source →
    ∀ parser, ∃ root, ((Attempt.parse parser source).run w).1 = .ok (some root)

/-- The job ends well, if the call needs it. -/
def Job.GoesWell (c : Config) (name : String) (call : Call) : Job → Except Fault Reply → Prop
  | boot engine, x => engine = c.engineModule → ∃ r, x = .ok r
  | grammar engine locator, x => engine = c.engineModule → locator = c.locator name → ∃ r, x = .ok r
  | parse _ source, x => (∃ code, call = .parse code (.str name) ∧ code.toSource = .ok source) →
      ∃ root, x = .ok (.engineTree (some root))
  | copy .., _ => True

variable {c : Config} {name : String} {call : Call} {P : World → Prop}

/-- Jobs that are done in worlds that oblige the call end well. -/
theorem Obliging.sure (h : Obliging c name call P) :
    Service.Sure P fun _ => Job.GoesWell c name call where
  kept := h.kept
  lasting _ := id
  run job w hw := by
    cases job with
    | boot engine =>
      rintro rfl
      obtain ⟨x, hx⟩ := h.boot hw
      exact ⟨_, congrArg (Work.reply fun _ => .engine c.engineModule) hx⟩
    | grammar engine locator =>
      rintro rfl rfl
      obtain ⟨g, hg⟩ := h.fetch hw
      exact ⟨_, congrArg (Work.reply .grammar) hg⟩
    | parse parser source =>
      rintro ⟨code, hcall, hcode⟩
      obtain ⟨root, hroot⟩ := h.parse hw hcall hcode parser
      exact ⟨root, congrArg (Work.reply .engineTree) hroot⟩
    | copy language source root => trivial

namespace Attempt

variable {α β : Type} {a : Attempt α} {Q : α → World → Prop} {x : Except Fault β} {w : World}

/-- If a table says how an attempt ends, and it ends well, the table says so. -/
theorem Meets.told (h : Meets P a Q fun f _ => x = .error f) (hQ : ∀ {y w}, Q y w → ∃ z, x = .ok z) (hw : P w)
    (hok : ∃ y, (a.run w).1 = .ok y) : ∃ z, x = .ok z := by
  obtain ⟨y, hy⟩ := hok
  have hended := h w hw
  unfold Ended at hended
  generalize a.run w = r at *
  obtain ⟨_, _⟩ := r
  cases hy
  exact hQ hended

/-- If the table says that it ends well, it does so. -/
theorem Meets.ok {z : β} (h : Meets P a Q fun f _ => x = .error f) (hx : x = .ok z) (hw : P w) :
    ∃ y, (a.run w).1 = .ok y := by
  have hended := h w hw
  unfold Ended at hended
  generalize a.run w = r at *
  obtain ⟨y | f, w'⟩ := r
  · cases hx.symm.trans hended
  · exact ⟨_, rfl⟩

end Attempt

/-- In a fixed world in which every step goes well, the worlds that answer as it does oblige the call. -/
theorem World.Fixed.obliging {w : World} (h : w.Fixed c)
    (hboot : ∃ x, ((Attempt.loadEngine c.engineModule).run w).1 = .ok x)
    (hfetch : ∃ g, ((Attempt.fetchGrammar c.engineModule (c.locator name)).run w).1 = .ok g)
    (hbind : ∃ parser, ((Attempt.bindParser c.engineModule (some 1)).run w).1 = .ok parser)
    (hparse : ∀ {code source}, call = .parse code (.str name) → code.toSource = .ok source →
      ∀ script, w.parses.get? source = some script → ∃ root, (script.next .none).1 = .tree root) :
    ∃ P, P w ∧ Obliging c name call P := by
  obtain ⟨A, P, hw, hA, hAparse⟩ := h.answering
  obtain ⟨_, hboot⟩ := hA.boot.told (fun h => ⟨_, h⟩) hw hboot
  obtain ⟨_, hfetch⟩ := (hA.fetch name).told (fun ⟨_, _, _, h, _⟩ => ⟨_, h⟩) hw hfetch
  obtain ⟨_, hbind⟩ := (hA.bind (some 1)).told (fun h => ⟨_, h⟩) hw hbind
  refine ⟨P, hw, hA.kept, hA.raises, hA.fetches, hA.boot.ok hboot, (hA.fetch name).ok hfetch,
    fun hw' g => (hA.bind g).ok hbind hw', fun {w'} hw' {code source} hcall hcode parser => ?_⟩
  rw [hA.parse hw', hAparse]
  unfold Attempt.parsing
  cases hs : w.parses.get? source with
  | none => exact ⟨_, rfl⟩
  | some script =>
    obtain ⟨root, hroot⟩ := hparse hcall hcode script hs
    simp only [hroot]
    exact ⟨root, rfl⟩

namespace Service

variable {s s' : Service} {roles roles' : Roles Hook Job} {w : Woken} {m : Midst} {mv : Service.Move}
  {n p : PromiseId} {turn : Turn Stage Reply} {stage : Stage}

/-- Every step keeps the names of engines. -/
theorem Named.step (h : Named s roles) (ho : AtRest s roles) (hst : Step s roles mv s' roles') :
    Named s' roles' := by
  rcases hst.aside_or_turn ho with ha | ⟨w, m, turn, ht, rfl, rfl⟩
  · refine ⟨fun {e} he => ?_, fun hp => ?_⟩
    · rw [ha.config]
      exact h.engine (ha.engine ▸ he)
    · rw [ha.config]
      exact h.fetch (ha.role hp (by simp))
  · obtain ⟨i, hb⟩ := ht.before
    have hbefore : Named w.before roles := by
      rw [hb]
      exact ⟨h.engine, h.fetch⟩
    obtain ⟨hengine, hfetch⟩ := Strides.named ht.strides hbefore
    exact ⟨hengine, hfetch⟩

/-- The world obliges the call, and the jobs end well that have been handed in from a time on. -/
structure Favoured (P : World → Prop) (c : Config) (name : String) (call : Call) (n : PromiseId)
    (s : Service) (roles : Roles Hook Job) : Prop where
  config : s.config = c
  world : P s.world
  named : Named s roles
  delivered : ∀ {p x job}, n ≤ p → .deliver p x ∈ s.loop.agenda → roles p = .job job →
    job.GoesWell c name call x
  settled : ∀ {p o job}, n ≤ p → roles p = .job job → s.loop.outcome? p = some o →
    ∃ x, job.GoesWell c name call x ∧ o = .ofResult x

/-- A step that cancels nobody settles a job with what is delivered. -/
theorem Step.outcome?_job (ho : AtRest s roles) (hst : Step s roles mv s' roles')
    (hsp : SparesOperations s mv) (hspared : ∀ p, ¬ s.Cancels p mv) {job : Job} (hp : roles' p = .job job)
    {o : Settled Reply} (hout : s'.loop.outcome? p = some o) :
    s.loop.outcome? p = some o ∨ ∃ x, .deliver p x ∈ s.loop.agenda ∧ o = .ofResult x := by
  rcases hst.outcome?_cases ho (by rw [hp]; rfl) hout with hout | hset
  · exact .inl hout
  · rcases hset with (⟨hr, _⟩ | ⟨hr, _⟩ | ⟨hr, _, _⟩ | ⟨hr, _⟩ | ⟨hm, hx⟩) | ⟨hr, _⟩ | ⟨hr, _⟩ | ⟨_, hc, _⟩
    case errand.delivered => exact .inr ⟨_, hm, hx⟩
    case cancelled => exact absurd (hc hsp).2 (hspared _)
    all_goals simp [hr] at hp

namespace Favoured

/-- At first no job has been handed in. -/
theorem start (hs : Named s roles) (ho : AtRest s roles) (hc : s.config = c) (hw : P s.world) :
    Favoured P c name call s.loop.promises.size s roles where
  config := hc
  world := hw
  named := hs
  delivered hle hm _ := by
    obtain ⟨j, hj⟩ := ho.sound.assigned.delivered hm
    exact absurd (ho.sound.assigned.lt_size (by simp [hj])) (Nat.not_lt.2 hle)
  settled hle _ hout := absurd (outcome?_lt hout) (Nat.not_lt.2 hle)

/-- **Every step that cancels nobody keeps that the jobs since end well.** -/
theorem step (hP : Obliging c name call P) (h : Favoured P c name call n s roles) (ho : AtRest s roles)
    (hst : Step s roles mv s' roles') (hsp : SparesOperations s mv) (hc : ∀ p, ¬ s.Cancels p mv) :
    Favoured P c name call n s' roles' where
  config := (hst.engine_named ho).1.trans h.config
  world := by
    obtain ⟨F, G, hkept⟩ := hP.kept
    exact hst.keeps hkept h.world
  named := h.named.step ho hst
  delivered hle hm hp := hst.delivered hP.sure ho h.world (h.delivered hle) hm hp
  settled {p o job} hle hp hout := by
    rcases hst.outcome?_job ho hsp hc hp hout with hout | ⟨x, hm, rfl⟩
    · have hrole := (ho.step hst).2 p (ho.sound.assigned.role_ne_unused (outcome?_lt hout))
      exact h.settled hle (hrole.symm.trans hp) hout
    · obtain ⟨job', hj⟩ := ho.sound.assigned.delivered hm
      cases hp.symm.trans ((ho.step hst).2.eq hj (by simp))
      exact ⟨x, h.delivered hle hm hj, rfl⟩

end Favoured

end Service

end SourceTrees
