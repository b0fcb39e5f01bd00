import SourceTrees.Proofs.Service.Asking
import SourceTrees.Proofs.Service.Prompt

/-!
# How a call for a language fails

A call for a grammar, for a parser or for a parse may be refused, or it fails because the engine cannot be
booted, the grammar not be loaded, the parser not be made, or the source not be parsed.  What is kept of the
work that has been done depends on how far the call has come.

## Protocol

* The service is **idle** if no task is unfinished and no flight maps to an operation.
* Old errands and old jobs may be left over, and are worked off meanwhile.

## Results

* `Service.Refuses` — the call is refused; `Service.asks_or_refused` — otherwise it asks for its language.
* `Service.Untouched` — nothing has been done but to work off what was left over.
* `Service.FailsSafely` — how a call that has failed leaves the service;
  `Service.FailsSafely.aside` — what happens between turns leaves it so.
-/

set_option autoImplicit false

namespace SourceTrees

open Loop

/-- The language that the call asks for, if it asks for a grammar, a parser or a parse. -/
def Call.asked? : Call → Option Json
  | .load language | .getParser language | .parse _ language => some language
  | _ => none

namespace Service

variable {S s s' : Service} {roles roles' : Roles Hook Job} {mv : Service.Move} {call : Call} {name : String}
  {language : Json} {f : Fault}

/-! ## Calls that are refused -/

/-- The call is refused with the fault: the language has no locator, or the code is neither text nor
    bytes. -/
inductive Refuses (s : Service) : Call → Fault → Prop
  | language {call : Call} {language : Json} {f : Fault} (hcall : call.asked? = some language)
      (hv : s.validate language = .error f) : Refuses s call f
  | code {name : String} {v : Json} {language : Json} (hv : s.validate language = .ok name) :
      Refuses s (.parse (.other v) language) (.notSource v)

theorem Refuses.congr (h : Refuses s call f) (hc : s'.config = s.config) : Refuses s' call f := by
  have hv : ∀ {language x}, s.validate language = x → s'.validate language = x := fun h =>
    (Foreknown.validate_congr hc _).trans h
  cases h with
  | language hcall h => exact .language hcall (hv h)
  | code h => exact .code (hv h)

/-- A call that asks for its language is not refused. -/
theorem Asks.not_refused (h : Asks s name call) : ¬ Refuses s call f := by
  intro hr
  have hv : ∀ {l}, s.validate (.str name) = .ok name → call.asked? = some l → l = .str name →
      s.validate l ≠ .error f := by
    rintro l hv - rfl he
    cases hv.symm.trans he
  cases hr with
  | language hcall he =>
    cases h with
    | load h => exact hv h hcall (by cases hcall; rfl) he
    | getParser h => exact hv h hcall (by cases hcall; rfl) he
    | parse h hc => exact hv h hcall (by cases hcall; rfl) he
  | code he =>
    cases h with
    | parse h hc => cases hc

/-- A call for a language asks for it, or is refused and does nothing. -/
theorem asks_or_refused (hcall : call.asked? = some language) (s : Service) :
    (∃ name, Asks s name call) ∨ ∃ f, Refuses s call f ∧
      ∀ r, Calls.resume (.start call) (.ok r) s = (.finish (.error f), s) := by
  cases hv : s.validate language with
  | error f =>
    refine .inr ⟨f, .language hcall hv, fun r => ?_⟩
    cases call with
    | load l =>
      cases hcall
      show (do Calls.replying (← Grammars.request language) .grammar .grammar : Work (Turn Stage Reply)) s = _
      simp only [Grammars.request, Work.run_bind, Work.run_get, hv]
      rfl
    | getParser l =>
      cases hcall
      show (do Work.andThen (← Pool.request language) .parser Calls.parserReply :
        Work (Turn Stage Reply)) s = _
      simp only [Pool.request, Work.run_bind, Work.run_get, hv]
      rfl
    | parse code l =>
      cases hcall
      rw [startParse_eq, request_refused (.inl hv)]
      rfl
    | _ => cases hcall
  | ok name =>
    obtain rfl := validate_eq_ok hv
    cases call with
    | load l =>
      cases hcall
      exact .inl ⟨name, .load hv⟩
    | getParser l =>
      cases hcall
      exact .inl ⟨name, .getParser hv⟩
    | parse code l =>
      cases hcall
      cases hc : code.toSource with
      | ok source => exact .inl ⟨name, .parse hv hc⟩
      | error f =>
        cases code with
        | other v =>
          cases hc
          refine .inr ⟨_, .code hv, fun r => ?_⟩
          rw [startParse_eq, request_refused (.inr ⟨⟨name, hv⟩, rfl⟩)]
          rfl
        | _ => cases hc
    | _ => cases hcall

/-! ## What is left alone -/

/-- Only tasks of the kind are unfinished. -/
def AtWork (s : Service) (X : PromiseId → Prop) : Prop :=
  ∀ t point on, s.loop.place? t = some (point, on) → X t

/-- No call is in progress, and no operation in flight. -/
structure Idle (s : Service) : Prop where
  calls : s.AtWork fun _ => False
  flights : ∀ k op, ¬ s.Maps k op

/-- A service without tasks and without entries in its flights is idle. -/
theorem Idle.of_isEmpty (ht : s.loop.tasks.entries.isEmpty = true)
    (hb : s.bootFlight.entries.entries.isEmpty = true)
    (hg : s.grammarFlight.entries.entries.isEmpty = true) : s.Idle := by
  have hnone : ∀ {κ ν : Type} [DecidableEq κ] {t : Keyed κ ν} {k : κ} {v : ν}, t.entries.isEmpty = true →
      t.get? k ≠ some v := by
    intro κ ν _ t k v he hv
    have hmem := Keyed.mem_of_lookIn hv
    rw [List.isEmpty_iff.1 he] at hmem
    cases hmem
  refine ⟨fun t point on hp => ?_, fun k op hm => ?_⟩
  · obtain ⟨task, hget, -⟩ := place?_eq_some_iff.1 hp
    exact hnone ht hget
  · cases k with
    | boot => exact hnone hb hm
    | grammar language => exact hnone hg hm

/-- Old errands and jobs may have been worked off since; otherwise the service is as it was, to the last
    counter, and no job has been handed in. -/
structure Untouched (S s : Service) : Prop where
  same : s = { S with
    loop := s.loop
    world := s.world
    workers := { S.workers with queue := s.workers.queue } }
  queue : s.workers.queue.Sublist S.workers.queue
  world : s.workers.queue = S.workers.queue → s.world = S.world

namespace Untouched

theorem refl (s : Service) : Untouched s s := ⟨rfl, .refl _, fun _ => rfl⟩

theorem withLoop (h : Untouched S s) (l : Loop Reply Stage Hook) : Untouched S { s with loop := l } where
  same := by
    have hs := h.same
    generalize s.world = world, s.workers.queue = queue, s.loop = loop at hs
    subst hs
    rfl
  queue := h.queue
  world := h.world

/-- What happens between turns works off old errands and jobs only. -/
theorem aside (h : Untouched S s) (hst : Step s roles mv s' roles') (hnone : s.turnOf? mv = none)
    (hm : ∀ k op, ¬ s.Maps k op) : Untouched S s' := by
  cases hst with
  | idle => exact h
  | carried hi hw hk => exact h.withLoop _
  | @forgotten i hook op hi =>
    have hforget : ∀ {κ : Type} [DecidableEq κ] {f : Flight κ} {key : κ}, f.entries.get? key ≠ some op →
        f.forget key op = f := fun h => by rw [Flight.forget, if_neg h]
    cases hook with
    | boot =>
      have he : Calls.react .boot op { s with loop := s.loop.pick i } = { s with loop := s.loop.pick i } := by
        show ({ s with loop := s.loop.pick i, bootFlight := s.bootFlight.forget () op } : Service) = _
        rw [hforget (hm .boot op)]
      rw [he]
      exact h.withLoop _
    | grammar language =>
      have he : Calls.react (.grammar language) op { s with loop := s.loop.pick i } =
          { s with loop := s.loop.pick i } := by
        show ({ s with
          loop := s.loop.pick i
          grammarFlight := s.grammarFlight.forget language op } : Service) = _
        rw [hforget (hm (.grammar language) op)]
      rw [he]
      exact h.withLoop _
  | expired => exact h.withLoop _
  | clocked time => exact h.withLoop _
  | spawned call => exact h.withLoop _
  | @workedOff position i k hi =>
    rw [Work.workOff_eq hi]
    refine ⟨?_, (List.eraseIdx_sublist ..).trans h.queue, fun he => ?_⟩
    · have hs := h.same
      generalize s.world = world, s.workers.queue = queue, s.loop = loop at hs
      subst hs
      rfl
    · -- A queue that has lost a job is not the old one.
      have hlt := (List.getElem?_eq_some_iff.1 hi).1
      have hle := h.queue.length_le
      have hlen := congrArg List.length he
      rw [List.length_eraseIdx_of_lt hlt] at hlen
      omega
  | cancelled t ha => exact h.withLoop _
  | leaseEnded hg fault => exact h.withLoop _
  | turn hwakes hsts hres hend => cases hnone.symm.trans (turnOf?_of_wakes hwakes)

end Untouched

/-! ## How a call fails -/

/-- How the service is left by a call that has failed. -/
inductive FailsSafely (S s : Service) (call : Call) : Fault → Prop
  | refused {f : Fault} (h : Refuses S call f) (hs : Untouched S s) : FailsSafely S s call f
  | unbooted {f : Fault} (hf : f.kind = .boot) (hphase : s.phase = .uninitialized)
      (hgrammars : s.grammars = S.grammars) (hpool : s.pool = S.pool) : FailsSafely S s call f
  | unloaded {name locator : String} {cause : Fault} (hcall : call.asked? = some (.str name))
      (hphase : s.phase = .ready) (hgrammars : s.grammars = S.grammars) (hpool : s.pool = S.pool) :
      FailsSafely S s call (.unloadable name locator cause)
  | unbound {name : String} {locator : Option String} {cause : Fault}
      (hcall : call.asked? = some (.str name)) (hkept : ∃ g, Grammars.kept? s name = some g)
      (hpool : s.pool = S.pool) : FailsSafely S s call (.unbindable name locator cause)
  | unparsed {name : String} {pooled : Pooled} {f : Fault} (hf : f.kind = .parse)
      (hcall : call.asked? = some (.str name)) (hp : s.pool.get? name = some pooled)
      (hfree : pooled.lock.held = false)
      (hsame : ∀ parser, S.parser? name = some parser → pooled.parser = parser) : FailsSafely S s call f

namespace FailsSafely

/-- What happens between turns leaves the service so. -/
theorem aside (h : FailsSafely S s call f) (ha : Aside s roles s' roles') (hst : Step s roles mv s' roles')
    (hnone : s.turnOf? mv = none) (hm : ∀ k op, ¬ s.Maps k op) : FailsSafely S s' call f := by
  cases h with
  | refused h hs => exact .refused h (hs.aside hst hnone hm)
  | unbooted hf hphase hgrammars hpool =>
    exact .unbooted hf (ha.phase.trans hphase) (ha.grammars.trans hgrammars) (ha.pool.trans hpool)
  | unloaded hcall hphase hgrammars hpool =>
    exact .unloaded hcall (ha.phase.trans hphase) (ha.grammars.trans hgrammars) (ha.pool.trans hpool)
  | unbound hcall hkept hpool =>
    refine .unbound hcall ?_ (ha.pool.trans hpool)
    rw [Grammars.kept?, ha.grammars]
    exact hkept
  | unparsed hf hcall hp hfree hsame => exact .unparsed hf hcall (ha.pool ▸ hp) hfree hsame

end FailsSafely

end Service

end SourceTrees
