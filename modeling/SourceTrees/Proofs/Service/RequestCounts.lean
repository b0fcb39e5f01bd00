import SourceTrees.Proofs.Service.CallStages

/-!
# When requests are counted

Every request for a pooled parser is counted as it is started, as one that finds its parser in the pool or
as one that does not, if its language is supported; it is counted no more, however it goes on.

## Protocol

* A task **asks** in the turn in which its request starts: for a parser or a lease at its first turn, and a
  parse as soon as the engine is ready.

## Results

* `Calls.asked_resume` — what the turn of a task counts.
* `Service.requests` — how many requests a run has started.
* **`Service.asked_moves`** — so many have been counted.
-/

set_option autoImplicit false

namespace SourceTrees

open Loop Service Work

variable {s : Service} {α β : Type}

/-- The requests to the pool that have been counted. -/
def Service.asked (s : Service) : Nat := s.counts.parsers.hits + s.counts.parsers.misses

/-- No request to the pool has been counted. -/
abbrev Service.SameAsked (s s' : Service) : Prop := s'.asked = s.asked

instance : IsPreorder Service SameAsked where
  refl _ := rfl
  trans _ _ _ h h' := h'.trans h

/-! ## Which turns ask -/

/-- A parse asks for its lease at once if the engine is ready and the code can be parsed. -/
def Parsing.asksAtOnce (s : Service) (code : Code) : Bool := s.phase = .ready && code.toSource.isOk

/-- The language for whose parser the call asks in its first turn. -/
def Call.request? (s : Service) (call : Call) : Option Json :=
  match call with
  | getParser language | lease _ language => some language
  | _ => ((call.source? s).filter fun source => Parsing.asksAtOnce s source.1).map (·.2)

/-- The language for whose parser the task asks in its turn. -/
def Service.Woken.request? (w : Woken) : Option Json :=
  match w.stage, w.given with
  | .start call, .ok _ => call.request? w.before
  | .parse _ (.booting language _), .ok _ => some (.str language)
  | _, _ => none

/-- The task asks for the parser of a supported language in its turn. -/
def Service.Woken.asks (w : Woken) : Bool := w.request?.any w.before.isSupported

/-! ## What turns count -/

/-- What is counted first is all that is counted. -/
theorem Work.asked_bind {f : Work α} {g : α → Work β} {n : Nat} (hf : (f s).2.asked = s.asked + n)
    (hg : ∀ a, Within SameAsked (g a)) : ((f >>= g) s).2.asked = s.asked + n :=
  (hg (f s).1 (f s).2).trans hf

namespace Pool

/-- Requests are counted as they start only. -/
theorem keptWithin_sameAsked : KeptWithin SameAsked :=
  keptWithin_of_touched (fun h => by simp only [SameAsked, asked, h.parsers])
    fun h => by simp only [SameAsked, asked, h.hits, h.misses]

/-- Nothing that is done far from the parsers is counted among the requests. -/
theorem sameAsked_of_afar {s s' : Service} (h : Afar s s') : SameAsked s s' := by
  show s'.counts.parsers.hits + s'.counts.parsers.misses = s.asked
  rw [h.parsers]
  rfl

theorem validate_isSupported (s : Service) (language : Json) :
    (∃ name, s.validate language = .ok name ∧ s.isSupported language = true) ∨
      (∃ f, s.validate language = .error f) ∧ s.isSupported language = false := by
  cases language with
  | str name =>
    simp only [validate, isSupported]
    cases s.config.hasLocator name with
    | true => exact .inl ⟨name, rfl, rfl⟩
    | false => exact .inr ⟨⟨_, rfl⟩, rfl⟩
  | _ => exact .inr ⟨⟨_, rfl⟩, rfl⟩

/-- A request for a supported language is counted. -/
theorem asked_request (language : Json) (s : Service) :
    (request language s).2.asked = s.asked + (s.isSupported language).toNat := by
  unfold request
  rw [run_bind, run_get]
  rcases validate_isSupported s language with ⟨name, hv, hsup⟩ | ⟨⟨f, hv⟩, hsup⟩ <;> rw [hsup, hv]
  · dsimp only
    cases s.pool.contains name with
    | true => exact Nat.add_right_comm ..
    | false =>
      refine asked_bind (f := count _) rfl fun _ => ?_
      exact .bind (keptWithin_sameAsked.of_remote (Grammars.remote_request language)) fun _ =>
        .andThen (keptWithin_sameAsked.grammarCame name)
  · rfl

theorem asked_lease (language : Json) (s : Service) :
    (lease language s).2.asked = s.asked + (s.isSupported language).toNat :=
  asked_bind (asked_request language s) fun _ => .andThen keptWithin_sameAsked.acquire

end Pool

namespace Parsing

open Pool

theorem asked_borrow (name : String) (source : List UInt8) (s : Service) :
    (borrow name source s).2.asked = s.asked + (s.isSupported (.str name)).toNat := by
  rw [borrow, run_bind, run_get]
  exact asked_bind (asked_lease (.str name) s) fun _ =>
    .andThen (keptWithin_sameAsked.leased name source s.parseCrew)

/-- A parse asks for its lease once it has found that it can go on. -/
theorem asked_request (code : Code) (language : Json) (s : Service) :
    (request code language s).2.asked =
      s.asked + (asksAtOnce s code && s.isSupported language).toNat := by
  rcases validate_isSupported s language with ⟨name, hv, hsup⟩ | ⟨⟨f, hv⟩, hsup⟩
  · obtain rfl := validate_eq_ok hv
    cases hc : code.toSource with
    | error f =>
      rw [request_refused (.inr ⟨⟨name, hv⟩, hc⟩), asksAtOnce, hc]
      simp [Except.isOk, Except.toBool]
    | ok source =>
      simp only [request, run_bind, run_get, hv, hc, attach_boot_eq, asksAtOnce, hsup]
      split
      · rename_i hready
        rw [asked_borrow, hsup, hready]
        rfl
      · rename_i hready
        simp only [hready]
        rfl
  · rw [request_refused (.inl hv), hsup, Bool.and_false]
    rfl

end Parsing

namespace Tools

open Pool

/-- A parse for some use counts the requests that the parse itself counts. -/
theorem asked_used (use : ParseUse) {f : Work (Turn ParseStage Tree)} {n : Nat}
    (h : (f s).2.asked = s.asked + n) :
    ((do
      let turn ← f
      andThen (← andThen turn id (finish use)) (.parse use) (fun r => return .finish r) :
        Work (Turn Stage Reply)) s).2.asked = s.asked + n :=
  asked_bind h fun _ => .bind (.andThen fun r => keptWithin_sameAsked.of_remote (remote_finish use r)) fun _ =>
    .andThen fun _ => .pure _

end Tools

namespace Calls

open Pool

/-- A call counts the request that it starts in its first turn. -/
theorem asked_start (call : Call) (s : Service) :
    (start call s).2.asked = s.asked + ((call.request? s).any s.isSupported).toNat := by
  cases hparses : call.parses with
  | true =>
    have hrequest : call.request? s =
        ((call.source? s).filter fun source => Parsing.asksAtOnce s source.1).map (·.2) := by
      cases call <;> first | rfl | cases hparses
    rw [hrequest]
    rcases start_parses hparses s with ⟨use, code, language, hsource, he⟩ | ⟨hsource, r, skipped, he⟩
    · rw [he, hsource, Tools.parse, Tools.asked_used use (Parsing.asked_request code language s)]
      cases hat : Parsing.asksAtOnce s code <;> simp [Option.filter, hat]
    · rw [he, hsource]
      rfl
  | false =>
    cases hasks : call.asksParser with
    | false =>
      have hrequest : call.request? s = none := by
        cases call <;> first | rfl | cases hasks
      rw [hrequest]
      exact sameAsked_of_afar (afar_start hasks s)
    | true =>
      cases call with
      | getParser language =>
        rw [start, run_bind, run_get]
        exact asked_bind (asked_request language s) fun _ =>
          .andThen fun r => keptWithin_sameAsked.of_remote (remote_parserReply r)
      | lease holder language =>
        rw [start, run_bind, run_get]
        exact asked_bind (asked_lease language s) fun _ =>
          .andThen fun r => keptWithin_sameAsked.of_remote (remote_hold _ _ r)
      | parse | parseFile | snippetTool | fileTool => cases hparses
      | _ => cases hasks

/-- **A turn counts the request that the task starts in it**, if the language is supported, and no other. -/
theorem asked_resume (w : Woken) :
    (resume w.stage w.given w.before).2.asked = w.before.asked + w.asks.toNat := by
  obtain ⟨task, stage, given, s⟩ := w
  cases stage with
  | start call =>
    cases given with
    | ok r => exact asked_start call s
    | error f => rfl
  | parse use point =>
    cases point with
    | booting language source =>
      cases given with
      | ok r => exact Tools.asked_used use (Parsing.asked_borrow language source s)
      | error f => exact Tools.asked_used use rfl
    | _ =>
      refine Tools.asked_used use (Parsing.within_further keptWithin_sameAsked ?_ _ (by simp) given s)
      intro f hf s
      show (f s.counts).parsers.hits + (f s.counts).parsers.misses = s.asked
      rw [hf]
      rfl
  | parser point =>
    exact asked_bind (keptWithin_sameAsked.resume point given s) fun _ =>
      .andThen fun r => keptWithin_sameAsked.of_remote (remote_parserReply r)
  | lease holder point =>
    exact asked_bind (keptWithin_sameAsked.resumeLease point given s) fun _ =>
      .andThen fun r => keptWithin_sameAsked.of_remote (remote_hold _ _ r)
  | holding language parser =>
    exact asked_bind (keptWithin_sameAsked.release language s) fun _ => .pure _
  | _ => exact sameAsked_of_afar (afar_resume rfl given s)

end Calls

/-! ## Runs -/

namespace Service

/-- How many requests for pooled parsers of supported languages the run starts. -/
def requests : Service → List Service.Move → Nat
  | _, [] => 0
  | s, mv :: ms => ((s.turnOf? mv).any Woken.asks).toNat + requests (s.move mv) ms

theorem Step.asked {s' : Service} {roles roles' : Roles Hook Job} {mv : Service.Move} (ho : AtRest s roles)
    (hst : Step s roles mv s' roles') : s'.asked = s.asked + ((s.turnOf? mv).any Woken.asks).toNat := by
  rcases hst.aside_or_given ho with ⟨hnone, ha⟩ | ⟨w, m, turn, hgiven, ht, rfl, -⟩
  · rw [hnone, Service.asked, ha.counts]
    rfl
  · rw [hgiven]
    obtain ⟨i, hb⟩ := ht.before
    have hturn := Calls.asked_resume w
    rw [ht.resumed, hb] at hturn
    exact hturn

/-- **Every request that a run starts is counted once.** -/
theorem asked_moves (ms : List Service.Move) : ∀ {s : Service} {roles : Roles Hook Job}, AtRest s roles →
    (s.moves ms).asked = s.asked + requests s ms := by
  induction ms with
  | nil => exact fun _ => rfl
  | cons mv ms ih =>
    intro s roles ho
    obtain ⟨roles', hst⟩ := exists_step ho mv
    show ((s.move mv).moves ms).asked = _
    rw [ih (ho.step hst).1, hst.asked ho, requests, Nat.add_assoc]

end Service

end SourceTrees
