import SourceTrees.Proofs.Service.CallStages
import SourceTrees.Proofs.Service.Outcomes

/-!
# When leases are counted

A lease is counted in the turn in which it is granted.  A parse that has been granted its lease ends in one
of three ways: with a tree or with a failure, each of which is counted as it ends, or with a cancellation,
which is not.

## Protocol

* A parse is **late** once its lease has been granted: its job is at work, or is waited out, or the tree is
  being copied.
* The **books** are the leases of all pooled parsers together, and the parses that have been counted, as
  built or as failed.

## Results

* `Service.SameBooks` — nothing is entered; requests, tickets, releases and waiting keep within it.
* `Books`, `Parsing.books_resume` — what the turn of a parse enters.
* `Calls.books_resume` — what the turn of a call enters.
-/

set_option autoImplicit false

namespace SourceTrees

open Loop Service Work

variable {s s' : Service} {roles : Roles Hook Job} {α P : Type} {language : String}

theorem Program.ended_error_iff {V : Type} {f : Fault} :
    ended (.error f : Except Fault V) = .cancelled ↔ f.kind = .cancelled := by
  simp [ended]

/-! ## The books -/

namespace Service

/-- The parses that have been counted. -/
def accounted (s : Service) : Nat := s.counts.parses.built + s.counts.parses.failures

/-- Nothing has been entered into the books. -/
structure SameBooks (s s' : Service) : Prop where
  lent : s'.lent = s.lent
  accounted : s'.accounted = s.accounted

namespace SameBooks

instance : IsPreorder Service SameBooks where
  refl _ := ⟨rfl, rfl⟩
  trans _ _ _ h h' := ⟨h'.lent.trans h.lent, h'.accounted.trans h.accounted⟩

theorem trans {s'' : Service} (h : SameBooks s s') (h' : SameBooks s' s'') : SameBooks s s'' :=
  IsTrans.trans _ _ _ h h'

theorem of_parses (hp : s'.pool = s.pool) (hc : s'.counts.parses = s.counts.parses) : SameBooks s s' :=
  ⟨lent_congr hp, by simp only [Service.accounted, hc]⟩

theorem of_afar (h : Afar s s') : SameBooks s s' := .of_parses h.pool h.parses

theorem of_remote (h : Remote s s') : SameBooks s s' := of_afar h.toAfar

end SameBooks

end Service

namespace Pool

/-- Whatever leaves the leases of a parser alone enters nothing. -/
theorem sameBooks_change {f : Pooled → Pooled} (hf : ∀ p, (f p).leases = p.leases) :
    Within SameBooks (change language f) := by
  intro s
  cases hp : s.pool.get? language with
  | none =>
    rw [change_none hp]
    exact ⟨rfl, rfl⟩
  | some pooled =>
    rw [change_eq hp]
    exact ⟨lent_put 0 hp rfl (hf pooled), rfl⟩

theorem sameBooks_callNext (language : String) : Within SameBooks (callNext language) := by
  intro s
  rw [callNext_run]
  dsimp only
  split <;> exact ⟨rfl, rfl⟩

theorem sameBooks_release (language : String) : Within SameBooks (release language) :=
  .bind (sameBooks_change fun _ => rfl) fun _ => sameBooks_callNext language

/-- A parser that is made has not been lent. -/
theorem sameBooks_grammarCame (language : String) (result : Except Fault Grammar) :
    Within SameBooks (grammarCame language result) := by
  cases result with
  | error f => exact .fail f
  | ok g =>
    intro s
    cases hc : s.pool.contains language with
    | true =>
      rw [grammarCame_pooled hc]
      exact ⟨rfl, rfl⟩
    | false =>
      rw [grammarCame_new hc]
      cases he : s.engine? with
      | error f =>
        rw [create_engineless he]
        exact ⟨rfl, rfl⟩
      | ok engine =>
        cases hb : (Attempt.bindParser engine g).run s.world with
        | mk r world =>
          cases r with
          | ok parser =>
            rw [create_made he hb]
            exact ⟨lent_made hc rfl, rfl⟩
          | error f =>
            obtain ⟨log, h⟩ := @create_unbound s language _ _ _ _ he hb
            rw [h]
            exact ⟨rfl, rfl⟩

theorem madeWithin_sameBooks : MadeWithin SameBooks where
  remote := .of_remote
  grammarCame := sameBooks_grammarCame

theorem sameBooks_count {f : Counts → Counts} (hf : ∀ c, (f c).parses = c.parses) :
    Within SameBooks (count f) :=
  fun s => .of_parses rfl (hf s.counts)

/-- A request for a lease that meets a fault enters nothing. -/
theorem sameBooks_refused (point : LeaseStage) (f : Fault) :
    Within SameBooks (resumeLease point (.error f)) := by
  cases point with
  | parser point =>
    obtain ⟨name, point⟩ := point
    cases point <;> exact fun s => ⟨rfl, rfl⟩
  | lock name ticket =>
    exact .bind (sameBooks_change fun _ => rfl) fun _ => .bind .get fun s =>
      .ite (.fail f) (.bind (sameBooks_callNext _) fun _ => .fail f)

end Pool

/-! ## What parses enter -/

/-- The lease has been granted. -/
def ParseStage.isLate : ParseStage → Bool
  | running .. | draining .. | copying _ => true
  | _ => false

/-- The lease of a parse has been granted. -/
def Stage.isLate : Stage → Bool
  | parse _ point => point.isLate
  | _ => false

/-- A call that does not ask for a lease itself has a parser in hand only once its parse has been granted
    one. -/
theorem Stage.isLate_of_holds {call : Call} {point : Stage} (hs : point.Suits call)
    (hlease : ∀ holder language, call ≠ .lease holder language) (hg : point.grip.Holds language) :
    point.isLate = true := by
  cases point with
  | parse use point =>
    cases point with
    | running | draining => rfl
    | leasing name source crew point => cases point <;> exact hg.elim
    | _ => exact hg.elim
  | lease | holding =>
    obtain ⟨holder, name, rfl⟩ := hs
    exact absurd rfl (hlease holder name)
  | boot | fetch => exact hs.elim
  | _ => exact hg.elim

/-- What a turn enters into the books, given whether the lease has been granted before.  A lease is entered
    with the grip on the parser that comes with it, and an end that is no cancellation is entered after a
    lease only. -/
inductive Books (isLate : P → Bool) (grip : P → Grip) (s : Service) : Bool → Turn P α → Service → Prop
  | waits {on : PromiseId} {point : P} {s' : Service} (h : SameBooks s s') (hp : isLate point = false) :
      Books isLate grip s false (.rest on point) s'
  | givesWay {point : P} {s' : Service} (h : SameBooks s s') (hp : isLate point = false) :
      Books isLate grip s false (.giveWay point) s'
  | refused {r : Except Fault α} {s' : Service} (h : SameBooks s s') :
      Books isLate grip s false (.finish r) s'
  | granted {on : PromiseId} {point : P} {s' : Service} (hl : s'.lent = s.lent + 1)
      (ha : s'.accounted = s.accounted) (hp : isLate point = true) (hg : ∃ l, (grip point).Holds l) :
      Books isLate grip s false (.rest on point) s'
  | works {on : PromiseId} {point : P} {s' : Service} (h : SameBooks s s') (hp : isLate point = true) :
      Books isLate grip s true (.rest on point) s'
  | abandoned {r : Except Fault α} {s' : Service} (h : SameBooks s s')
      (hr : Program.ended r = .cancelled) :
      Books isLate grip s true (.finish r) s'
  | closed {r : Except Fault α} {s' : Service} (hl : s'.lent = s.lent)
      (ha : s'.accounted = s.accounted + 1) (hr : Program.ended r ≠ .cancelled) :
      Books isLate grip s true (.finish r) s'

/-- What is entered after nothing has been. -/
theorem Books.of_same {isLate : P → Bool} {grip : P → Grip} {late : Bool} {turn : Turn P α} {s₁ : Service}
    (h : Books isLate grip s₁ late turn s') (hs : SameBooks s s₁) : Books isLate grip s late turn s' := by
  cases h with
  | waits h hp => exact .waits (hs.trans h) hp
  | givesWay h hp => exact .givesWay (hs.trans h) hp
  | refused h => exact .refused (hs.trans h)
  | granted hl ha hp hg => exact .granted (hs.lent ▸ hl) (hs.accounted ▸ ha) hp hg
  | works h hp => exact .works (hs.trans h) hp
  | abandoned h hr => exact .abandoned (hs.trans h) hr
  | closed hl ha hr => exact .closed (hs.lent ▸ hl) (hs.accounted ▸ ha) hr

/-- What is entered before nothing more is. -/
theorem Books.then_same {isLate : P → Bool} {grip : P → Grip} {late : Bool} {turn : Turn P α} {s₁ : Service}
    (h : Books isLate grip s late turn s₁) (hs : SameBooks s₁ s') : Books isLate grip s late turn s' := by
  cases h with
  | waits h hp => exact .waits (h.trans hs) hp
  | givesWay h hp => exact .givesWay (h.trans hs) hp
  | refused h => exact .refused (h.trans hs)
  | granted hl ha hp hg => exact .granted (hs.lent.trans hl) (hs.accounted.trans ha) hp hg
  | works h hp => exact .works (h.trans hs) hp
  | abandoned h hr => exact .abandoned (h.trans hs) hr
  | closed hl ha hr => exact .closed (hs.lent.trans hl) (hs.accounted.trans ha) hr

/-- The books of a parse. -/
abbrev ParseBooks (s : Service) (late : Bool) (turn : Turn ParseStage α) (s' : Service) : Prop :=
  Books ParseStage.isLate ParseStage.grip s late turn s'

namespace Parsing

variable {name : String} {source : List UInt8} {crew : Crew} {came : Prop} {job : PromiseId}

/-- What a parse enters as it borrows its parser: a lease if it is granted one. -/
theorem books_borrows {turn : Turn ParseStage Tree} (h : Borrows s name source came turn s')
    (hd : s.workers.dismissed = false) (hc : SameParses s s') : ParseBooks s false turn s' := by
  have ha : s'.accounted = s.accounted := by
    rw [accounted, show s'.counts.parses = s.counts.parses from hc, accounted]
  cases h with
  | leasing h => exact .waits ⟨h.lent_eq (by simp), ha⟩ rfl
  | denied h => exact .refused ⟨h.lent_eq (by simp), ha⟩
  | refused hdismissed =>
    rw [hd] at hdismissed
    cases hdismissed
  | running h hp =>
    exact .granted ((lent_congr pool_handedIn).trans h.lent_of_ok) ha rfl ⟨name, rfl⟩

theorem books_borrow (hd : s.workers.dismissed = false) :
    ParseBooks s false (borrow name source s).1 (borrow name source s).2 := by
  cases hv : s.validate (.str name) with
  | error f =>
    have he : borrow name source s = (.finish (.error f), s) := by
      simp only [borrow, Pool.lease, Pool.request, run_bind, run_get, hv]
      rfl
    rw [he]
    exact .refused ⟨rfl, rfl⟩
  | ok name' =>
    obtain rfl : name = name' := by
      have he := validate_eq_ok hv
      cases he
      rfl
    have hborrows : Borrows s name source False (borrow name source s).1 (borrow name source s).2 :=
      borrows_borrow hv
    exact books_borrows hborrows hd (Pool.keptWithin_sameParses.borrow (fun h _ => h _) ..)

/-- What a request for a parse enters. -/
theorem books_request (code : Code) (language : Json) (hd : s.workers.dismissed = false) :
    ParseBooks s false (request code language s).1 (request code language s).2 := by
  have hrefused : ∀ {f}, (s.validate language = .error f ∨ (∃ name, s.validate language = .ok name) ∧
      code.toSource = .error f) →
      ParseBooks s false (request code language s).1 (request code language s).2 := by
    intro f hf
    rw [request_refused hf]
    exact .refused ⟨rfl, rfl⟩
  cases hv : s.validate language with
  | error f => exact hrefused (.inl hv)
  | ok name =>
    cases hc : code.toSource with
    | error f => exact hrefused (.inr ⟨⟨name, hv⟩, hc⟩)
    | ok source =>
      obtain rfl := validate_eq_ok hv
      rcases request_accepted hv hc with ⟨p, s₁, hrest, _, _, hpool, _⟩ | ⟨_, hborrow⟩
      · have hcounts := Pool.keptWithin_sameParses.requestParse (fun h _ => h _) code (.str name) s
        rw [hrest] at hcounts ⊢
        exact .waits (.of_parses hpool hcounts) rfl
      · rw [hborrow]
        exact books_borrow hd

/-- A parse that waits its job out enters nothing. -/
theorem books_drain (name : String) (job : PromiseId) {f : Fault} (hf : f.kind = .cancelled) (s : Service) :
    ParseBooks s true (drain name job f s).1 (drain name job f s).2 := by
  unfold drain
  rw [run_bind, run_get]
  dsimp only
  cases s.loop.isPending job with
  | true => exact .works (.of_remote (remote_onLoop (fun _ => .waiter job) s)) rfl
  | false => exact .abandoned (Pool.sameBooks_release name s) (Program.ended_error_iff.2 hf)

/-- A failure that is counted closes the books of the parse. -/
theorem books_failed {f : Fault} (hf : f.kind = .parse) {g : Work (Turn ParseStage Tree)}
    (hg : Within SameBooks g) (hend : ∀ s, (g s).1 = .finish (.error f)) (s : Service) :
    ParseBooks s true ((countFailure >>= fun _ => g) s).1 ((countFailure >>= fun _ => g) s).2 := by
  have hbooks := hg (countFailure s).2
  show ParseBooks s true (g (countFailure s).2).1 (g (countFailure s).2).2
  rw [hend]
  exact .closed hbooks.lent hbooks.accounted (by simp [Program.ended_error_iff, hf])

theorem books_raised (name : String) (f : Fault) (s : Service) :
    ParseBooks s true (raised name f s).1 (raised name f s).2 := by
  have hg : Within SameBooks (do
      log (.error ("Parser raised while parsing " ++ name ++ " source: " ++ f.message))
      Pool.release name
      fail (.parserRaised name f) : Work (Turn ParseStage Tree)) :=
    .bind ((remote_log _).mono fun _ _ => .of_remote) fun _ =>
      .bind (Pool.sameBooks_release name) fun _ => .fail _
  exact books_failed rfl hg (fun _ => rfl) s

/-- What a late parse enters with the outcome of its job. -/
theorem books_running (hd : s.workers.dismissed = false) {given : Except Fault Reply}
    (hgiven : ∀ f, given = .error f → f.kind = .cancelled ∨ f.kind.isOrdinary = true) :
    ParseBooks s true (resume (.running name source crew job) given s).1
      (resume (.running name source crew job) given s).2 := by
  cases given with
  | ok r =>
    cases hr : r.toEngineTree with
    | none =>
      have he : resume (.running name source crew job) (.ok r) s =
          (countFailure >>= fun _ => fail (.noTree name)) (Pool.release name s).2 := by
        simp only [resume, parsed, hr, run_bind]
      rw [he]
      exact (books_failed rfl (.fail _) (fun _ => rfl) _).of_same (Pool.sameBooks_release name s)
    | some root =>
      rw [resume_some hr, if_neg (by simp [hd])]
      exact .works ((Pool.sameBooks_release name s).trans (.of_remote (remote_handedIn ..))) rfl
  | error f =>
    rcases hgiven f rfl with hk | ho
    · rw [resume, if_pos hk]
      exact books_drain name job hk s
    · have hk : ¬ f.kind = .cancelled := fun hk => by rw [hk] at ho; cases ho
      rw [resume, if_neg hk, if_pos ho]
      exact books_raised name f s

/-- What the turn of a parse enters. -/
theorem books_resume {stage : ParseStage} (hs : stage.IsSound) (hc : stage.Coherent)
    (hg : stage.grip.Fits roles s.pool) (hd : s.workers.dismissed = false) {given : Except Fault Reply}
    (hjob : ∀ name source crew job f, stage = .running name source crew job → given = .error f →
      f.kind = .cancelled ∨ f.kind.isOrdinary = true)
    (hcopy : ∀ name, stage = .copying name →
      (∃ t, given = .ok (.tree t)) ∨ given = .error .cancellation) :
    ParseBooks s stage.isLate (resume stage given s).1 (resume stage given s).2 := by
  cases stage with
  | booting name source =>
    cases given with
    | error f => exact .refused ⟨rfl, rfl⟩
    | ok r => exact books_borrow hd
  | leasing name source crew point =>
    have hcounts := within_leasing Pool.keptWithin_sameParses name source crew point given s
    cases given with
    | error f =>
      have he : resume (.leasing name source crew point) (.error f) s =
          (.finish (.error f), (Pool.resumeLease point (.error f) s).2) := by
        simp only [resume, run_bind, resumeLease_error]
        rfl
      rw [he]
      exact .refused (Pool.sameBooks_refused point f s)
    | ok r => exact books_borrows (borrows_resume r hc hg) hd hcounts
  | running name source crew job => exact books_running hd fun f => hjob _ _ _ _ f rfl
  | draining name job waiter f =>
    exact (books_drain name job hs { s with loop := s.loop.unsubscribe job (.signal waiter) }).of_same
      ⟨rfl, rfl⟩
  | copying name =>
    rcases hcopy name rfl with ⟨t, rfl⟩ | rfl
    · exact .closed rfl (Nat.add_right_comm ..) (by simp [Program.ended])
    · exact .abandoned ⟨rfl, rfl⟩ rfl

end Parsing

/-! ## What calls enter -/

/-- The books of a call. -/
abbrev CallBooks (s : Service) (late : Bool) (turn : Turn Stage Reply) (s' : Service) : Prop :=
  Books Stage.isLate Stage.grip s late turn s'

namespace Tools

/-- What a parse has ended with is replied: a cancellation as such, and nothing else as one. -/
theorem finish_cases (use : ParseUse) (result : Except Fault Tree) (s : Service) :
    ∃ r s₁, finish use result s = (.finish r, s₁) ∧ SameBooks s s₁ ∧
      (Program.ended r = .cancelled ↔ Program.ended result = .cancelled) := by
  cases result with
  | ok t => cases use <;> exact ⟨_, s, rfl, ⟨rfl, rfl⟩, by simp [Program.ended]⟩
  | error f =>
    -- A fault of the service is told, and is no cancellation; any other is passed on.
    have hpassed : ∃ r s₁, ((fail f : Work (Turn ParseStage Reply)) s) = (.finish r, s₁) ∧ SameBooks s s₁ ∧
        (Program.ended r = .cancelled ↔ Program.ended (.error f : Except Fault Tree) = .cancelled) :=
      ⟨.error f, s, rfl, ⟨rfl, rfl⟩, by simp [Program.ended_error_iff]⟩
    have htold : ∀ {r : Reply}, f.kind.isOwn = true →
        (Program.ended (.ok r : Except Fault Reply) = .cancelled ↔
          Program.ended (.error f : Except Fault Tree) = .cancelled) := fun hown => by
      rw [Program.ended_error_iff]
      refine ⟨fun h => by simp [Program.ended] at h, fun hk => ?_⟩
      rw [hk] at hown
      cases hown
    cases use with
    | tree => exact hpassed
    | snippet language depth =>
      simp only [finish]
      split
      · exact ⟨_, _, rfl, ⟨rfl, rfl⟩, htold ‹_›⟩
      · exact hpassed
    | file path depth =>
      simp only [finish]
      split
      · exact ⟨_, _, rfl, ⟨rfl, rfl⟩, htold ‹_›⟩
      · exact hpassed

/-- A parse for some use enters what the parse itself enters. -/
theorem books_used (use : ParseUse) {f : Work (Turn ParseStage Tree)} {late : Bool}
    (h : ParseBooks s late (f s).1 (f s).2) {turn : Turn Stage Reply}
    (he : (do
      let turn ← f
      andThen (← andThen turn id (finish use)) (.parse use) (fun r => return .finish r) :
        Work (Turn Stage Reply)) s = (turn, s')) :
    CallBooks s late turn s' := by
  obtain ⟨turn₁, s₁, hf⟩ : ∃ turn₁ s₁, f s = (turn₁, s₁) := ⟨_, _, rfl⟩
  simp only [run_bind, hf] at h he
  cases turn₁ with
  | rest on point =>
    cases he
    cases h with
    | waits h hp => exact .waits h hp
    | granted hl ha hp hg => exact .granted hl ha hp hg
    | works h hp => exact .works h hp
  | giveWay point =>
    cases he
    cases h with
    | givesWay h hp => exact .givesWay h hp
  | finish result =>
    obtain ⟨r, s₂, hfinish, hsame, hends⟩ := finish_cases use result s₁
    simp only [andThen, hfinish] at he
    cases he
    cases h with
    | refused h => exact .refused (h.trans hsame)
    | abandoned h hr => exact .abandoned (h.trans hsame) (hends.2 hr)
    | closed hl ha hr => exact .closed (hsame.lent.trans hl) (hsame.accounted.trans ha) (mt hends.1 hr)

end Tools

namespace Service

variable {w : Woken} {m : Midst} {turn : Turn Stage Reply} {call : Call}

/-- Nothing is entered by who is not late and does not come to be. -/
theorem books_of_same (h : SameBooks s s') (hturn : turn.ComesTo fun point => point.isLate = false) :
    CallBooks s false turn s' := by
  cases turn with
  | rest on point => exact .waits h hturn
  | giveWay point => exact .givesWay h hturn
  | finish r => exact .refused h

/-- A call that parses enters what its parse enters. -/
theorem HasTurn.books_parse (ht : HasTurn s roles w m turn) (ho : AtRest s roles) (hw : WorksWell s roles)
    (hd : s.workers.dismissed = false) (hs : w.stage.Suits call) (hparses : call.parses = true) :
    CallBooks w.before w.stage.isLate turn m.service := by
  obtain ⟨i, hb⟩ := ht.before
  have hd' : w.before.workers.dismissed = false := by rw [hb]; exact hd
  have hres := ht.resumed
  have hcoherent := ht.coherent
  have hgrip := ht.started.grip
  have hjob : ∀ job source, w.stage.rest = .parseJob job source → ∀ f, w.given = .error f →
      f.kind = .cancelled ∨ f.kind.isOrdinary = true := fun _ _ hs _ hf => hw.given_parse ho ht hs hf
  have hcopy := hw.given_copy ht
  generalize w.stage = stage at *
  generalize w.given = given at *
  cases stage with
  | start call' =>
    obtain rfl : call' = call := hs
    cases given with
    | error f =>
      obtain ⟨rfl, hm⟩ := Prod.mk.inj hres
      rw [← hm]
      exact .refused ⟨rfl, rfl⟩
    | ok r =>
      have hstart : Calls.start call' w.before = (turn, m.service) := hres
      rcases Calls.start_parses hparses w.before with
        ⟨use, code, language, -, he⟩ | ⟨-, r, skipped, he⟩ <;> rw [he] at hstart
      · exact Tools.books_used use (Parsing.books_request code language hd') hstart
      · obtain ⟨rfl, hm⟩ := Prod.mk.inj hstart
        rw [← hm]
        exact .refused ⟨rfl, rfl⟩
  | parse use point =>
    refine Tools.books_used use (Parsing.books_resume hs.2 hcoherent hgrip hd' ?_ ?_) hres
    · rintro name source crew job f rfl rfl
      exact hjob job source rfl f rfl
    · rintro name rfl
      exact hcopy rfl
  | boot | fetch => exact hs.elim
  | init | enter =>
    obtain rfl := (show call = _ from hs)
    cases hparses
  | grammar | parser | warm =>
    obtain ⟨_, rfl⟩ := hs
    cases hparses
  | lease | holding =>
    obtain ⟨_, _, rfl⟩ := hs
    cases hparses

/-- Any other call, unless it asks for a lease itself, enters nothing. -/
theorem HasTurn.sameBooks (ht : HasTurn s roles w m turn) (hs : w.stage.Suits call)
    (hparses : call.parses = false) (hlease : ∀ holder language, call ≠ .lease holder language) :
    SameBooks w.before m.service := by
  have hres := congrArg Prod.snd ht.resumed
  rw [← show (Calls.resume w.stage w.given w.before).2 = m.service from hres]
  generalize w.stage = stage at *
  cases hstage : stage.asksParser with
  | false => exact .of_afar (Calls.afar_resume hstage w.given w.before)
  | true =>
    cases stage with
    | start call' =>
      obtain rfl : call' = call := hs
      cases w.given with
      | error f => exact ⟨rfl, rfl⟩
      | ok r =>
        cases call' with
        | getParser language =>
          have hwithin : Within SameBooks (Calls.start (.getParser language)) :=
            .bind .get fun _ =>
              .bind (Pool.madeWithin_sameBooks.request (fun h => Pool.sameBooks_count h) language) fun _ =>
                .andThen fun r => (Calls.remote_parserReply r).mono fun _ _ => .of_remote
          exact hwithin w.before
        | lease holder language => exact absurd rfl (hlease _ _)
        | parse | parseFile | snippetTool | fileTool => cases hparses
        | _ => cases hstage
    | parser point =>
      have hwithin : Within SameBooks (Calls.resume (.parser point) w.given) :=
        .bind (Pool.madeWithin_sameBooks.resume point w.given) fun _ =>
          .andThen fun r => (Calls.remote_parserReply r).mono fun _ _ => .of_remote
      exact hwithin w.before
    | parse use point =>
      rw [hs.1] at hparses
      cases hparses
    | lease | holding =>
      obtain ⟨holder, language, rfl⟩ := hs
      exact absurd rfl (hlease holder language)
    | _ => cases hstage

/-- **What the turn of a task enters into the books.** -/
theorem HasTurn.books (ht : HasTurn s roles w m turn) (ho : AtRest s roles) (hw : WorksWell s roles)
    (hd : s.workers.dismissed = false)
    (hs : w.stage.role = .call → ∃ call, w.stage.Suits call ∧ ∀ holder language, call ≠ .lease holder language) :
    CallBooks w.before w.stage.isLate turn m.service := by
  by_cases hcall : w.stage.role = .call
  · obtain ⟨call, hsuits, hlease⟩ := hs hcall
    cases hparses : call.parses with
    | true => exact ht.books_parse ho hw hd hsuits hparses
    | false =>
      have hcomes := Calls.comesTo_resume hsuits w.given w.before
      rw [ht.resumed] at hcomes
      have hearly : ∀ {point : Stage}, point.Suits call → point.isLate = false := fun {point} hp => by
        cases point with
        | parse use point =>
          rw [hp.1] at hparses
          cases hparses
        | _ => rfl
      have hstage := hearly hsuits
      rw [hstage]
      refine books_of_same (ht.sameBooks hsuits hparses hlease) ?_
      cases turn with
      | rest on point | giveWay point => exact hearly hcomes
      | finish r => trivial
  · -- An operation neither asks for a parser nor comes to be a call.
    have hearly : ∀ {point : Stage}, point.role = w.stage.role → point.isLate = false := fun {point} hp => by
      cases point with
      | parse => exact absurd hp.symm hcall
      | _ => rfl
    have hasks : w.stage.asksParser = false := by
      generalize w.stage = stage at hcall
      cases stage with
      | boot | fetch => rfl
      | _ => exact absurd rfl hcall
    have hafar := Calls.afar_resume hasks w.given w.before
    rw [ht.resumed] at hafar
    rw [hearly rfl]
    refine books_of_same (.of_afar hafar) ?_
    have hend := ht.ends
    cases turn with
    | rest on point | giveWay point => exact hearly hend.2.1
    | finish r => trivial

end Service

end SourceTrees
