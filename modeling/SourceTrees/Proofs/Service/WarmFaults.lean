import SourceTrees.Proofs.Service.Endings
import SourceTrees.Proofs.Service.Lifespan
import SourceTrees.Proofs.Service.Undisturbed

/-!
# With what a warm-up ends

A warm-up answers whether everything is ready.  A boot that fails and requests for parsers that fail make
its answer false, whatever has raised their faults.  Besides the answer only two things come out of it: a
cancellation, of it or of a request that it has made, and the fault with which its own look for the
grammars ends.  Looking for a module in another one imports the outer one, and of what that raises only
faults of imports and of values are taken for an answer.

## Protocol

* A warm-up is asked for, or made on entering the service; then its answer is only logged.
* Engine and grammars raise ordinary faults only, and so does dismissing the workers.
* Nothing is assumed of what else is called, of the order in which errands are served and jobs done, nor
  of when the service is closed.

## Results

* `Warmup.fault_of_availability` — the faults that a look for grammars passes on.
* `Service.ParserAsked` — what becomes of the requests for parsers.
* `Service.WarmUpEnded` — the outcomes of a warm-up.
* **`Service.warmUpEnded_of_began`** — every warm-up that ends ends with one of them.
-/

set_option autoImplicit false

namespace SourceTrees

/-- The service catches its own faults. -/
theorem Fault.Kind.isOwn_of_isDeclared {k : Fault.Kind} (h : k.isDeclared = true) : k.isOwn = true := by
  cases k <;> first | rfl | cases h

/-! ## Looking for grammars -/

/-- Looking for a module passes on ordinary faults only, none of an import and none of a value. -/
theorem Attempt.meets_isAvailable (locator : String) :
    Meets World.RaisesWell (isAvailable locator) (fun _ => World.RaisesWell) fun f _ =>
      f.kind.isOrdinary = true ∧ f.kind.isImport = false ∧ f.kind ≠ .value := by
  unfold isAvailable
  cases Language.Locator.parse? locator with
  | none => exact .pure fun _ => id
  | some l =>
    refine .tryCatch (meets_isFound World.RaisesWell.keptByImports) fun f => ?_
    refine .ite (fun _ => .pure fun _ hw => hw.2) fun hn => .throw fun _ hw => ?_
    simp only [Bool.or_eq_true, decide_eq_true_eq, not_or, Bool.not_eq_true] at hn
    exact ⟨hw.1, hn⟩

/-- **With which faults a look for grammars ends.** -/
theorem Warmup.fault_of_availability {world : World} (hw : world.RaisesWell) {table : LocatorTable}
    {f : Fault} (h : ((availability table).run world).1 = .error f) :
    f.kind.isOrdinary = true ∧ f.kind.isImport = false ∧ f.kind ≠ .value := by
  have hprobe : ∀ es, Attempt.Meets World.RaisesWell (probe es) (fun _ => World.RaisesWell) fun f _ =>
      f.kind.isOrdinary = true ∧ f.kind.isImport = false ∧ f.kind ≠ .value := by
    intro es
    induction es with
    | nil => exact .pure fun _ => id
    | cons e es ih =>
      exact .bind (Attempt.meets_isAvailable e.2) fun _ => .bind ih fun _ => .pure fun _ => id
  have hmeets := hprobe table.entries world hw
  unfold availability at h
  generalize (probe table.entries).run world = x at h hmeets
  obtain ⟨r, world'⟩ := x
  cases h
  exact hmeets

/-- The languages for which a call asks to have parsers made. -/
def Call.preloaded : Call → Option (List Json)
  | .warm languages => languages
  | _ => none

/-- What a call does with what its warm-up comes to. -/
def Call.warmed : Call → Except Fault Bool → Work (Turn Stage Reply)
  | .enter => Calls.entered
  | _ => fun result => Calls.conclude (Work.reply .flag result)

namespace Service

open Loop

variable {S s s' : Service} {roles roles' : Roles Hook Job} {w : Woken} {m : Midst} {mv : Service.Move}
  {ms : List Service.Move} {c t : PromiseId} {turn : Turn Stage Reply} {X : Prop} {Y : PromiseId → Prop}
  {call : Call} {wrap : WarmStage → Stage} {answer : Bool → Reply} {f : Work (Turn WarmStage Bool)}

/-! ## Requests for parsers -/

/-- The outcome is a value, or a fault that callers are told of. -/
def RequestEnded (X : Prop) (o : Settled Reply) : Prop :=
  ∃ result : Except Fault Reply, o = Program.ended result ∧ ∀ f, result = .error f → Told X f

/-- What becomes of the request for a parser. -/
def ParserAsked (Y : PromiseId → Prop) (s : Service) (t : PromiseId) : Prop :=
  Becomes (fun _ => AsksParser) (fun _ => RequestEnded (Y t)) s t

/-- A request whose parser is replied. -/
theorem leads_asksParser {language : Json} {f : Work (Turn PoolStage String)}
    (hb : ∀ f, w.Blames f → Told X f) (h : Leads w m (f m.service) (PoolEnds w language)) :
    Leads w m ((do Work.andThen (← f) .parser Calls.parserReply : Work (Turn Stage Reply)) m.service)
      fun turn _ => Goes AsksParser (RequestEnded X) turn := by
  refine .call h (fun on point m' hp => .inr ⟨point, rfl⟩) fun result m' hf => ?_
  cases result with
  | error f => exact .pure ⟨.error f, rfl, fun g hg => by cases hg; exact hb f (hf.2.2 f rfl)⟩
  | ok name => exact .bind (.pure (.pure ⟨.ok _, rfl, fun g hg => by cases hg⟩))

/-- A turn of a request for a parser. -/
theorem Watched.goes_asksParser (h : Watched Y s roles) (ho : AtRest s roles) (ht : HasTurn s roles w m turn)
    (hs : AsksParser w.stage) : Goes AsksParser (RequestEnded (Y w.task)) turn := by
  have hleads : Leads w ⟨w.before, roles, w.stage.grip⟩ (Calls.resume w.stage w.given w.before)
      fun turn _ => Goes AsksParser (RequestEnded (Y w.task)) turn := by
    rcases hs with ⟨language, hs⟩ | ⟨point, hs⟩
    · have hcall : w.stage.role = .call := by rw [hs]; rfl
      have hgate : w.stage.rest ≠ .gate := by rw [hs]; simp [Stage.rest]
      have hjob : ∀ job source, w.stage.rest ≠ .parseJob job source := by rw [hs]; simp [Stage.rest]
      cases hg : w.given with
      | error f =>
        rw [hs]
        exact .pure ⟨.error f, rfl, fun g hg' => by cases hg'; exact h.told ho ht hcall hgate hjob hg⟩
      | ok r =>
        rw [hs]
        exact .bind (.pure (leads_asksParser (fun f => h.told_of_blames ho ht hcall hgate hjob)
          (leads_requestParser language rfl)))
    · have hcall : w.stage.role = .call := by rw [hs]; rfl
      have hrest : w.stage.rest = .shield point.hook := by rw [hs]; rfl
      have hc := ht.coherent
      rw [hs] at hc ⊢
      refine leads_asksParser (fun f => h.told_of_blames ho ht hcall (by simp [hrest]) (by simp [hrest]))
        (leads_resumeParser hrest hc rfl)
  obtain ⟨m', _, _, hgoes⟩ := ht.of_leads hleads
  exact hgoes

namespace ParserAsked

/-- Whatever is done, it is known what becomes of a request. -/
theorem step (h : ParserAsked Y s t) (hw : Watched Y s roles) (ho : AtRest s roles)
    (hst : Step s roles mv s' roles') : ParserAsked Y s' t :=
  Becomes.step h ho hst (fun ht he hs _ _ => he ▸ hw.goes_asksParser ho ht hs) (fun _ => id) fun _ => id

/-- With what a request has failed. -/
theorem told (h : ParserAsked Y s t) (ho : AtRest s roles) {f : Fault} (hf : Warmup.endOf s t = .error f) :
    Told (Y t) f := by
  unfold Warmup.endOf at hf
  rcases h with ⟨point, on, hp, -⟩ | ⟨o, hout, result, rfl, htold⟩
  · rw [outcome?_of_isPending (ho.isPending_of_place? hp)] at hf
    cases hf
  · rw [hout] at hf
    cases result with
    | ok v => cases hf
    | error g =>
      rcases htold g rfl with hg | ⟨rfl, hx⟩
      · rw [Program.ended_of_isDeclared hg] at hf
        cases hf
        exact .inl hg
      · cases hf
        exact .inr ⟨rfl, hx⟩

end ParserAsked

/-! ## Calls that warm up -/

/-- The calls that warm the service up: where their tasks rest meanwhile, and what they reply to the
    answer. -/
inductive WarmsUp : Call → (WarmStage → Stage) → (Bool → Reply) → Prop
  | warm (languages : Option (List Json)) : WarmsUp (.warm languages) .warm .flag
  | enter : WarmsUp .enter .enter fun _ => .nothing

/-- The part of a turn that is the warm-up's. -/
inductive Woken.Warms (w : Woken) (call : Call) (wrap : WarmStage → Stage) :
    Work (Turn WarmStage Bool) → Prop
  | begins {r : Reply} (hs : w.stage = .start call) (hg : w.given = .ok r) :
    Warms w call wrap (Warmup.request call.preloaded)
  | goesOn {point : WarmStage} (hs : w.stage = wrap point) : Warms w call wrap (Warmup.resume point w.given)

/-- The rest of the turn goes on from what the warm-up comes to. -/
theorem Woken.Warms.resume (h : w.Warms call wrap f) (hcall : WarmsUp call wrap answer) :
    Calls.resume w.stage w.given w.before =
      (do Work.andThen (← f) wrap call.warmed : Work (Turn Stage Reply)) w.before := by
  cases hcall <;> cases h with
  | begins hs hg => rw [hs, hg]; rfl
  | goesOn hs => rw [hs]; rfl

/-- A warm-up that comes to rest lets its call rest. -/
theorem HasTurn.warm_rests (ht : HasTurn s roles w m turn) (hf : w.Warms call wrap f)
    (hcall : WarmsUp call wrap answer) {on : PromiseId} {point : WarmStage} {after : Service}
    (hres : f w.before = (.rest on point, after)) : turn = .rest on (wrap point) ∧ m.service = after := by
  have hresumed := ht.resumed
  rw [hf.resume hcall, Work.run_bind, hres] at hresumed
  cases hresumed
  exact ⟨rfl, rfl⟩

/-- Who warms up is no request for a parser. -/
theorem Woken.Warms.ne_getParser (h : w.Warms call wrap f) (hcall : WarmsUp call wrap answer) (language : Json) :
    w.stage ≠ .start (.getParser language) := by
  cases h with
  | begins hs hg => rw [hs]; cases hcall <;> simp
  | goesOn hs => rw [hs]; cases hcall <;> simp

/-- What a warm-up comes to, its call ends with. -/
theorem HasTurn.warm_finishes (ht : HasTurn s roles w m turn)
    (hstuck : ∀ f ∈ s.workers.stuck, f.kind.isOrdinary = true) (hf : w.Warms call wrap f)
    (hcall : WarmsUp call wrap answer) {result : Except Fault Bool} {after : Service}
    (hres : f w.before = (.finish result, after)) :
    (m.after w.task turn).loop.outcome? w.task = some (Program.ended (Work.reply answer result)) := by
  cases hcall with
  | warm languages =>
    refine ht.outcome?_of_finish ?_
    rw [hf.resume (.warm languages), Work.run_bind, hres]
    rfl
  | enter =>
    refine ht.warmed hstuck ?_
    unfold Woken.warmed?
    cases hf with
    | begins hs hg =>
      rw [hs, hg, show Warmup.request none w.before = _ from hres]
      rfl
    | @goesOn point hs =>
      rw [hs]
      show (Warmup.resume point w.given w.before).1.result? = _
      rw [hres]
      rfl

/-! ## Warm-ups -/

/-- The look for the grammars with which the call has begun has raised the fault. -/
def LookRaised (S : Service) (ms : List Service.Move) (call : Call) (c : PromiseId) (f : Fault) : Prop :=
  ∃ w ∈ taken S ms, w.task = c ∧ w.stage = .start call ∧
    ((Warmup.availability w.before.config.locators).run w.before.world).1 = .error f

/-- The call has waited for the request. -/
def WaitedFor (S : Service) (ms : List Service.Move) (wrap : WarmStage → Stage) (c t : PromiseId) : Prop :=
  CameTo (fun stage => ∃ point, stage = wrap point ∧ t ∈ point.members) S ms c

/-- With what a warm-up ends: its answer, an ordinary fault that its look for the grammars has raised and that
    is none of an import and none of a value, or a cancellation of which it is said that it has come. -/
inductive WarmUpEnded (answer : Bool → Reply) (R : Fault → Prop) (X : Prop) : Settled Reply → Prop
  | answered (all : Bool) : WarmUpEnded answer R X (.value (answer all))
  | raised {f : Fault} (hf : R f) (hord : f.kind.isOrdinary = true) (himport : f.kind.isImport = false)
      (hvalue : f.kind ≠ .value) : WarmUpEnded answer R X (.failed f)
  | cancelled (hx : X) : WarmUpEnded answer R X .cancelled

theorem WarmUpEnded.mono {R R' : Fault → Prop} {X X' : Prop} {o : Settled Reply}
    (h : WarmUpEnded answer R X o) (hR : ∀ f, R f → R' f) (hx : X → X') : WarmUpEnded answer R' X' o := by
  cases h with
  | answered all => exact .answered all
  | raised hf hord himport hvalue => exact .raised (hR _ hf) hord himport hvalue
  | cancelled h => exact .cancelled (hx h)

/-- A call that warms the service up rests here.  What becomes of the requests is known for which it
    waits. -/
def IsWarmCall (Y : PromiseId → Prop) (call : Call) (wrap : WarmStage → Stage) (s : Service)
    (stage : Stage) : Prop :=
  stage = .start call ∨ ∃ point, stage = wrap point ∧ ∀ t ∈ point.members, s.ParserAsked Y t

/-- The warm-up or a request that it has made was among the tasks. -/
def WarmCancelled (Y : PromiseId → Prop) (S : Service) (ms : List Service.Move) (wrap : WarmStage → Stage)
    (c : PromiseId) : Prop :=
  Y c ∨ ∃ t, WaitedFor S ms wrap c t ∧ Y t

/-- What becomes of the warm-up. -/
abbrev WarmBecomes (Y : PromiseId → Prop) (S : Service) (ms : List Service.Move) (call : Call)
    (wrap : WarmStage → Stage) (answer : Bool → Reply) (s : Service) (c : PromiseId) : Prop :=
  Becomes (IsWarmCall Y call wrap)
    (fun _ => WarmUpEnded answer (LookRaised S ms call c) (WarmCancelled Y S ms wrap c)) s c

/-- The requests that a warm-up has made in a turn of its call have not begun yet. -/
theorem HasTurn.warm_asks (ht : HasTurn s roles w m turn) (hf : w.Warms call wrap f)
    (hcall : WarmsUp call wrap answer) {R : Fault → Prop}
    (hleads : Leads w ⟨w.before, roles, w.stage.grip⟩ (f w.before) (WarmEnds w R)) {on : PromiseId}
    {point : WarmStage} {after : Service} (hres : f w.before = (.rest on point, after)) :
    ∀ t ∈ point.members, ∃ language,
      (m.after w.task turn).loop.place? t = some (.start (.getParser language), none) := by
  intro t hmem
  obtain ⟨m', -, hm, hends⟩ := hleads ⟨ht.started, roles, .refl⟩
  rw [hres] at hm hends
  obtain ⟨rfl, hsame⟩ := ht.warm_rests hf hcall hres
  obtain ⟨language, hp⟩ := hends.2 t hmem
  rw [hm.trans hsame.symm] at hp
  refine ⟨language, ?_⟩
  -- The warm-up itself is none of the requests that it has just made.
  rw [place?_conclude, if_neg]
  · exact hp
  · rintro rfl
    obtain ⟨task, given, hget, hpoint, -⟩ := ht.inTurn.woken
    have hown := Option.some.inj ((place?_of_get? hget).symm.trans hp)
    exact hf.ne_getParser hcall language (hpoint.symm.trans (congrArg Prod.fst hown))

/-- What the warm-up does in a turn of its call tells what becomes of the call. -/
theorem HasTurn.warm_becomes (ht : HasTurn s roles w m turn)
    (hstuck : ∀ f ∈ s.workers.stuck, f.kind.isOrdinary = true) (hf : w.Warms call wrap f)
    (hcall : WarmsUp call wrap answer) {R R' : Fault → Prop}
    (hleads : Leads w ⟨w.before, roles, w.stage.grip⟩ (f w.before) (WarmEnds w R))
    (hR : ∀ f, R f → WarmUpEnded answer R' X (Program.ended (.error f))) :
    Becomes (IsWarmCall Y call wrap) (fun _ => WarmUpEnded answer R' X) (m.after w.task turn) w.task := by
  obtain ⟨m', -, -, hends⟩ := hleads ⟨ht.started, roles, .refl⟩
  obtain ⟨part, after, hres⟩ : ∃ part after, f w.before = (part, after) := ⟨_, _, rfl⟩
  rw [hres] at hends
  cases part with
  | rest on point =>
    obtain ⟨hturn, -⟩ := ht.warm_rests hf hcall hres
    have hasks := ht.warm_asks hf hcall hleads hres
    refine .inl ⟨wrap point, some on, by rw [hturn, place?_conclude, if_pos rfl],
      .inr ⟨point, rfl, fun t hmem => ?_⟩⟩
    obtain ⟨language, hp⟩ := hasks t hmem
    exact .inl ⟨_, _, hp, .inl ⟨language, rfl⟩⟩
  | giveWay point => exact hends.elim
  | finish result =>
    refine .inr ⟨_, ht.warm_finishes hstuck hf hcall hres, ?_⟩
    cases result with
    | ok all => exact .answered all
    | error f => exact hR f (hends.2 f rfl)

namespace WarmsUp

variable (h : WarmsUp call wrap answer)

include h

/-- Warm-ups run in the place of calls, and rest as they rest. -/
theorem role_wrap (point : WarmStage) : (wrap point).role = .call := by cases h <;> rfl

theorem rest_wrap (point : WarmStage) : (wrap point).rest = point.rest := by cases h <;> rfl

theorem grip_wrap (point : WarmStage) : (wrap point).grip = .free := by cases h <;> rfl

end WarmsUp

namespace Watched

variable (h : Watched Y s roles) (ho : AtRest s roles) (ht : HasTurn s roles w m turn)

include h ho ht

/-- A fault that a warm-up does not answer with false is a cancellation. -/
theorem cancelled_of_warmBlames (hcall : WarmsUp call wrap answer) {point : WarmStage} (hs : w.stage = wrap point)
    (hmembers : ∀ t ∈ point.members, s.ParserAsked Y t) {f : Fault} (hf : w.WarmBlames w.before point f) :
    f = .cancellation ∧ (Y w.task ∨ ∃ t ∈ point.members, Y t) := by
  have hrole : w.stage.role = .call := hs ▸ hcall.role_wrap point
  have hrest : w.stage.rest = point.rest := hs ▸ hcall.rest_wrap point
  cases point with
  | booting languages =>
    obtain ⟨hg, hk⟩ := hf
    rcases h.given ho ht hrole (by simp [hrest, WarmStage.rest]) hg with ⟨hook, hshield, hown⟩ |
      ⟨-, _, _, hjob⟩ | hx
    · -- A boot that fails fails with a fault of booting, which the warm-up catches.
      cases hrest.symm.trans hshield
      exact absurd (of_decide_eq_true hown) hk
    · cases hrest.symm.trans hjob
    · exact ⟨hx.1, .inl hx.2⟩
  | gathering languages members =>
    rcases hf with hg | ⟨hown, t, hmem, hend⟩
    · rcases h.given ho ht hrole (by simp [hrest, WarmStage.rest]) hg with ⟨hook, hshield, -⟩ |
        ⟨-, _, _, hjob⟩ | hx
      · cases hrest.symm.trans hshield
      · cases hrest.symm.trans hjob
      · exact ⟨hx.1, .inl hx.2⟩
    · obtain ⟨i, hb⟩ := ht.before
      rw [hb] at hend
      rcases (hmembers t hmem).told ho hend with hdeclared | ⟨rfl, hx⟩
      · rw [Fault.Kind.isOwn_of_isDeclared hdeclared] at hown
        cases hown
      · exact ⟨rfl, .inr ⟨t, hmem, hx⟩⟩

/-- **A turn of a call that warms the service up.** -/
theorem warm_turn (hstuck : ∀ f ∈ s.workers.stuck, f.kind.isOrdinary = true) (hcall : WarmsUp call wrap answer)
    (hnow : S.moves ms = s) (hsome : s.turnOf? mv = some w) (hs : IsWarmCall Y call wrap s w.stage) :
    WarmBecomes Y S (ms ++ [mv]) call wrap answer (m.after w.task turn) w.task := by
  rcases hs with hs | ⟨point, hs, hmembers⟩
  · rcases ht.given_of_start hs with hg | hg
    · have hgrip : w.stage.grip = .free := by rw [hs]; rfl
      refine ht.warm_becomes hstuck (.begins hs hg) hcall
        (leads_requestWarm (m := ⟨w.before, roles, w.stage.grip⟩) call.preloaded hgrip) fun f hf => ?_
      obtain ⟨i, hb⟩ := ht.before
      have hworld : w.before.world.RaisesWell := by
        rw [hb]
        exact h.settled.world
      obtain ⟨hord, himport, hvalue⟩ := Warmup.fault_of_availability hworld hf
      have hne : f.kind ≠ .cancelled := fun hk => by
        rw [hk] at hord
        cases hord
      rw [show Program.ended (V := Reply) (.error f) = .failed f from if_neg hne]
      exact .raised ⟨w, mem_taken (hnow ▸ hsome), rfl, hs, hf⟩ hord himport hvalue
    · refine .inr ⟨_, ht.outcome?_of_finish (by rw [hs, hg]; rfl), .cancelled (Or.inl ?_)⟩
      have hrole : w.stage.role = .call := by rw [hs]; rfl
      rcases h.told ho ht hrole (by simp [hs, Stage.rest]) (by simp [hs, Stage.rest]) hg with hdeclared | hx
      · cases hdeclared
      · exact hx.2
  · refine ht.warm_becomes hstuck (.goesOn hs) hcall
      (leads_resumeWarm (m := ⟨w.before, roles, w.stage.grip⟩) point (hs ▸ hcall.grip_wrap point)) fun f hf => ?_
    obtain ⟨rfl, hx⟩ := h.cancelled_of_warmBlames ho ht hcall hs hmembers hf
    refine .cancelled (hx.imp_right fun hwaited => ?_)
    obtain ⟨t, hmem, hy⟩ := hwaited
    obtain ⟨on, hp⟩ := ht.place
    rw [← hnow] at hp
    exact ⟨t, (CameTo.now hp ⟨point, hs, hmem⟩).append [mv], hy⟩

end Watched

/-! ## Runs -/

/-- What is known of a run in which a warm-up is under way. -/
structure WarmCourse (Y : PromiseId → Prop) (call : Call) (wrap : WarmStage → Stage) (answer : Bool → Reply)
    (S : Service) (c : PromiseId) (ms : List Service.Move) (s : Service) (roles : Roles Hook Job) : Prop where
  watched : Watched Y s roles
  stuck : ∀ f ∈ s.workers.stuck, f.kind.isOrdinary = true
  becomes : Began S ms call c → WarmBecomes Y S ms call wrap answer s c

/-- Every step keeps what is known of it. -/
theorem WarmCourse.step (h : WarmCourse Y call wrap answer S c ms (S.moves ms) roles)
    (hcall : WarmsUp call wrap answer) (ho : AtRest (S.moves ms) roles)
    (hst : Step (S.moves ms) roles mv (S.moves (ms ++ [mv])) roles') (hmv : Spares Y (S.moves ms) mv) :
    WarmCourse Y call wrap answer S c (ms ++ [mv]) (S.moves (ms ++ [mv])) roles' := by
  have hwatched := h.watched.step ho hst hmv
  have hmove : S.moves (ms ++ [mv]) = (S.moves ms).move mv := moves_append ..
  refine ⟨hwatched, ?_, fun hbegan => ?_⟩
  · rw [hmove] at hst ⊢
    rw [(hst.tidy ho h.stuck).stuck]
    exact h.stuck
  · have hstays : ∀ {point}, IsWarmCall Y call wrap (S.moves ms) point →
        IsWarmCall Y call wrap (S.moves (ms ++ [mv])) point := fun hk =>
      hk.imp_right fun ⟨point, he, hmembers⟩ =>
        ⟨point, he, fun t hmem => (hmembers t hmem).step h.watched ho hst⟩
    rcases hbegan.of_snoc with hbegan | ⟨rfl, rfl⟩
    · rcases h.becomes hbegan with ⟨point, on, hp, hk⟩ | ⟨o, hout, hended⟩
      · rcases hst.aside_or_given ho with ⟨-, ha⟩ | ⟨w, m, turn, hsome, ht, he, -⟩
        · exact .inl ⟨point, on, ha.stays hp, hstays hk⟩
        · by_cases hc : c = w.task
          · subst hc
            obtain ⟨on', hp'⟩ := ht.place
            cases hp'.symm.trans hp
            rw [he]
            exact h.watched.warm_turn ho ht h.stuck hcall rfl hsome hk
          · exact .inl ⟨point, on, he ▸ ht.stays ho hc hp, hstays hk⟩
      · refine .inr ⟨o, hst.outcome?_of_some hout, hended.mono ?_ ?_⟩
        · rintro f ⟨w, hw, hwhere⟩
          exact ⟨w, taken_snoc mv ▸ List.mem_append_left _ hw, hwhere⟩
        · exact Or.imp_right fun ⟨t, hwaited, hy⟩ => ⟨t, hwaited.append [mv], hy⟩
    · refine .inl ⟨.start call, none, ?_, .inl rfl⟩
      rw [hmove]
      exact place?_spawned (S.moves ms) call

/-- **A warm-up that has ended has ended with its answer, in a cancellation, or with a fault that its own look
    for the grammars has raised.** -/
theorem warmUpEnded_of_began (config : Config) (world : World) (eager : Bool) (stuck : Option Fault)
    (log : List LogLine) (ms : List Service.Move) (hw : world.RaisesWell)
    (hstuck : ∀ f ∈ stuck, f.kind.isOrdinary = true)
    (hsp : Along SparesOperations (opened config world eager stuck log) ms) {o : Settled Reply}
    (hcall : WarmsUp call wrap answer) (hc : Began (opened config world eager stuck log) ms call c)
    (hout : ((opened config world eager stuck log).moves ms).loop.outcome? c = some o) :
    WarmUpEnded answer (LookRaised (opened config world eager stuck log) ms call c)
      (WarmCancelled (CancelledIn (opened config world eager stuck log) ms)
        (opened config world eager stuck log) ms wrap c) o := by
  have hnone : ¬ Began (opened config world eager stuck log) [] call c := by
    rintro ⟨before, after, he, -⟩
    cases (List.append_eq_nil_iff.1 he.symm).2
  obtain ⟨roles, ho, h⟩ := exists_course
    (I := WarmCourse (CancelledIn (opened config world eager stuck log) ms) call wrap answer
      (opened config world eager stuck log) c)
    (Ordered.opened config world eager stuck log).rest
    ⟨.opened hw .., by rw [opened_eq]; exact hstuck, fun hbegan => absurd hbegan hnone⟩
    (fun ho _ hmv h hst => h.step hcall ho hst hmv) ms (along_spares hsp)
  rcases h.becomes hc with ⟨point, on, hp, -⟩ | ⟨o', hout', hended⟩
  · rw [outcome?_of_isPending (ho.isPending_of_place? hp)] at hout
    cases hout
  · cases hout.symm.trans hout'
    exact hended

end Service

end SourceTrees
