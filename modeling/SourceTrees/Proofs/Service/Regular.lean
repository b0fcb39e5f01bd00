import SourceTrees.Proofs.Engine.Answering
import SourceTrees.Proofs.Service.Bindings

/-!
# What a service comes to in a fixed world

In a world in which jobs end as a table says, so do the shared operations: a boot fails with what the table
has for it, a grammar that is kept was compiled from the pointer that the table has for its language, and
there are parsers only if the table lets them be made.

## Protocol

* The operations are not cancelled, and the workers not dismissed.
* Which number a grammar has depends on the run; its pointer does not.

## Results

* `Job.As` — a job ends as the table says.
* `Service.Regular` — the invariant.
* `Service.Regular.step` — kept by every step.
-/

set_option autoImplicit false

namespace SourceTrees

open Attempt

/-- The locator by which the grammar of a language is found; the empty one if there is none. -/
abbrev Config.locator (c : Config) (language : String) : String := (c.locators.get? language).getD ""

/-- The jobs of shared operations end as the table says; a grammar is compiled from the pointer that the
    table has for the locator. -/
def Job.As (A : Answers) (c : Config) (w : World) : Job → Except Fault Reply → Prop
  | boot engine, x => engine = c.engineModule → x = Work.reply (fun _ => .engine engine) A.boot
  | grammar engine locator, .ok r => engine = c.engineModule → (∃ l, locator = c.locator l) →
      ∃ n pointer, r = .grammar (some n) ∧ A.fetch locator = .ok pointer ∧
        w.pointers[n - 1]? = some pointer
  | grammar engine locator, .error f => engine = c.engineModule → (∃ l, locator = c.locator l) →
      A.fetch locator = .error f
  | _, _ => True

theorem getElem?_of_prefix {α : Type} {xs ys : List α} (h : xs <+: ys) {n : Nat} {x : α}
    (hx : xs[n]? = some x) : ys[n]? = some x := by
  obtain ⟨more, rfl⟩ := h
  rw [List.getElem?_append_left (List.getElem?_eq_some_iff.1 hx).1, hx]

namespace Service

open Loop

variable {A : Answers} {P : World → Prop} {c : Config} {s s' : Service} {roles roles' : Roles Hook Job}
  {w : Woken} {m m' : Midst} {mv : Service.Move} {t p : PromiseId} {turn : Turn Stage Reply}
  {language : String}

theorem sure_as (h : Answering c A P) : Sure P (Job.As A c) where
  kept := h.kept
  run job {w} hw := by
    cases job with
    | boot engine =>
      rintro rfl
      have hboot := h.boot w hw
      show Work.reply (fun _ => .engine c.engineModule) ((loadEngine c.engineModule).run w).1 = _
      cases hr : (loadEngine c.engineModule).run w with
      | mk r w' =>
        rw [hr] at hboot
        cases r with
        | ok x => rw [show A.boot = .ok x from hboot]
        | error f => rw [show A.boot = .error f from hboot]
    | grammar engine locator =>
      show Job.As A c ((fetchGrammar engine locator).run w).2 _
        (Work.reply .grammar ((fetchGrammar engine locator).run w).1)
      cases hr : (fetchGrammar engine locator).run w with
      | mk r w' =>
        cases r with
        | ok g =>
          rintro rfl ⟨l, rfl⟩
          have hfetch := h.fetch l w hw
          rw [hr] at hfetch
          obtain ⟨n, pointer, rfl, hp, hn⟩ := hfetch
          exact ⟨n, pointer, rfl, hp, hn⟩
        | error f =>
          rintro rfl ⟨l, rfl⟩
          have hfetch := h.fetch l w hw
          rw [hr] at hfetch
          exact hfetch
    | parse parser source => trivial
    | copy language source root => trivial
  lasting {w w' job x} hp hx := by
    cases job with
    | grammar engine locator =>
      cases x with
      | ok r =>
        intro he hl
        obtain ⟨n, pointer, hr, hf, hn⟩ := hx he hl
        exact ⟨n, pointer, hr, hf, getElem?_of_prefix hp hn⟩
      | error f => exact hx
    | _ => exact hx

/-- The grammar was compiled from the pointer that the table has for the language. -/
def Fetched (A : Answers) (s : Service) (language : String) (x : Grammar) : Prop :=
  ∃ n pointer, x = some n ∧ A.fetch (s.config.locator language) = .ok pointer ∧
    s.world.pointers[n - 1]? = some pointer

/-- What the service has come to is what the table says. -/
structure Regular (A : Answers) (s : Service) (roles : Roles Hook Job) : Prop where
  engine : ∀ {e}, s.engine = some e → e = s.config.engineModule
  named : ∀ {p engine locator}, roles p = .job (.grammar engine locator) →
    engine = s.config.engineModule
  booted : s.phase = .ready → A.boot = .ok ()
  bootFailed : ∀ {t f}, roles t = .operation .boot → s.loop.outcome? t = some (.failed f) →
    ∃ g, A.boot = .error g ∧ f = Boot.raised s.config.engineModule g
  kept : ∀ {language x}, s.grammars.get? language = some x → Fetched A s language x
  loadFailed : ∀ {t f language}, roles t = .operation (.grammar language) →
    s.loop.outcome? t = some (.failed f) → ∃ g, A.fetch (s.config.locator language) = .error g ∧
      f = Grammars.raised language (s.config.locator language) g
  bound : ∀ {language p}, s.parser? language = some p → A.bind = .ok ()
  parsers : ∀ {p parser source}, roles p = .job (.parse parser source) →
    ∃ language, s.parser? language = some parser

/-! ## Strides -/

/-- The engine comes to be ready only when its import has succeeded. -/
theorem Strides.ready_cases (hst : Strides w m m') (hr : m'.service.phase = .ready) :
    m.service.phase = .ready ∨ ∃ attempt r, w.stage = .boot (.importing attempt) ∧ w.given = .ok r := by
  induction hst with
  | refl => exact .inl hr
  | @tail m₁ m₂ hst hstep ih =>
    cases hstep with
    | submitted crew hc hg => exact ih (Work.known_handedIn.2.1 ▸ hr)
    | dismissed => exact ih (Work.known_dismiss.2.1 ▸ hr)
    | bootBegun hs hg => cases hr
    | bootFailed hf hg => cases hr
    | bootReady hs hgiven hg => exact .inr ⟨_, _, hs, hgiven⟩
    | _ => exact ih hr

/-- Any engine that a service has is the configured one, and so is that of its fetches. -/
structure Named (s : Service) (roles : Roles Hook Job) : Prop where
  engine : ∀ {e}, s.engine = some e → e = s.config.engineModule
  fetch : ∀ {p engine locator}, roles p = .job (.grammar engine locator) →
    engine = s.config.engineModule

theorem Named.of_engine? (h : Named s roles) {e : String} (he : s.engine? = .ok e) :
    e = s.config.engineModule := by
  unfold Service.engine? at he
  split at he
  · rename_i hs
    cases he
    exact h.engine hs
  · cases he

theorem Stride.named (hst : Stride w m m') (h : Named m.service m.roles) : Named m'.service m'.roles := by
  have hconfig := hst.engine_named.1
  refine ⟨fun {e} he => ?_, fun hp => ?_⟩
  · rw [hconfig]
    cases hst with
    | submitted crew hc hg => exact h.engine (Work.known_handedIn.2.2.1 ▸ he)
    | dismissed => exact h.engine (Work.known_dismiss.2.2.1 ▸ he)
    | bootReady hs hr hg =>
      cases he
      rfl
    | _ => exact h.engine he
  · rw [hconfig]
    rcases hst.job_cases hp with hp | ⟨grip, hg⟩
    · exact h.fetch hp
    · generalize m.grip = before at hg
      cases hg with
      | fetch hs hk he => exact h.of_engine? he

theorem Strides.named (hst : Strides w m m') (h : Named m.service m.roles) :
    Named m'.service m'.roles := by
  induction hst with
  | refl => exact h
  | tail _ hstep ih => exact hstep.named ih

/-- A parser is made only if the table lets it be made. -/
theorem Strides.bound (h : Answering c A P) (hst : Strides w m m') (hw : P m.service.world)
    (hc : m.service.config = c) (hn : Named m.service m.roles) {p : Nat}
    (hp : m'.service.parser? language = some p) :
    m.service.parser? language = some p ∨ A.bind = .ok () := by
  obtain ⟨F, G, hkept⟩ := h.kept
  induction hst with
  | refl => exact .inl hp
  | @tail m₁ m₂ hst hstep ih =>
    rcases hstep.parser?_cases with ⟨he, _⟩ | ⟨l, g, _, _, _, _, _, _, engine, parser, he, hb⟩
    · exact ih (he ▸ hp)
    · have hengine := (Strides.named hst hn).of_engine? he
      rw [(Strides.engine_named hst).1, hc] at hengine
      subst hengine
      have hbind := h.bind g _ (Strides.keeps hkept hst hw)
      rw [hb] at hbind
      exact .inr hbind

/-- A parser's job is handed in for a pooled parser. -/
theorem Strides.parsers (hst : Strides w m m') {parser : Nat} {source : List UInt8}
    (ht : InTurn w m)
    (h : ∀ {p parser source}, m.roles p = .job (.parse parser source) →
      ∃ language, m.service.parser? language = some parser)
    (hp : m'.roles p = .job (.parse parser source)) :
    ∃ language, m'.service.parser? language = some parser := by
  induction hst generalizing p parser source with
  | refl => exact h hp
  | @tail m₁ m₂ hst hstep ih =>
    rcases hstep.job_cases hp with hold | ⟨grip, hg⟩
    · obtain ⟨l, hl⟩ := ih hold
      exact ⟨l, hstep.parser?_of_some hl⟩
    · have hfits := (ht.strides hst).grip
      generalize m₁.grip = before at hg hfits
      cases hg with
      | parse l source =>
        obtain ⟨pooled, hpooled⟩ := exists_pooled hfits
        refine ⟨l, hstep.parser?_of_some ?_⟩
        rw [parser?, Pool.parserOf, hpooled]
        rfl

/-! ## Turns that end with a fault -/

theorem beginAttempt_of_open (hd : s.workers.dismissed = false) (attempt : Nat) :
    (Boot.beginAttempt attempt s).1 = .rest s.loop.promises.size (.importing attempt) := by
  have hopen : ∀ crew : Crew, ¬ (crew = .own ∧ s.workers.dismissed = true) := fun crew h =>
    absurd (hd.symm.trans h.2) (by decide)
  simp only [Boot.beginAttempt, Work.count, Work.run_bind, Work.run_modify, Work.run_get,
    Work.submit_eq, if_neg (hopen _)]
  rfl

/-- An attempt that has failed is followed by a pause, or the boot has failed. -/
theorem attemptFailed_eq (attempt : Nat) (f : Fault) (s : Service) :
    Boot.attemptFailed attempt f s =
      if f.kind.isTransient = true ∧ attempt < s.config.bootAttempts then
        if 0 < Boot.pause s.config.bootWait attempt then
          (.rest s.loop.promises.size (.pausing attempt (some s.loop.promises.size)),
            { s with loop := (s.loop.timer (Boot.pause s.config.bootWait attempt)).2 })
        else (.giveWay (.pausing attempt none), s)
      else Boot.failed f s := by
  have hb : (f.kind.isTransient && decide (attempt < s.config.bootAttempts)) = true ↔
      f.kind.isTransient = true ∧ attempt < s.config.bootAttempts := by
    simp
  change (if (f.kind.isTransient && decide (attempt < s.config.bootAttempts)) = true then
      if 0 < Boot.pause s.config.bootWait attempt then
        Work.onLoop (·.timer (Boot.pause s.config.bootWait attempt)) >>= fun p =>
          Work.restOn p (.pausing attempt (some p))
      else pure (.giveWay (.pausing attempt none))
    else Boot.failed f : Work (Turn BootStage Unit)) s = _
  simp only [Work.run_ite, hb]
  rfl

/-- A boot that ends with a fault has met it: the workers are there to take its jobs. -/
theorem resumeBoot_error {point : BootStage} {given : Except Fault Reply} {f : Fault}
    (h : (Boot.resume point given s).1 = .finish (.error f)) (hd : s.workers.dismissed = false) :
    ∃ g, given = .error g ∧ (point ≠ .start → f = Boot.raised s.config.engineModule g) := by
  cases given with
  | ok r =>
    exfalso
    cases point with
    | start =>
      change (Boot.start s).1 = _ at h
      simp only [Boot.start, Work.count, Work.log, Work.run_bind, Work.run_modify, Work.run_get] at h
      rw [beginAttempt_of_open] at h
      · cases h
      · exact hd
    | importing attempt => cases h
    | pausing attempt timer =>
      change (Boot.beginAttempt (attempt + 1) s).1 = _ at h
      rw [beginAttempt_of_open hd] at h
      cases h
  | error g =>
    refine ⟨g, rfl, fun hp => ?_⟩
    cases point with
    | start => exact absurd rfl hp
    | importing attempt =>
      change (Boot.attemptFailed attempt g s).1 = _ at h
      rw [attemptFailed_eq] at h
      split at h
      · split at h <;> cases h
      · rw [failed_eq] at h
        cases h
        rfl
    | pausing attempt timer =>
      cases timer with
      | none =>
        change (Boot.failed g s).1 = _ at h
        rw [failed_eq] at h
        cases h
        rfl
      | some q =>
        change (Boot.failed g { s with loop := s.loop.dropTimer q }).1 = _ at h
        rw [failed_eq] at h
        cases h
        rfl

/-- A load that ends with a fault, the engine being ready, has met one as it waited for the fetch. -/
theorem resumeFetch_error {point : FetchStage} {given : Except Fault Reply} {f : Fault}
    (h : (Grammars.resumeFetch point given s).1 = .finish (.error f)) (he : ∀ g, s.engine? ≠ .error g)
    (hd : s.workers.dismissed = false) (hs : ∀ l, point = .start l → ∃ r, given = .ok r) :
    ∃ l locator g, point = .fetching l locator ∧ given = .error g ∧ f = Grammars.raised l locator g := by
  cases point with
  | start l =>
    obtain ⟨r, rfl⟩ := hs l rfl
    change (Grammars.startFetch l s).1 = _ at h
    obtain ⟨turn, s₁, hstart⟩ : ∃ turn s₁, Grammars.startFetch l s = (turn, s₁) := ⟨_, _, rfl⟩
    rw [hstart] at h
    cases h
    generalize hturn : Turn.finish (Except.error f) = turn at hstart
    cases fetchBegins hstart with
    | kept hk => cases hturn
    | engineless hk hf => exact absurd hf (he _)
    | refused hk hdismissed => exact absurd (hd.symm.trans hdismissed) (by decide)
    | fetching hk he => cases hturn
  | fetching l locator =>
    cases given with
    | ok r => cases h
    | error g =>
      obtain ⟨counts, log, hg⟩ := resumeFetching_error l locator g s
      rw [hg] at h
      cases h
      exact ⟨l, locator, g, rfl, rfl, rfl⟩

/-- A turn that replies a fault has met it in what it replies. -/
theorem replying_error {α Q : Type} {inner : Turn Q α} {wrap : Q → Stage} {f : α → Reply} {e : Fault}
    (h : (Calls.replying inner wrap f s).1 = .finish (.error e)) : inner = .finish (.error e) := by
  cases inner with
  | rest on point => cases h
  | giveWay point => cases h
  | finish result =>
    cases result with
    | ok x => cases h
    | error g =>
      cases h
      rfl

/-- The turn of a boot that ends with a fault. -/
theorem HasTurn.failed_boot {point : BootStage} {f : Fault} (ht : HasTurn s roles w m turn)
    (hs : w.stage = .boot point) (hf : turn = .finish (.error f)) :
    (Boot.resume point w.given w.before).1 = .finish (.error f) := by
  have hres := ht.resumed
  rw [hs, hf] at hres
  exact @replying_error _ _ _ _ .boot (fun _ => .nothing) _ (congrArg Prod.fst hres)

/-- The turn of a load that ends with a fault. -/
theorem HasTurn.failed_fetch {point : FetchStage} {f : Fault} (ht : HasTurn s roles w m turn)
    (hs : w.stage = .fetch point) (hf : turn = .finish (.error f)) :
    (Grammars.resumeFetch point w.given w.before).1 = .finish (.error f) := by
  have hres := ht.resumed
  rw [hs, hf] at hres
  exact @replying_error _ _ _ _ .fetch .grammar _ (congrArg Prod.fst hres)

/-- An operation that has ended after a turn had ended before it, or it was the one to have the turn. -/
theorem HasTurn.ended_cases (ht : HasTurn s roles w m turn) (ho : AtRest s roles) {k : Hook}
    {o : Settled Reply} (hr : m.roles t = .operation k)
    (hout : (Program.conclude w.task turn m.service.loop).outcome? t = some o) :
    roles t = .operation k ∧ (s.loop.outcome? t = some o ∨
      t = w.task ∧ ∃ result, turn = .finish result ∧ o = Program.ended result) := by
  rcases ht.outcome?_operation hr hout with hout | ⟨rfl, result, hturn, he, _⟩
  · have hold : s.loop.outcome? t = some o := by
      obtain ⟨i, hb⟩ := ht.before
      rw [Strides.outcome?_eq ht.started ht.strides (by simp [hr]), hb] at hout
      exact hout
    refine ⟨?_, .inl hold⟩
    rw [← ht.extends t (ho.sound.assigned.role_ne_unused (outcome?_lt hold)), hr]
  · refine ⟨?_, .inr ⟨rfl, result, hturn, he⟩⟩
    exact ht.started.unfinished.1.trans (ht.inTurn.unfinished.1.symm.trans hr)

/-! ## Steps -/

/-- What is known of a service in a fixed world. -/
structure Known (A : Answers) (P : World → Prop) (c : Config) (n : Nat) (s : Service)
    (roles : Roles Hook Job) : Prop where
  config : s.config = c
  world : P s.world
  provided : Provided n s roles
  answered : Answered (Job.As A c) s roles
  regular : Regular A s roles

variable {n : Nat}

namespace Known

theorem named (h : Known A P c n s roles) : Named s roles := ⟨h.regular.engine, h.regular.named⟩

/-- An engine that is ready is the configured one. -/
theorem engine?_of_ready (h : Known A P c n s roles) (hready : s.phase = .ready) :
    s.engine? = .ok s.config.engineModule := by
  obtain ⟨e, he⟩ := Option.isSome_iff_exists.1 (h.provided.loaded.engined.booting.engine hready)
  rw [Service.engine?, hready, he, h.regular.engine he]

/-- A load is there only when the engine is. -/
theorem engine?_of_load (h : Known A P c n s roles) (hr : roles t = .operation (.grammar language)) :
    s.engine? = .ok s.config.engineModule :=
  h.engine?_of_ready (h.provided.loaded.loading.begun hr)

/-- A boot that has its turn and ends with a fault ends as the table says. -/
theorem boot_fails (h : Known A P c n s roles) (ht : HasTurn s roles w m turn)
    {point : BootStage} (hs : w.stage = .boot point) {f : Fault} (hf : turn = .finish (.error f))
    (hd : s.workers.dismissed = false) :
    ∃ g, A.boot = .error g ∧ f = Boot.raised s.config.engineModule g := by
  obtain ⟨i, hb⟩ := ht.before
  obtain ⟨g, hg, hraised⟩ := resumeBoot_error (ht.failed_boot hs hf) (by rw [hb]; exact hd)
  have hgiven := h.answered.given ht (by rw [hs]; simp [Stage.role])
  rw [hs, hg] at hgiven
  cases point with
  | start => cases hgiven
  | pausing attempt timer => cases hgiven
  | importing attempt =>
    have he := hgiven (by rw [h.config])
    refine ⟨g, ?_, ?_⟩
    · cases hA : A.boot with
      | ok x =>
        rw [hA] at he
        cases he
      | error g' =>
        rw [hA] at he
        cases he
        rfl
    · rw [hraised (by simp), hb]

/-- What a fetch is given is what the table says. -/
theorem fetch_given (h : Known A P c n s roles) (ht : HasTurn s roles w m turn) {locator : String}
    (hs : w.stage = .fetch (.fetching language locator)) :
    locator = s.config.locator language ∧
      match w.given with
      | .ok r => Fetched A s language r.toGrammar
      | .error f => A.fetch (s.config.locator language) = .error f := by
  obtain ⟨on, hplace⟩ := ht.place
  rw [hs] at hplace
  have hlocator : locator = s.config.locator language := h.provided.located.fetching hplace
  subst hlocator
  have hgiven := h.answered.given ht (by rw [hs]; simp [Stage.role])
  rw [hs] at hgiven
  obtain ⟨p, engine, hp, hgiven⟩ := hgiven
  have hengine := (h.regular.named hp).trans (congrArg Config.engineModule h.config)
  have hown : ∃ l, s.config.locator language = c.locator l := ⟨language, by rw [h.config]⟩
  refine ⟨rfl, ?_⟩
  cases hx : w.given with
  | ok r =>
    rw [hx] at hgiven
    obtain ⟨k, pointer, rfl, hf, hk⟩ := hgiven hengine hown
    exact ⟨k, pointer, rfl, hf, hk⟩
  | error f =>
    rw [hx] at hgiven
    exact hgiven hengine hown

/-- A load that has its turn and ends with a fault ends as the table says. -/
theorem load_fails (h : Known A P c n s roles) (ho : AtRest s roles) (ht : HasTurn s roles w m turn)
    {point : FetchStage} (hs : w.stage = .fetch point)
    (hr : w.stage.role = .operation (.grammar language)) {f : Fault} (hf : turn = .finish (.error f))
    (hd : s.workers.dismissed = false) :
    ∃ g, A.fetch (s.config.locator language) = .error g ∧
      f = Grammars.raised language (s.config.locator language) g := by
  obtain ⟨i, hb⟩ := ht.before
  obtain ⟨on, hplace⟩ := ht.place
  have hengine : w.before.engine? = .ok s.config.engineModule := by
    rw [hb]
    exact h.engine?_of_load ((ho.placed hplace).role.trans hr)
  have hopen : w.before.workers.dismissed = false := by
    rw [hb]
    exact hd
  obtain ⟨l, locator, g, rfl, hx, rfl⟩ := resumeFetch_error (ht.failed_fetch hs hf)
    (fun g he => by cases hengine.symm.trans he) hopen fun l he => by
      have hgiven := h.answered.given ht (by rw [hs]; simp [he, Stage.role])
      rw [hs, he] at hgiven
      exact ⟨_, hgiven⟩
  rw [hs] at hr
  cases hr
  obtain ⟨rfl, hgiven⟩ := h.fetch_given ht hs
  rw [hx] at hgiven
  exact ⟨g, hgiven, rfl⟩

theorem opened {world : World} (h : Answering c A P) (hw : P world) (eager : Bool)
    (stuck : Option Fault) (log : List LogLine) :
    Known A P c world.parsers.length (Service.opened c world eager stuck log) fun _ => .unused where
  config := by simp
  world := by simpa using hw
  provided := .opened (h.fetches hw) ..
  answered := .opened ..
  regular := by
    refine ⟨fun he => ?_, fun hp => ?_, fun hr => ?_, fun hp => ?_, fun hx => ?_, fun hp => ?_,
      fun hp => ?_, fun hp => ?_⟩
    · rw [opened_eq] at he
      cases he
    · cases hp
    · simp at hr
    · cases hp
    · simp at hx
    · cases hp
    · simp [parser?] at hp
    · cases hp

theorem regular_aside (h : Known A P c n s roles) (ho : AtRest s roles) (hst : Step s roles mv s' roles')
    (ha : Aside s roles s' roles') : Regular A s' roles' where
  engine he := by
    rw [ha.config]
    exact h.regular.engine (ha.engine ▸ he)
  named hp := by
    rw [ha.config]
    exact h.regular.named (ha.role hp (by simp))
  booted hr := h.regular.booted (ha.phase ▸ hr)
  bootFailed hr hout := by
    obtain ⟨hr', _, he⟩ := ha.outcome?_operation ho hst hr
    rw [ha.config]
    exact h.regular.bootFailed hr' (he ▸ hout)
  kept hx := by
    obtain ⟨k, pointer, hk, hf, hp⟩ := h.regular.kept (ha.grammars ▸ hx)
    refine ⟨k, pointer, hk, by rw [ha.config]; exact hf, getElem?_of_prefix ?_ hp⟩
    exact hst.keeps (Attempt.keptByWork_pointers _) (List.prefix_refl _)
  loadFailed hr hout := by
    obtain ⟨hr', _, he⟩ := ha.outcome?_operation ho hst hr
    rw [ha.config]
    exact h.regular.loadFailed hr' (he ▸ hout)
  bound hp := h.regular.bound (parser?_congr ha.pool ▸ hp)
  parsers hp := by
    rw [parser?_congr ha.pool]
    exact h.regular.parsers (ha.role hp (by simp))

theorem regular_turn (hA : Answering c A P) (h : Known A P c n s roles) (ho : AtRest s roles)
    (ht : HasTurn s roles w m turn) (hd : s.workers.dismissed = false) :
    Regular A { m.service with loop := Program.conclude w.task turn m.service.loop } m.roles := by
  obtain ⟨i, hb⟩ := ht.before
  have hbefore : Named w.before roles := by
    rw [hb]
    exact ⟨h.regular.engine, h.regular.named⟩
  have hconfig : m.service.config = s.config := by
    rw [(Strides.engine_named ht.strides).1, hb]
  have hnamed := Strides.named ht.strides hbefore
  have hpointers : s.world.pointers <+: m.service.world.pointers := by
    have hp := Strides.keeps (Attempt.keptByWork_pointers w.before.world.pointers) ht.strides
      (List.prefix_refl _)
    rw [hb] at hp
    exact hp
  refine ⟨hnamed.engine, hnamed.fetch, fun hready => ?_, fun hr hout => ?_, fun {l x} hx => ?_,
    fun {t f l} hr hout => ?_, fun {l p} hp => ?_, fun {p parser source} hp => ?_⟩
  · rcases Strides.ready_cases ht.strides hready with hready | ⟨attempt, r, hs, hr⟩
    · exact h.regular.booted (by rw [hb] at hready; exact hready)
    · have hgiven := h.answered.given ht (by rw [hs]; simp [Stage.role])
      rw [hs, hr] at hgiven
      have he := hgiven (congrArg Config.engineModule h.config)
      cases hA' : A.boot with
      | ok x => rfl
      | error g =>
        rw [hA'] at he
        cases he
  · obtain ⟨hr', hold | ⟨rfl, result, rfl, he⟩⟩ := ht.ended_cases ho hr hout
    · rw [hconfig]
      exact h.regular.bootFailed hr' hold
    · cases Program.eq_error_of_ended he.symm
      have hrole := ht.started.unfinished.1.symm.trans hr'
      cases hs : w.stage with
      | boot point =>
        rw [hconfig]
        exact h.boot_fails ht hs rfl hd
      | fetch point => cases point <;> (rw [hs] at hrole; cases hrole)
      | _ => rw [hs] at hrole; cases hrole
  · have hfetched : Fetched A s l x := by
      rcases Strides.get?_grammars ht.strides hx with hx | ⟨locator, r, hs, hr, rfl⟩
      · exact h.regular.kept (by rw [hb] at hx; exact hx)
      · obtain ⟨_, hgiven⟩ := h.fetch_given ht hs
        rw [hr] at hgiven
        exact hgiven
    obtain ⟨k, pointer, hk, hf, hn⟩ := hfetched
    exact ⟨k, pointer, hk, by rw [hconfig]; exact hf, getElem?_of_prefix hpointers hn⟩
  · obtain ⟨hr', hold | ⟨rfl, result, rfl, he⟩⟩ := ht.ended_cases ho hr hout
    · rw [hconfig]
      exact h.regular.loadFailed hr' hold
    · cases Program.eq_error_of_ended he.symm
      have hrole := ht.started.unfinished.1.symm.trans hr'
      cases hs : w.stage with
      | fetch point =>
        rw [hconfig]
        exact h.load_fails ho ht hs hrole rfl hd
      | _ => rw [hs] at hrole; cases hrole
  · rcases Strides.bound hA ht.strides (by rw [hb]; exact h.world) (by rw [hb]; exact h.config) hbefore hp
      with hold | hbind
    · exact h.regular.bound (by rw [hb] at hold; exact hold)
    · exact hbind
  · refine Strides.parsers ht.strides ht.started (fun hp => ?_) hp
    obtain ⟨l, hl⟩ := h.regular.parsers hp
    exact ⟨l, by rw [hb]; exact hl⟩

/-- Every step keeps it that spares the operations, while the workers are there. -/
theorem step (hA : Answering c A P) (h : Known A P c n s roles) (ho : AtRest s roles)
    (hst : Step s roles mv s' roles') (hsp : SparesOperations s mv)
    (hd : s.workers.dismissed = false) : Known A P c n s' roles' where
  config := (hst.engine_named ho).1.trans h.config
  world := by
    obtain ⟨F, G, hkept⟩ := hA.kept
    exact hst.keeps hkept h.world
  provided := h.provided.step ho hst hsp
  answered := h.answered.step (sure_as hA) ho hst hsp h.world
  regular := by
    rcases hst.aside_or_turn ho with ha | ⟨w, m, turn, ht, rfl, rfl⟩
    · exact h.regular_aside ho hst ha
    · exact regular_turn hA h ho ht hd

end Known

end Service

end SourceTrees
