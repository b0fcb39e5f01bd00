import SourceTrees.Proofs.Service.Elsewhere
import SourceTrees.Proofs.Service.Remnant
import SourceTrees.Proofs.Service.Remote

/-!
# The turns of calls that are for no language

Such a call has one turn in which something is done that both services must do alike, if anything: availability
is looked up.  A warm-up then asks for parsers; what it asks for the language is asked for in the second
service too, by calls.

## Results

* `Service.Idly`, `Service.ClosesAtEnd` — most of these calls finish at once and do nothing, or close the service.
* `Service.Parts` — what comes of the one turn, and of what is left of it.
* **`Service.Beside.parts`** — the turns of calls for no language leave services beside each other.
-/

set_option autoImplicit false

namespace SourceTrees

open Loop Work

/-- Does the call look up availability? -/
def Call.looks : Call → Bool
  | warm _ | check _ | enter => true
  | _ => false

namespace Service

variable {P Q α β : Type} {V : View} {k : Bond} {s s' : Service} {given : Except Fault Reply} {call : Call}
  {f f' : Work (Turn P α)} {engine : String}

/-! ## Calls that do nothing -/

/-- The turn finishes, and changes nothing but what is counted and logged. -/
def Idly (f : Work (Turn P α)) (s : Service) : Prop :=
  ∃ x counts dismissals log, f s =
    (.finish x, { s with counts, log, workers := { s.workers with dismissals } })

/-- The turn closes the service, and does nothing else. -/
def ClosesAtEnd (f : Work (Turn P α)) : Prop :=
  ∀ s, ((f s).2.workers.dismissed = false → CannotClose s) ∧ (CannotClose s → Idly f s)

theorem closes_bind {g : Except Fault Unit → Work (Turn P α)} (hg : ∀ r s, ∃ x, g r s = (.finish x, s)) :
    ClosesAtEnd (close >>= g) := by
  intro s
  refine ⟨fun hopen => cannotClose ?_, fun h => ?_⟩
  · obtain ⟨x, hx⟩ := hg (close s).1 (close s).2
    rw [run_bind, hx] at hopen
    exact hopen
  · obtain ⟨r, dismissals, log, he⟩ := h.close
    obtain ⟨x, hx⟩ := hg r { s with workers := { s.workers with dismissals }, log }
    exact ⟨x, s.counts, dismissals, log, by rw [run_bind, he]; exact hx⟩

theorem closes_get {f : Service → Work (Turn P α)} (h : ∀ s, ClosesAtEnd (f s)) : ClosesAtEnd (get >>= f) :=
  fun s => h s s

theorem ClosesAtEnd.logged (h : ClosesAtEnd f) (line : LogLine) : ClosesAtEnd (Work.log line >>= fun _ => f) := by
  intro s
  obtain ⟨hopen, hidly⟩ := h { s with log := s.log ++ [line] }
  refine ⟨hopen, fun hs => ?_⟩
  obtain ⟨x, counts, dismissals, log, he⟩ := hidly hs
  exact ⟨x, counts, dismissals, log, he⟩

theorem closes_close : ClosesAtEnd (Calls.start .close) := by
  unfold Calls.start
  dsimp only
  exact closes_get fun _ => closes_bind fun r _ => by cases r <;> exact ⟨_, rfl⟩

theorem closes_leave (f : Option Fault) : ClosesAtEnd (Calls.leave f) := by
  unfold Calls.leave
  cases f with
  | none => exact closes_bind fun r _ => by cases r <;> exact ⟨_, rfl⟩
  | some f =>
    dsimp only
    split
    · refine ClosesAtEnd.logged ?_ _
      exact closes_bind fun r _ => by cases r <;> exact ⟨_, rfl⟩
    · exact closes_bind fun r _ => by cases r <;> exact ⟨_, rfl⟩

theorem closes_entered (f : Fault) : ClosesAtEnd (Calls.entered (.error f)) := by
  unfold Calls.entered
  dsimp only
  split
  · refine ClosesAtEnd.logged ?_ _
    exact closes_bind fun r _ => by cases r <;> exact ⟨_, rfl⟩
  · exact closes_bind fun r _ => by cases r <;> exact ⟨_, rfl⟩

theorem Beside.idly (h : Beside V k s s') (hf : Idly f s) (hf' : Idly f' s') :
    ∃ x x' s₁ s₁', f s = (.finish x, s₁) ∧ f' s' = (.finish x', s₁') ∧ Beside V k s₁ s₁' := by
  obtain ⟨x, counts, dismissals, log, he⟩ := hf
  obtain ⟨x', counts', dismissals', log', he'⟩ := hf'
  exact ⟨x, x', _, _, he, he', h.loop, { h.tables with }, h.worlds⟩

/-- Closing does nothing in either service. -/
theorem Beside.closes (h : Beside V k s s') (hf : ClosesAtEnd f) (hopen : (f s).2.workers.dismissed = false) :
    Idly f s ∧ Idly f s' := by
  have hs := (hf s).1 hopen
  refine ⟨(hf s).2 hs, (hf s').2 fun hholds => ?_⟩
  rw [h.tables.stuck]
  exact hs (h.tables.holds ▸ hholds)

theorem idly_start (hready : s.engine? = .ok engine) (hv : call.language? = none) (hlooks : call.looks = false)
    (hcloses : call.closes = false) : Idly (Calls.start call) s := by
  have hsame : ∀ {x}, Calls.start call s = (.finish x, s) → Idly (Calls.start call) s := fun he =>
    ⟨_, s.counts, s.workers.dismissals, s.log, he⟩
  have hundetected : ∀ {path : Json}, (Parsing.detect path).map Json.str = none →
      Parsing.detect path = none := Option.map_eq_none_iff.1
  cases call with
  | init =>
    refine hsame (x := .ok .nothing) ?_
    simp [Calls.start, run_bind, attachBoot_eq hready]
    rfl
  | parseFile code path =>
    have hd := hundetected hv
    have he : Tools.parseAs .tree code path = count (fun c =>
        { c with parses := { c.parses with skipped := c.parses.skipped + 1 } }) >>= fun _ => done .nothing := by
      simp [Tools.parseAs, hd]
    have hidly : Idly (Tools.parseAs .tree code path) s := he ▸ ⟨_, _, s.workers.dismissals, s.log, rfl⟩
    exact hidly
  | fileTool path depth =>
    have hd := hundetected hv
    refine hsame (x := .ok (.text (Tools.skippedDocument path))) ?_
    show Tools.parseFile path depth s = _
    simp [Tools.parseFile, hd]
    rfl
  | isLoaded language => cases language <;> exact hsame rfl
  | close | leave | enter => cases hcloses
  | warm | check => cases hlooks
  | parse | load | getParser | lease | snippetTool => cases hv
  | _ => exact hsame rfl

/-! ## Requests for parsers -/

/-- What a warm-up has made when it waits for languages: a task for each, and a group.  The tasks for the language
    are left. -/
abbrev View.asked (V : View) (languages : List Json) : List Bool := languages.map (·.isFor V.language) ++ [false]

/-- A parser is asked for by a task of a warm-up; for the language, by a call too. -/
theorem Beside.ask (h : Beside V k s s') (v : Json) :
    Beside V { k with names := k.names.extend [v.isFor V.language] }
        { s with loop := (s.loop.spawn (.start (.getParser v))).2 } (s'.moves (ownRequests V.language [v])) ∧
      ((∃ t', (k.names.extend [v.isFor V.language]).Links s.loop.promises.size t') ∨
        (k.names.extend [v.isFor V.language]).Unnamed s.loop.promises.size) := by
  cases hv : v.isFor V.language with
  | true =>
    obtain rfl := Json.isFor_iff.1 hv
    have hpoint : (kinds V k).point (.start (.getParser (.str V.language)))
        (.start (.getParser (.str V.language))) := by
      show Stage.Match _ _ _ _ _ _
      exact .start rfl fun name hname => (Json.str.inj hname).symm
    refine ⟨?_, .inl ⟨s'.loop.promises.size, h.loop.promise_links⟩⟩
    rw [ownRequests, List.filter_cons_of_pos hv]
    exact h.withLoop k.names.le_push (h.loop.spawn hpoint)
  | false =>
    have hne : v ≠ .str V.language := fun he => by simp [Json.isFor_iff.2 he] at hv
    have hpoint : (kinds V k).away (.start (.getParser v)) := by
      show Stage.Away _ _ _
      exact .start rfl hne
    refine ⟨?_, .inr h.loop.promise_unnamed⟩
    rw [ownRequests, List.filter_cons_of_neg (by simp [hv])]
    exact h.withFirst k.names.le_grow (h.loop.spawnStray hpoint)

theorem ownRequests_cons (language : String) (v : Json) (languages : List Json) :
    ownRequests language (v :: languages) = ownRequests language [v] ++ ownRequests language languages := by
  rw [ownRequests, ownRequests, ownRequests, ← List.map_append, ← List.filter_append]
  rfl

/-- Parsers are asked for, one after the other. -/
theorem Beside.askAll (languages : List Json) : ∀ {k : Bond} {s s' : Service}, Beside V k s s' →
    ∀ {members s₁}, languages.mapM (fun l => onLoop (·.spawn (.start (.getParser l)))) s = (members, s₁) →
      Beside V { k with names := k.names.extend (languages.map (·.isFor V.language)) } s₁
          (s'.moves (ownRequests V.language languages)) ∧
        ∀ t ∈ members, (∃ t', (k.names.extend (languages.map (·.isFor V.language))).Links t t') ∨
          (k.names.extend (languages.map (·.isFor V.language))).Unnamed t := by
  induction languages with
  | nil =>
    intro k s s' h members s₁ he
    cases he
    exact ⟨h, nofun⟩
  | cons v languages ih =>
    intro k s s' h members s₁ he
    rw [List.mapM_cons, run_bind] at he
    obtain ⟨hasked, hfirst⟩ := h.ask v
    obtain ⟨members', s₂, he'⟩ : ∃ members' s₂, languages.mapM
        (fun l => onLoop (·.spawn (.start (.getParser l))))
        { s with loop := (s.loop.spawn (.start (.getParser v))).2 } = (members', s₂) := ⟨_, _, rfl⟩
    obtain ⟨hrest, hmembers⟩ := ih hasked he'
    rw [ownRequests_cons, moves_append, List.map_cons, ← List.singleton_append (l := List.map _ languages),
      Names.extend_append]
    have hsame : (members, s₁) = (s.loop.promises.size :: members', s₂) := by
      rw [← he]
      show (languages.mapM (fun l => onLoop (·.spawn (.start (.getParser l)))) >>= fun ts =>
        (Pure.pure (s.loop.promises.size :: ts) : Work (List PromiseId)))
          { s with loop := (s.loop.spawn (.start (.getParser v))).2 } = _
      rw [run_bind, he']
      rfl
    obtain ⟨rfl, rfl⟩ := Prod.mk.inj hsame
    refine ⟨hrest, fun t ht => ?_⟩
    rcases List.mem_cons.1 ht with rfl | ht
    · exact hfirst.imp (fun ⟨t', hl⟩ => ⟨t', (Names.le_extend _ _).links hl⟩) (Names.le_extend _ _).unnamed
    · exact hmembers t ht

/-- What comes of two turns of which the second is what is left of the first.  The second finishes.  So does the
    first, or it waits for what it has asked for, if it may, and for the language the same is to be asked for in
    the second service. -/
inductive Parts (V : View) (k : Bond) (M : Prop) (A : P → List Json → Prop) :
    Turn P α × Service → Turn Stage Reply × Service → Prop
  | finish {x : Except Fault α} {x' : Except Fault Reply} {s s' : Service} (h : Beside V k s s') :
      Parts V k M A (.finish x, s) (.finish x', s')
  | rest {g : PromiseId} {point : P} {languages : List Json} {x' : Except Fault Reply} {s s' : Service} (hm : M)
      (hg : (k.names.extend (V.asked languages)).Unnamed g) (ha : A point languages)
      (h : Beside V { k with names := k.names.extend (V.asked languages) } s
        (s'.moves (ownRequests V.language languages))) :
      Parts V k M A (.rest g point, s) (.finish x', s')

/-- The warm-up waits for these languages. -/
def GathersFor (point : WarmStage) (languages : List Json) : Prop := ∃ members, point = .gathering languages members

theorem Beside.parts_gather (h : Beside V k s s') (languages : List Json) (x' : Except Fault Reply) :
    Parts V k True GathersFor (Warmup.gather languages s) (.finish x', s') := by
  unfold Warmup.gather
  split
  · exact .finish h
  obtain ⟨members, s₁, he⟩ : ∃ members s₁, languages.mapM
      (fun l => onLoop (·.spawn (.start (.getParser l)))) s = (members, s₁) := ⟨_, _, rfl⟩
  obtain ⟨hasked, hmembers⟩ := h.askAll languages he
  have hgroup := hasked.withFirst (Names.le_grow _) (hasked.loop.group hmembers)
  have hunnamed := hasked.loop.promise_unnamed
  rw [run_bind, he]
  have hgathers : GathersFor (.gathering languages members) languages := ⟨members, rfl⟩
  refine .rest trivial ?_ hgathers ?_
  · rw [View.asked, Names.extend_append]
    exact hunnamed
  · rw [View.asked, Names.extend_append]
    exact hgroup

/-- Availability is looked up in both. -/
theorem Beside.probe (h : Beside V k s s') (hx : V.Independent) (table : LocatorTable) :
    Beside V k { s with world := ((Warmup.availability table).run s.world).2 }
      { s' with world := ((Warmup.availability table).run s'.world).2 } :=
  ⟨h.loop, { h.tables with }, h.worlds.probe hx table⟩

/-- A warm-up is asked for; availability is looked up in the second service. -/
theorem Beside.parts_request (h : Beside V k s s') (hx : V.Independent) (languages : Option (List Json)) :
    Parts V k True GathersFor (Warmup.request languages s) (Calls.start (.check (some V.config.locators)) s') := by
  have hprobed := h.probe hx V.config.locators
  have hlooked : ∃ x', Calls.start (.check (some V.config.locators)) s' =
      (.finish x', { s' with world := ((Warmup.availability V.config.locators).run s'.world).2 }) := ⟨_, rfl⟩
  obtain ⟨x', hlooked⟩ := hlooked
  rw [hlooked]
  cases hr : (Warmup.availability V.config.locators).run s.world with
  | mk r w =>
  rw [hr] at hprobed
  have hlogged : ∀ log, Beside V k { s with world := w, log }
      { s' with world := ((Warmup.availability V.config.locators).run s'.world).2 } := hprobed.noted s.counts
  have hwhere : (Warmup.availability s.config.locators).run s.world = (r, w) := by rw [h.tables.config, hr]
  cases r with
  | error f =>
    have hrun : Warmup.request languages s = (.finish (.error f), { s with
        world := w, log := s.log ++ [.info "Checking Tree-sitter grammar availability..."] }) := by
      simp [Warmup.request, Work.log, attempt, hwhere]
      rfl
    rw [hrun]
    exact .finish (hlogged _)
  | ok found =>
    have hrun : Warmup.request languages s = Warmup.gather (languages.getD (s.config.preload.map .str)) { s with
        world := w
        log := s.log ++ [.info "Checking Tree-sitter grammar availability..."] ++
          [Warmup.availabilityLine found] } := by
      have hboot : ∀ log, Boot.attach { s with world := w, log } = (none, { s with world := w, log }) :=
        fun _ => attachBoot_eq (hlogged _).tables.ready
      simp [Warmup.request, Work.log, attempt, hwhere, hboot]
      rfl
    rw [hrun]
    exact (hlogged _).parts_gather _ _

theorem Beside.parts_idly {M : Prop} {A : P → List Json → Prop} (h : Beside V k s s') (hf : Idly f s)
    (x' : Except Fault Reply) : Parts V k M A (f s) (.finish x', s') := by
  obtain ⟨x, counts, dismissals, log, he⟩ := hf
  rw [he]
  exact .finish ⟨h.loop, { h.tables with }, h.worlds⟩

/-- A part of a call ends, or the call waits where the part does. -/
theorem Parts.andThen {M M' : Prop} {A : P → List Json → Prop} {B : Q → List Json → Prop} (turn : Turn P α)
    {s₁ : Service} {second : Turn Stage Reply × Service} {wrap : P → Q} {next : Except Fault α → Work (Turn Q β)}
    (h : Parts V k M A (turn, s₁) second) (hm : M') (hwrap : ∀ {a languages}, A a languages → B (wrap a) languages)
    (hnext : ∀ {x x' s'}, turn = .finish x → second = (.finish x', s') → Beside V k s₁ s' →
      Parts V k M' B (next x s₁) (.finish x', s')) :
    Parts V k M' B (Work.andThen turn wrap next s₁) second := by
  cases h with
  | finish h => exact hnext rfl rfl h
  | rest _ hg ha h => exact .rest hm hg (hwrap ha) h

/-- The task waits for these languages. -/
def WaitsFor (stage : Stage) (languages : List Json) : Prop := stage.gathers? = some languages

theorem Beside.parts_start (h : Beside V k s s') (hx : V.Independent) (hv : call.language? = none)
    (hopen : (Calls.start call s).2.workers.dismissed = false) :
    Parts V k (call.probing V.config = .check (some V.config.locators)) WaitsFor (Calls.start call s)
      (Calls.start (call.probing V.config) s') := by
  have hidle : ∀ {M : Prop}, Idly (Calls.start call) s ∧ Idly (Calls.start call) s' →
      Parts V k M WaitsFor (Calls.start call s) (Calls.start call s') := by
    rintro M ⟨hf, hf'⟩
    obtain ⟨x, x', s₁, s₁', he, he', h₁⟩ := h.idly hf hf'
    rw [he, he']
    exact .finish h₁
  cases call with
  | warm languages =>
    have hr := h.parts_request hx languages
    show Parts V k _ WaitsFor
      (Calls.replying (Warmup.request languages s).1 .warm .flag (Warmup.request languages s).2) _
    refine Parts.andThen (Warmup.request languages s).1 hr rfl ?_ fun _ _ h₁ => .finish h₁
    rintro _ _ ⟨members, rfl⟩
    rfl
  | enter =>
    have hr := h.parts_request hx none
    refine Parts.andThen (Warmup.request none s).1 hr rfl ?_ fun {x x' s₁'} hturn _ h₁ => ?_
    · rintro _ _ ⟨members, rfl⟩
      rfl
    have hdone : Calls.start .enter s = Calls.entered x (Warmup.request none s).2 := by
      show Work.andThen (Warmup.request none s).1 _ _ _ = _
      rw [hturn]
      rfl
    rw [hdone] at hopen
    refine h₁.parts_idly ?_ x'
    cases x with
    | ok all => cases all <;> exact ⟨_, _, _, _, rfl⟩
    | error f => exact (closes_entered f _).2 ((closes_entered f _).1 hopen)
  | check table => exact .finish (h.probe hx _)
  | close => exact hidle (h.closes closes_close hopen)
  | leave f => exact hidle (h.closes (closes_leave f) hopen)
  | _ => exact hidle ⟨idly_start h.tables.ready hv rfl rfl, idly_start h.tables.ready' hv rfl rfl⟩

/-- **The turns of a call for no language, and of what is left of it, leave the services beside each other.** -/
theorem Beside.parts (h : Beside V k s s') (hx : V.Independent) (hv : call.language? = none)
    (hopen : (Calls.resume (.start call) given s).2.workers.dismissed = false) :
    Parts V k (call.probing V.config = .check (some V.config.locators)) WaitsFor (Calls.resume (.start call) given s)
      (Calls.resume (.start (call.probing V.config)) given s') := by
  cases given with
  | ok r => exact h.parts_start hx hv hopen
  | error f => exact .finish h

end Service

end SourceTrees
