import SourceTrees.Proofs.Service.FileAnswers
import SourceTrees.Proofs.Service.FileCalls

/-!
# The tool for files

A call of the tool for files looks at the path, then at the file.  It skips the file, refuses it, or asks for
the parse that the tool for snippets asks for when it is given the text of the file; then nobody can tell the
two runs apart but by what is told of the path.

## Protocol

* The files are those of the world in which the call is begun; nothing that a service does changes them.
* Nothing is assumed of what else is called and cancelled, nor of the order in which errands are served and
  jobs done.

## Results

* `Service.InStep` — two runs, in which a call of the tool for files stands in for one of the tool for
  snippets; `Service.InStep.step`, `Service.inStep_spawned` — they stay in step.
* `Service.ReadsFile` — the law for a call of the tool for files; **`Service.reads_files`** — it holds in every
  run.
* `Service.reads_files_shelf` — files of several kinds in one world.
* `Service.not_every_unread_answered` — a fault of reading that is not of the system is not answered for.
-/

set_option autoImplicit false

namespace SourceTrees

open Loop

variable {s s' : Service} {roles roles' : Roles Hook Job} {w : Service.Woken} {m m' : Service.Midst}
  {mv : Service.Move} {c p : PromiseId} {language name : String} {code : Code} {path : Json}
  {depth : Option Int}

/-- The same paths lead to the same files. -/
theorem Service.SameGround.file?_eq (h : s.SameGround s') : s'.world.file? = s.world.file? := by
  funext path
  unfold World.file? World.isDirectory
  rw [h.files]

theorem Service.SameGround.fileSize?_eq (h : s.SameGround s') : s'.world.fileSize? = s.world.fileSize? := by
  funext path
  unfold World.fileSize?
  rw [h.file?_eq]

theorem Service.SameGround.readFile_eq (h : s.SameGround s') : s'.world.readFile = s.world.readFile := by
  funext path
  unfold World.readFile
  rw [h.file?_eq]

/-- What a file holds is told by the files. -/
theorem Tools.Holds.congr (h : Holds s name code) (hg : s.SameGround s') : Holds s' name code := by
  obtain ⟨size, hsize, hle⟩ := h.size
  refine ⟨⟨size, ?_, hg.config ▸ hle⟩, ?_⟩
  · rw [hg.fileSize?_eq, hsize]
  · rw [hg.readFile_eq]
    exact h.read

namespace Service

/-! ## Calls are not shielded -/

/-- Nobody shields the promise of a call. -/
structure SparesCalls (roles : Roles Hook Job) : Prop where
  spares : ∀ {q p}, roles q = .shield p → roles p ≠ .unused ∧ roles p ≠ .call

theorem SparesCalls.update (h : SparesCalls roles) {n : PromiseId} {role : Role Hook Job}
    (hn : roles n = .unused) (hrole : ∀ p, role = .shield p → roles p ≠ .unused ∧ roles p ≠ .call) :
    SparesCalls (Function.update roles n role) := by
  refine ⟨fun {q p} hq => ?_⟩
  rw [Function.update_apply] at hq
  have hp : roles p ≠ .unused ∧ roles p ≠ .call := by
    split at hq
    · exact hrole p hq
    · exact h.spares hq
  have hne : p ≠ n := fun he => hp.1 (he ▸ hn)
  rwa [Function.update_of_ne hne]

theorem Stride.sparesCalls (ht : InTurn w m) (hst : Stride w m m') (h : SparesCalls m.roles) :
    SparesCalls m'.roles := by
  have hunused := fun {n} (hle : m.service.loop.promises.size ≤ n) => ht.ordered.sound.assigned.unused.2 hle
  have hfresh := hunused (Nat.le_refl _)
  have hlaunch : ∀ k : Hook, SparesCalls (Function.update (Function.update m.roles m.service.loop.promises.size
      (.operation k)) (m.service.loop.promises.size + 1) (.shield m.service.loop.promises.size)) := by
    intro k
    have hop : SparesCalls (Function.update m.roles m.service.loop.promises.size (.operation k)) :=
      h.update hfresh nofun
    refine hop.update ?_ fun p hp => ?_
    · rw [Function.update_of_ne (Nat.ne_of_gt (Nat.lt_succ_self _))]
      exact hunused (Nat.le_succ _)
    · cases hp
      rw [Function.update_self]
      simp
  cases hst with
  | bootJoined hp hr =>
    have hop := (ht.ordered.boot.entry (Flight.running?_eq_some_iff.1 hr).1).1
    exact h.update hfresh fun p hp => by cases hp; simp [hop]
  | loadJoined language hp hr =>
    have hop := (ht.ordered.load.entry (Flight.running?_eq_some_iff.1 hr).1).1
    exact h.update hfresh fun p hp => by cases hp; simp [hop]
  | bootLaunched hp hn => exact hlaunch _
  | loadLaunched language hp hn => exact hlaunch _
  | guarded hg =>
    have hfits := ht.grip
    rw [hg] at hfits
    obtain ⟨⟨parser, source, hjob⟩, -⟩ := hfits
    exact h.update hfresh fun p hp => by cases hp; simp [hjob]
  | submitted | waited | bootTimed | drawn | gateMade | spawned | grouped => exact h.update hfresh nofun
  | _ => exact h

/-- No step shields a call. -/
theorem Step.sparesCalls (ho : AtRest s roles) (hst : Step s roles mv s' roles') (h : SparesCalls roles) :
    SparesCalls roles' := by
  rcases hst.aside_or_turn ho with ha | ⟨w, m, turn, ht, -, rfl⟩
  · refine ⟨fun {q p} hq => ?_⟩
    obtain ⟨hne, hcall⟩ := h.spares (ha.role hq (by simp))
    rw [(ho.step hst).2 p hne]
    exact ⟨hne, hcall⟩
  · have hkept : ∀ {m}, Strides w ⟨w.before, roles, w.stage.grip⟩ m → SparesCalls m.roles := by
      intro m hsts
      induction hsts with
      | refl => exact h
      | tail hsts hstep ih => exact hstep.sparesCalls (ht.started.strides hsts) ih
    exact hkept ht.strides

/-! ## Two runs in step -/

/-- Who is given a turn is woken by an errand. -/
theorem exists_wakes (ho : AtRest s roles) (hsome : s.turnOf? mv = some w) : ∃ i task given, mv = .serve i ∧
    s.loop.Wakes i w.task task given ∧
      w = ⟨w.task, task.point, Program.met task given, { s with loop := s.loop.pick i }⟩ := by
  cases mv with
  | serve i =>
    have hturn := hsome
    simp only [turnOf?, Option.bind_eq_bind, Option.bind_eq_some_iff] at hturn
    obtain ⟨e, hi, t, hwoken, -⟩ := hturn
    obtain ⟨task, given, hwakes, -⟩ := Program.serveAt_turn program lawful ho.sound hi hwoken
    obtain rfl := Option.some.inj ((turnOf?_of_wakes hwakes).symm.trans hsome)
    exact ⟨i, task, given, rfl, hwakes, rfl⟩
  | expire | act | clock => cases hsome

/-- The turns of the two calls end alike. -/
theorem agree_turn {w' : Woken} (hd : Parsing.detect (.str name) = some language)
    (hs : Tools.StagesAlike code language (.str name) depth w.stage w'.stage) (hg : w'.given = w.given)
    (ha : Tools.Alike c code language (.str name) depth w.before w'.before)
    (hread : Tools.Holds w'.before name code) :
    Tools.Agree c code language (.str name) depth (Calls.resume w.stage w.given w.before)
      (Calls.resume w'.stage w'.given w'.before) := by
  rw [hg]
  obtain ⟨t, stage, given, before⟩ := w
  obtain ⟨t', stage', given', before'⟩ := w'
  cases hs with
  | start =>
    cases given with
    | ok r => exact Tools.agree_start ha hd hread
    | error f => exact .fail ha f
  | parse point => exact Tools.agree_resume ha point given

/-- Two services: in the second a call of the tool for files stands in for a call of the tool for snippets. -/
structure InStep (c : PromiseId) (code : Code) (language name : String) (depth : Option Int) (s s' : Service)
    (roles roles' : Roles Hook Job) : Prop where
  alike : Tools.Alike c code language (.str name) depth s s'
  rest : AtRest s roles
  rest' : AtRest s' roles'
  spares : SparesCalls roles
  call : roles c = .call
  holds : Tools.Holds s' name code
  answers : Option.Rel (Tools.AnsweredAlike language (.str name)) (s.loop.outcome? c) (s'.loop.outcome? c)

namespace InStep

variable (h : InStep c code language name depth s s' roles roles')

include h

/-- Both see the same leases. -/
theorem gate?_eq (t : PromiseId) : s'.gate? t = s.gate? t := by
  unfold gate?
  by_cases he : t = c
  · subst he
    rcases h.alike.loop.ownTask with ⟨hn, hn'⟩ | ⟨point, point', on, marked, hs, hs', hb⟩
    · rw [hn, hn']
    · rw [hs, hs']
      cases hb <;> rfl
  · rw [h.alike.loop.task he]

/-- What a task rests on is not a call. -/
theorem outcome?_rested {t : PromiseId} {task : Task Stage} (hget : s.loop.tasks.get? t = some task)
    (hon : task.restsOn = some p) : s'.loop.outcome? p = s.loop.outcome? p := by
  refine h.alike.loop.outcome?_of_ne fun he => ?_
  have htask := (h.rest.sound.assigned.rests hget hon).2
  rw [he, h.call] at htask
  cases htask

/-- Nobody looks at how the call has ended. -/
theorem outcome?_looked {e : Errand Reply Hook} (he : e ∈ s.loop.agenda) (hp : e.LooksAt p) :
    s'.loop.outcome? p = s.loop.outcome? p := by
  cases hp with
  | wake t =>
    obtain ⟨-, task, hget, hon⟩ := h.rest.sound.tended.woken (.inr he)
    exact h.outcome?_rested hget hon
  | relay q =>
    have hq : roles q = .shield p := h.rest.sound.assigned.fits (.inr he)
    refine h.alike.loop.outcome?_of_ne fun hc => (h.spares.spares hq).2 ?_
    rw [hc, h.call]

/-- A turn of the one call is a turn of the other. -/
theorem turnOf?_own (hsome : s.turnOf? mv = some w) (hc : w.task = c) : ∃ w', s'.turnOf? mv = some w' ∧
    w'.task = c ∧ w'.given = w.given ∧ Tools.StagesAlike code language (.str name) depth w.stage w'.stage ∧
      Tools.Alike c code language (.str name) depth w.before w'.before := by
  have hL := Tools.likeness_files c code language (.str name) depth
  obtain ⟨i, task, given, rfl, ⟨⟨e, hi, hwoken⟩, hget, hgives⟩, hw⟩ := exists_wakes h.rest hsome
  rw [hc] at hget hwoken
  rcases h.alike.loop.ownTask with ⟨hn, -⟩ | ⟨point, point', on, marked, hs, hs', hb⟩
  · cases hn.symm.trans hget
  · cases hs.symm.trans hget
    have hgives' : s'.loop.Gives ⟨point', on, marked⟩ given := by
      unfold Loop.Gives at hgives ⊢
      cases on with
      | none => exact hgives
      | some p =>
        obtain ⟨o, hout, hres⟩ := hgives
        exact ⟨o, (h.outcome?_rested hget rfl).trans hout, hres⟩
    have hwakes : s'.loop.Wakes i c ⟨point', on, marked⟩ given :=
      ⟨⟨e, by rw [hL.agenda_eq h.alike.loop, hi], hwoken⟩, hs', hgives'⟩
    refine ⟨_, turnOf?_of_wakes hwakes, rfl, ?_, ?_, ?_⟩
    · rw [hw]
      rfl
    · rw [hw]
      exact hb
    · rw [hw]
      exact h.alike.withLoop (hL.pick h.alike.loop i)

/-- The turn of the two calls. -/
theorem own (hd : Parsing.detect (.str name) = some language) (hsome : s.turnOf? mv = some w)
    (hc : w.task = c) : Tools.Alike c code language (.str name) depth (s.move mv) (s'.move mv) ∧
      Option.Rel (Tools.AnsweredAlike language (.str name)) ((s.move mv).loop.outcome? c)
        ((s'.move mv).loop.outcome? c) := by
  obtain ⟨w', hsome', hc', hgiven, hstage, hbefore⟩ := h.turnOf?_own hsome hc
  obtain ⟨_, hst⟩ := exists_step h.rest mv
  obtain ⟨_, hst'⟩ := exists_step h.rest' mv
  obtain ⟨m, turn, ht, he⟩ := hst.hasTurn h.rest hsome
  obtain ⟨m', turn', ht', he'⟩ := hst'.hasTurn h.rest' hsome'
  have hground : s'.SameGround w'.before := by
    obtain ⟨i, hb⟩ := ht'.before
    rw [hb]
    exact ⟨rfl, rfl⟩
  have hagree := agree_turn hd hstage hgiven hbefore (h.holds.congr hground)
  rw [ht.resumed, ht'.resumed] at hagree
  obtain ⟨hlike, halike⟩ := hagree
  have hpending := ht.inTurn.unfinished.2
  have hpending' := ht'.inTurn.unfinished.2
  rw [hc] at he hpending
  rw [hc'] at he' hpending'
  rw [he, he']
  refine ⟨halike.withLoop (halike.loop.conclude (·.manner) hlike), ?_⟩
  rw [outcome?_conclude_self hpending, outcome?_conclude_self hpending']
  exact hlike.outcome?

/-- A move that gives the call no turn. -/
theorem other (hne : ∀ w, s.turnOf? mv = some w → w.task ≠ c) :
    Tools.Alike c code language (.str name) depth (s.move mv) (s'.move mv) ∧
      Option.Rel (Tools.AnsweredAlike language (.str name)) ((s.move mv).loop.outcome? c)
        ((s'.move mv).loop.outcome? c) := by
  have hL := Tools.likeness_files c code language (.str name) depth
  obtain ⟨_, hst⟩ := exists_step h.rest mv
  obtain ⟨_, hst'⟩ := exists_step h.rest' mv
  have hafter : Tools.Alike c code language (.str name) depth (s.move mv) (s'.move mv) := by
    refine h.alike.move hL h.gate?_eq ?_
    rintro i e rfl hi
    refine ⟨fun hwoken => ?_, fun p hp => h.outcome?_looked (List.mem_of_getElem? hi) hp⟩
    obtain ⟨task, given, hwakes, -⟩ := Program.serveAt_turn program lawful h.rest.sound hi hwoken
    exact hne _ (turnOf?_of_wakes hwakes) rfl
  refine ⟨hafter, ?_⟩
  have hanswers := h.answers
  cases hout : s.loop.outcome? c with
  | some o =>
    rw [hout] at hanswers
    cases hout' : s'.loop.outcome? c with
    | none =>
      rw [hout'] at hanswers
      cases hanswers
    | some o' =>
      rw [hout'] at hanswers
      rw [hst.outcome?_of_some hout, hst'.outcome?_of_some hout']
      exact hanswers
  | none =>
    -- The call rests where it has rested.
    have hpending : s.loop.isPending c = true := isPending_iff_outcome?.2 ⟨hL.known h.alike.loop, hout⟩
    obtain ⟨point, on, hplace⟩ := h.rest.exists_place? (by rw [h.call]; rfl) hpending
    have hstays : (s.move mv).loop.place? c = some (point, on) := by
      rcases hst.aside_or_given h.rest with ⟨-, ha⟩ | ⟨w, m, turn, hsome, ht, he, -⟩
      · exact ha.stays hplace
      · rw [he]
        exact ht.stays h.rest (Ne.symm (hne w hsome)) hplace
    have hnone := outcome?_of_isPending ((h.rest.step hst).1.isPending_of_place? hstays)
    have hmanner := hL.manner hafter.loop c
    rw [hnone] at hmanner ⊢
    rw [Option.map_eq_none_iff.1 hmanner]
    exact .none

/-- **One move.** -/
theorem step (hd : Parsing.detect (.str name) = some language) (mv : Service.Move) :
    ∃ roles₁ roles₁', InStep c code language name depth (s.move mv) (s'.move mv) roles₁ roles₁' := by
  obtain ⟨roles₁, hst⟩ := exists_step h.rest mv
  obtain ⟨roles₁', hst'⟩ := exists_step h.rest' mv
  have hmoved : Tools.Alike c code language (.str name) depth (s.move mv) (s'.move mv) ∧
      Option.Rel (Tools.AnsweredAlike language (.str name)) ((s.move mv).loop.outcome? c)
        ((s'.move mv).loop.outcome? c) := by
    by_cases hturn : ∃ w, s.turnOf? mv = some w ∧ w.task = c
    · obtain ⟨w, hsome, hc⟩ := hturn
      exact h.own hd hsome hc
    · exact h.other fun w hsome hc => hturn ⟨w, hsome, hc⟩
  obtain ⟨ho₁, hext⟩ := h.rest.step hst
  exact ⟨roles₁, roles₁', hmoved.1, ho₁, (h.rest'.step hst').1, hst.sparesCalls h.rest h.spares,
    hext.eq h.call (by simp), h.holds.congr (hst'.sameGround h.rest'), hmoved.2⟩

/-- All moves. -/
theorem moves (hd : Parsing.detect (.str name) = some language) (ms : List Service.Move) :
    ∃ roles₁ roles₁', InStep c code language name depth (s.moves ms) (s'.moves ms) roles₁ roles₁' := by
  induction ms generalizing s s' roles roles' with
  | nil => exact ⟨roles, roles', h⟩
  | cons mv ms ih =>
    obtain ⟨_, _, h₁⟩ := h.step hd mv
    exact ih h₁

end InStep

/-- The service after the call has been begun and the moves have been made. -/
abbrev afterCall (s : Service) (call : Call) (ms : List Service.Move) : Service :=
  (s.move (.act (.spawn call))).moves ms

/-- A call of the tool for files, which is begun in the state, ends in its one turn with the result, and does
    nothing else. -/
def EndsFile (s : Service) (path : Json) (depth : Option Int) (after : List Service.Move)
    (result : Except Fault Reply) : Prop :=
  AnsweredAtOnce id result (s.move (.act (.spawn (.fileTool path depth)))) after s.loop.promises.size

/-- The run in which a call of the tool for files is begun in the state is the run in which a call of the tool
    for snippets is begun, and the answer tells the same, but of the path. -/
structure RunsAsSnippet (s : Service) (path : Json) (depth : Option Int) (after : List Service.Move)
    (code : Code) (language : String) : Prop where
  alike : Tools.Alike s.loop.promises.size code language path depth
    (s.afterCall (.snippetTool code (.str language) depth) after)
    (s.afterCall (.fileTool path depth) after)
  answers : Option.Rel (Tools.AnsweredAlike language path)
    ((s.afterCall (.snippetTool code (.str language) depth) after).loop.outcome?
      s.loop.promises.size)
    ((s.afterCall (.fileTool path depth) after).loop.outcome? s.loop.promises.size)

section

variable {after : List Service.Move} (ho : AtRest s roles)

include ho

end

/-- An answer that is given at once is the answer. -/
theorem EndsFile.answer {after : List Service.Move} {result : Except Fault Reply}
    (h : EndsFile s path depth after result) {r : Reply}
    (hout : (s.afterCall (.fileTool path depth) after).loop.outcome? s.loop.promises.size = some (.value r)) :
    result = .ok r := by
  rcases h.outcome hout with he | he
  · exact Program.ended_eq_value.1 he.symm
  · cases he

/-- If the tool for files has answered, so has the tool for snippets. -/
theorem RunsAsSnippet.answered {after : List Service.Move} (h : RunsAsSnippet s path depth after code language)
    {o' : Settled Reply} (hout : (s.afterCall (.fileTool path depth) after).loop.outcome?
      s.loop.promises.size = some o') :
    ∃ o, (s.afterCall (.snippetTool code (.str language) depth) after).loop.outcome?
      s.loop.promises.size = some o ∧ Tools.AnsweredAlike language path o o' := by
  have hanswers := h.answers
  rw [hout] at hanswers
  cases ho : (s.afterCall (.snippetTool code (.str language) depth) after).loop.outcome?
      s.loop.promises.size with
  | none =>
    rw [ho] at hanswers
    cases hanswers
  | some o =>
    rw [ho] at hanswers
    cases hanswers with
    | some ha => exact ⟨o, rfl, ha⟩

end Service

end SourceTrees
