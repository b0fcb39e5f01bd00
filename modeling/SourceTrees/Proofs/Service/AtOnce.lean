import SourceTrees.Proofs.Service.Course

/-!
# Calls that are answered at once

Many calls wait for nothing: the one turn that they have gives the answer, which is told by the configuration
and the files, and what else it does is told beforehand.

## Results

* `Service.SameGround` — the configuration and the files, which nothing changes.
* `Service.EndsAtOnce` — what the one turn does.
* **`Service.answeredAtOnce`** — such a call is answered, unless it is cancelled before its turn, and does
  nothing else, however the run goes on.
-/

set_option autoImplicit false

namespace SourceTrees.Service

open Loop

variable {s s' : Service} {roles roles' : Roles Hook Job} {w : Woken} {m : Midst} {mv : Service.Move}
  {ms : List Service.Move} {c : PromiseId} {turn : Turn Stage Reply} {call : Call} {g : Service → Service}
  {result : Except Fault Reply}

/-- The services have the same configuration, and the same files are there. -/
structure SameGround (s s' : Service) : Prop where
  config : s'.config = s.config
  files : s'.world.files = s.world.files

/-- No step changes the configuration or a file. -/
theorem Step.sameGround (ho : AtRest s roles) (hst : Step s roles mv s' roles') : SameGround s s' :=
  ⟨(hst.engine_named ho).1, hst.keeps (Attempt.keptByWork_files s.world.files) rfl⟩

theorem SameGround.trans {s'' : Service} (h : SameGround s s') (h' : SameGround s' s'') : SameGround s s'' :=
  ⟨h'.config.trans h.config, h'.files.trans h.files⟩

/-- If the move gives the task its turn, the task ends in it with the result, and the service is changed as
    said; or nothing is done at all, since the task was cancelled before. -/
def EndsAtOnce (g : Service → Service) (result : Except Fault Reply) (c : PromiseId) (s : Service)
    (mv : Service.Move) : Prop :=
  ∀ w, s.turnOf? mv = some w → w.task = c →
    s.move mv = program.change (g w.before) (Program.conclude c (.finish result)) ∨
      w.isBarred = true ∧
        s.move mv = program.change w.before (Program.conclude c (.finish (.error .cancellation)))

/-- The call has not had its turn. -/
def AwaitsTurn (s : Service) (ms : List Service.Move) (c : PromiseId) (call : Call) : Prop :=
  (∀ w ∈ taken s ms, w.task ≠ c) ∧ (s.moves ms).loop.place? c = some (.start call, none)

/-- The call has had its one turn, or it was cancelled before. -/
def HasAnswered (s : Service) (ms : List Service.Move) (c : PromiseId) (o : Settled Reply) : Prop :=
  (s.moves ms).loop.outcome? c = some o ∨ (s.moves ms).loop.outcome? c = some .cancelled ∧ Barred s ms c

/-- The law for a call that is answered at once, from its beginning on. -/
structure AnsweredAtOnce (g : Service → Service) (result : Except Fault Reply) (s : Service)
    (ms : List Service.Move) (c : PromiseId) : Prop where
  /-- The call is on its way to its one turn, or it has the answer, unless it was cancelled. -/
  ends : (∀ w ∈ taken s ms, w.task ≠ c) ∧ .step c ∈ (s.moves ms).loop.agenda ∧
      (s.moves ms).loop.isPending c = true ∨ HasAnswered s ms c (Program.ended result)
  /-- In its turn it does nothing else. -/
  alone : Along (EndsAtOnce g result c) s ms

/-- A call with an answer has this answer, or it was cancelled. -/
theorem AnsweredAtOnce.outcome {o : Settled Reply} (h : AnsweredAtOnce g result s ms c)
    (hout : (s.moves ms).loop.outcome? c = some o) : o = Program.ended result ∨ o = .cancelled := by
  rcases h.ends with ⟨_, _, hpending⟩ | hanswer | ⟨hcancelled, _⟩
  · rw [isPending_of_outcome? hout] at hpending
    cases hpending
  · exact .inl (Option.some.inj (hout.symm.trans hanswer))
  · exact .inr (Option.some.inj (hout.symm.trans hcancelled))

/-! ## The one turn -/

/-- The one turn of the call. -/
theorem HasTurn.endsAtOnce (ht : HasTurn s roles w m turn) (hs : w.stage = .start call)
    (hcall : Calls.start call w.before = (.finish result, g w.before)) :
    m.after w.task turn = program.change (g w.before) (Program.conclude w.task (.finish result)) ∧
        (m.after w.task turn).loop.outcome? w.task = some (Program.ended result) ∨
      w.isBarred = true ∧
        m.after w.task turn =
          program.change w.before (Program.conclude w.task (.finish (.error .cancellation))) ∧
          (m.after w.task turn).loop.outcome? w.task = some .cancelled := by
  have hturn := ht.resumed
  have hpending := ht.inTurn.unfinished.2
  rcases ht.given_of_start hs with hg | hg
  · have hstart : Calls.resume (.start call) (.ok default) w.before = (.finish result, g w.before) := hcall
    rw [hs, hg, hstart] at hturn
    obtain ⟨rfl, hm⟩ := Prod.mk.inj hturn
    refine .inl ⟨?_, outcome?_finish hpending _⟩
    rw [Midst.after, ← hm]
    rfl
  · rw [hs, hg] at hturn
    obtain ⟨rfl, hm⟩ := Prod.mk.inj hturn
    refine .inr ⟨by rw [Woken.isBarred, hs, hg]; rfl, ?_, outcome?_finish hpending _⟩
    rw [Midst.after, ← hm]
    rfl

section

variable (ho : AtRest (s.moves ms) roles)
  (hst : Step (s.moves ms) roles mv (s.moves (ms ++ [mv])) roles')

include ho hst

/-- A move takes the call to its end, or leaves it where it is. -/
theorem AwaitsTurn.step (h : AwaitsTurn s ms c call)
    (hcall : ∀ i, Calls.start call { s.moves ms with loop := (s.moves ms).loop.pick i } =
      (.finish result, g { s.moves ms with loop := (s.moves ms).loop.pick i })) :
    EndsAtOnce g result c (s.moves ms) mv ∧
      (AwaitsTurn s (ms ++ [mv]) c call ∨ HasAnswered s (ms ++ [mv]) c (Program.ended result)) := by
  obtain ⟨hnone, hplace⟩ := h
  have hmove : (s.moves ms).move mv = s.moves (ms ++ [mv]) := (moves_append s ms [mv]).symm
  rcases hst.aside_or_given ho with ⟨hidle, ha⟩ | ⟨w, m, turn, hsome, ht, he, _⟩
  · refine ⟨fun w hw => (nomatch hidle.symm.trans hw), .inl ⟨?_, ha.stays hplace⟩⟩
    rw [taken_snoc, hidle]
    simpa using hnone
  · have hgiven : ∀ w', (s.moves ms).turnOf? mv = some w' → w' = w := fun w' hw' =>
      Option.some.inj (hw'.symm.trans hsome)
    by_cases hc : w.task = c
    · subst hc
      obtain ⟨on, hwplace⟩ := ht.place
      obtain ⟨hs, _⟩ := Prod.mk.inj (Option.some.inj (hwplace.symm.trans hplace))
      obtain ⟨i, hbefore⟩ := ht.before
      have hends := ht.endsAtOnce hs (hbefore ▸ hcall i)
      rw [show m.after w.task turn = s.moves (ms ++ [mv]) from he.symm, ← hmove] at hends
      rcases hends with ⟨hmoved, hout⟩ | ⟨hbarred, hmoved, hout⟩
      · refine ⟨fun w' hw' _ => ?_, .inr (.inl (hmove ▸ hout))⟩
        rw [hgiven w' hw']
        exact .inl hmoved
      · refine ⟨fun w' hw' _ => ?_, .inr (.inr ⟨hmove ▸ hout, w, mem_taken hsome, rfl, hbarred⟩)⟩
        rw [hgiven w' hw']
        exact .inr ⟨hbarred, hmoved⟩
    · refine ⟨fun w' hw' hc' => absurd (hgiven w' hw' ▸ hc') hc, .inl ⟨fun w' hw' => ?_, ?_⟩⟩
      · rw [taken_snoc, hsome] at hw'
        rcases List.mem_append.1 hw' with hw' | hw'
        · exact hnone w' hw'
        · rw [List.mem_singleton.1 hw']
          exact hc
      · rw [he]
        exact ht.stays ho (Ne.symm hc) hplace

/-- A call that has ended has no other turn. -/
theorem HasAnswered.step {o : Settled Reply} (h : HasAnswered s ms c o) :
    EndsAtOnce g result c (s.moves ms) mv ∧ HasAnswered s (ms ++ [mv]) c o := by
  have hidle : ∀ {o}, (s.moves ms).loop.outcome? c = some o → EndsAtOnce g result c (s.moves ms) mv := by
    intro o hout w hsome hc
    obtain ⟨m, turn, ht, -⟩ := hst.hasTurn ho hsome
    obtain ⟨on, hplace⟩ := ht.place
    have hpending := ho.isPending_of_place? hplace
    rw [hc, isPending_of_outcome? hout] at hpending
    cases hpending
  rcases h with hout | ⟨hout, w, hw, hbarred⟩
  · exact ⟨hidle hout, .inl (hst.outcome?_of_some hout)⟩
  · refine ⟨hidle hout, .inr ⟨hst.outcome?_of_some hout, w, ?_, hbarred⟩⟩
    rw [taken_snoc]
    exact List.mem_append_left _ hw

end

/-! ## Runs -/

/-- **A call that begins alike wherever the configuration and the files are the same, and ends where it begins,
    is answered at once.** -/
theorem answeredAtOnce (hcall : ∀ s', SameGround s s' → Calls.start call s' = (.finish result, g s'))
    (ho : AtRest s roles) (hplace : s.loop.place? c = some (.start call, none)) (ms : List Service.Move) :
    AnsweredAtOnce g result s ms c := by
  have hnever : ∀ w ∈ taken s [], w.task ≠ c := fun w hw => by cases hw
  have hstep : ∀ {ms roles roles' mv}, AtRest (s.moves ms) roles → AtRest (s.moves (ms ++ [mv])) roles' →
      True → SameGround s (s.moves ms) ∧ Along (EndsAtOnce g result c) s ms ∧
        (AwaitsTurn s ms c call ∨ HasAnswered s ms c (Program.ended result)) →
      Step (s.moves ms) roles mv (s.moves (ms ++ [mv])) roles' →
      SameGround s (s.moves (ms ++ [mv])) ∧ Along (EndsAtOnce g result c) s (ms ++ [mv]) ∧
        (AwaitsTurn s (ms ++ [mv]) c call ∨ HasAnswered s (ms ++ [mv]) c (Program.ended result)) := by
    intro ms roles roles' mv ho _ _ ⟨hground, halone, hends⟩ hst
    have hnext : EndsAtOnce g result c (s.moves ms) mv ∧ _ := hends.elim
      (·.step ho hst fun i => hcall _ ⟨hground.config, hground.files⟩) fun h => (h.step ho hst).imp_right .inr
    exact ⟨hground.trans (hst.sameGround ho), (along_append ms [mv]).2 ⟨halone, hnext.1, trivial⟩, hnext.2⟩
  obtain ⟨_, ho', -, halone, hends⟩ := exists_course (A := fun _ _ => True) (I := fun ms _ _ =>
      SameGround s (s.moves ms) ∧ Along (EndsAtOnce g result c) s ms ∧
        (AwaitsTurn s ms c call ∨ HasAnswered s ms c (Program.ended result))) ho
    ⟨⟨rfl, rfl⟩, trivial, .inl ⟨hnever, hplace⟩⟩ hstep ms (along_of_forall (fun _ _ => trivial) ms)
  refine ⟨?_, halone⟩
  rcases hends with ⟨hnone, hwaits⟩ | hanswer
  · obtain ⟨task, hget, _, hon⟩ := place?_eq_some_iff.1 hwaits
    exact .inl ⟨hnone, ho'.sound.tended.ready nofun hget hon, ho'.isPending_of_place? hwaits⟩
  · exact .inr hanswer

end SourceTrees.Service
