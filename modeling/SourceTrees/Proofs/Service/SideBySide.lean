import SourceTrees.Proofs.Service.Mirrored
import SourceTrees.Proofs.Service.Unaddressed
import SourceTrees.Proofs.Service.Whole

/-!
# Moves, side by side

A move is made in a service, and what is left of it in the one beside it.  They go on to stand beside each
other.

## Protocol

* An errand that concerns linked promises is served in both services, one that concerns strays in the first.  A
  call for no language has its turn in both.
* A job is done in both if its promise is linked.

## Results

* `Service.Beside.serveLinked`, `Service.Beside.serveStray`, `Service.Beside.serveFree` — errands.
* `Service.Beside.release`, `Service.Beside.cancel`, `Service.Beside.endLease` — actions.
* **`Service.Beside.move`** — moves that begin no call; `Service.Beside.spawn` — those that do.
-/

set_option autoImplicit false

namespace SourceTrees.Service

open Loop

variable {V : View} {k : Bond} {s s' : Service} {t t' p p' : PromiseId} {given given' : Except Fault Reply}
  {e e' : Errand Reply Hook} {roles : Roles Hook Job} {l : Loop Reply Stage Hook} {task : Task Stage}

/-! ## Turns -/

/-- What tasks meet that correspond. -/
theorem resultsMatch_met {R : Reply → Reply → Prop} {task task' : Task Stage} (hm : task'.marked = task.marked)
    (h : ResultsMatch R given given') : ResultsMatch R (Program.met task given) (Program.met task' given') := by
  cases h with
  | ok h =>
    unfold Program.met
    dsimp only
    rw [hm]
    split
    · exact .error _
    · exact .ok h
  | error f =>
    unfold Program.met
    dsimp only
    rw [hm]
    split <;> exact .error _

/-- A linked task has its turn in both services. -/
theorem Beside.stepLinked (h : Beside V k s s') (hx : V.Independent) (ht : k.names.Links t t')
    (hgiven : ResultsMatch (Reply.Match k.Grammars k.Parsers) given given') :
    ∃ k₁, (pairing V).le k k₁ ∧ Beside V k₁ (program.stepTask t given s) (program.stepTask t' given' s') := by
  have htask : Option.Rel (Task.Match k.names (kinds V k)) ((program.loop s).tasks.get? t)
      ((program.loop s').tasks.get? t') := h.loop.tasks.linked ht
  unfold Program.stepTask
  generalize (program.loop s).tasks.get? t = x at htask ⊢
  generalize (program.loop s').tasks.get? t' = x' at htask ⊢
  cases htask with
  | none => exact ⟨k, grows.refl k, h⟩
  | @some task task' htask =>
    obtain ⟨k₁, hle, hturn, h₁⟩ := Calls.mirrors_resume (pairing_lawful hx) htask.point
      (resultsMatch_met htask.marked hgiven) h
    exact ⟨k₁, hle, h₁.withLoop (.refl _) (h₁.loop.conclude (hle.1.names.links ht) hturn)⟩

theorem away_of_aloof {turn : Turn Stage Reply} (h : Calls.aloof V k.names turn) :
    turn.Away k.names (kinds V k) := by
  cases turn with
  | rest p point => exact .rest h.1 h.2
  | giveWay point => cases h
  | finish x => exact .finish x

/-- A stray has its turn in the first service. -/
theorem Beside.stepStray (h : Beside V k s s') (ht : k.names.Strays t)
    (hopen : (program.stepTask t given s).workers.dismissed = false) :
    ∃ m, Beside V { k with names := Names.grow^[m] k.names } (program.stepTask t given s) s' := by
  unfold Program.stepTask at hopen ⊢
  cases htask : (program.loop s).tasks.get? t with
  | none => exact ⟨0, h⟩
  | some task =>
    rw [htask] at hopen
    obtain ⟨m, hturn, h₁⟩ := Calls.skips_resume (h.loop.tasks.stray ht htask).point h hopen
    refine ⟨m, h₁.withFirst (.refl _) (h₁.loop.concludeStray ((le_iterate_grow k.names m).strays ht) ?_)⟩
    exact away_of_aloof hturn

/-! ## Errands -/

/-- A promise is settled in both services. -/
theorem Beside.settle (h : Beside V k s s') (hp : k.names.Links p p') {o o' : Settled Reply}
    (ho : o.Match (Reply.Match k.Grammars k.Parsers) o') :
    Beside V k (program.change s (·.settle p o)) (program.change s' (·.settle p' o')) :=
  h.withLoop (.refl _) (h.loop.settle hp ho)

theorem Beside.settleStray (h : Beside V k s s') (hp : k.names.Strays p) (o : Settled Reply) :
    Beside V k (program.change s (·.settle p o)) s' :=
  h.withFirst (.refl _) (h.loop.settleStray hp o)

theorem resultsMatch_result {R : Reply → Reply → Prop} {o o' : Settled Reply} (h : o.Match R o') :
    ResultsMatch R o.result o'.result := by
  cases h with
  | value h => exact .ok h
  | failed f => exact .error f
  | cancelled => exact .error _

theorem match_ofResult {R : Reply → Reply → Prop} (h : ResultsMatch R given given') :
    (Settled.ofResult given).Match R (Settled.ofResult given') := by
  cases h with
  | ok h => exact .value h
  | error f => exact .failed f

theorem get?_forget (f : Flight String) (key : String) (op : PromiseId) (other : String) :
    (f.forget key op).entries.get? other =
      if other = key ∧ f.entries.get? key = some op then none else f.entries.get? other := by
  unfold Flight.forget
  by_cases hop : f.entries.get? key = some op
  · rw [if_pos hop, Keyed.get?_erase]
    simp [hop]
  · rw [if_neg hop, if_neg fun h => hop h.2]

/-- The flight of loads has changed in the first service, but for the language. -/
theorem Beside.forgetOther (h : Beside V k s s') {other : String}
    (hp : s.grammarFlight.entries.get? V.language ≠ some p) :
    Beside V k (Calls.react (.grammar other) p s) s' := by
  refine ⟨h.loop, { h.tables with load := ?_, loads := fun {l op} hne hop => ?_ }, h.worlds⟩
  · show Option.Rel _ ((s.grammarFlight.forget other p).entries.get? V.language) _
    rw [get?_forget, if_neg]
    · exact h.tables.load
    · rintro ⟨rfl, he⟩
      exact hp he
  · replace hop : (s.grammarFlight.forget other p).entries.get? l = some op := hop
    rw [get?_forget] at hop
    split at hop
    · cases hop
    · exact h.tables.loads hne hop

/-- The end of the load is told to the flights of both services. -/
theorem Beside.forget (h : Beside V k s s') (hp : k.names.Links p p') :
    Beside V k (Calls.react (.grammar V.language) p s) (Calls.react (.grammar V.language) p' s') := by
  have hload := h.tables.load
  refine ⟨h.loop, { h.tables with load := ?_, loads := fun {l op} hne hop => ?_ }, h.worlds⟩
  · show Option.Rel _ ((s.grammarFlight.forget V.language p).entries.get? V.language)
      ((s'.grammarFlight.forget V.language p').entries.get? V.language)
    rw [get?_forget, get?_forget]
    generalize s.grammarFlight.entries.get? V.language = x at hload ⊢
    generalize s'.grammarFlight.entries.get? V.language = x' at hload ⊢
    cases hload with
    | none => simp
    | @some op op' hl =>
      by_cases he : op = p
      · rw [if_pos ⟨rfl, congrArg some he⟩, if_pos ⟨rfl, congrArg some ((hl.eq_iff hp).2 he)⟩]
        exact .none
      · rw [if_neg fun hc => he (Option.some.inj hc.2),
          if_neg fun hc => he ((hl.eq_iff hp).1 (Option.some.inj hc.2))]
        exact .some hl
  · replace hop : (s.grammarFlight.forget V.language p).entries.get? l = some op := hop
    rw [get?_forget, if_neg fun hc => hne hc.1] at hop
    exact h.tables.loads hne hop

/-- An errand of which something is left, that is no free task's, is served in both services. -/
theorem Beside.serveLinked (h : Beside V k s s') (hx : V.Independent) (he : e.Match k.names (kinds V k) e')
    (hfree : ∀ t, e = .step t → ¬ k.names.free t) :
    ∃ k₁, (pairing V).le k k₁ ∧ Beside V k₁ (program.serve e s) (program.serve e' s') ∧
      ∀ t, e.woken? = some t → ∃ t', k₁.names.Links t t' := by
  have hquiet : ∀ {s₁ s₁'}, Beside V k s₁ s₁' → e.woken? = none →
      ∃ k₁, (pairing V).le k k₁ ∧ Beside V k₁ s₁ s₁' ∧ ∀ t, e.woken? = some t → ∃ t', k₁.names.Links t t' :=
    fun h₁ hnone => ⟨k, grows.refl k, h₁, fun t ht => by cases hnone.symm.trans ht⟩
  cases he with
  | @step t t' hn =>
    have ht : k.names.Links t t' := ⟨hn, hfree t rfl⟩
    have hgiven : ResultsMatch (Reply.Match k.Grammars k.Parsers) (.ok default) (.ok default) := .ok (.plain rfl)
    obtain ⟨k₁, hle, h₁⟩ := h.stepLinked hx ht hgiven
    exact ⟨k₁, hle, h₁, fun u hu => ⟨t', Option.some.inj hu ▸ hle.1.names.links ht⟩⟩
  | deliver hp hx => exact hquiet (h.settle hp (match_ofResult hx)) rfl
  | @react r r' p p' hr hp =>
    have hout : Option.Rel (Settled.Match (kinds V k).value) ((program.loop s).outcome? p)
        ((program.loop s').outcome? p') := h.loop.outcome? hp
    cases hr with
    | @wake t t' ht =>
      have hstep : ∃ k₁, (pairing V).le k k₁ ∧ Beside V k₁ (program.serve (.react (.wake t) p) s)
          (program.serve (.react (.wake t') p') s') := by
        simp only [Program.serve, Program.reactTo]
        generalize (program.loop s).outcome? p = x at hout ⊢
        generalize (program.loop s').outcome? p' = x' at hout ⊢
        cases hout with
        | none => exact ⟨k, (pairing_lawful hx).refl k, h⟩
        | some ho => exact h.stepLinked hx ht (resultsMatch_result ho)
      obtain ⟨k₁, hle, h₁⟩ := hstep
      exact ⟨k₁, hle, h₁, fun u hu => ⟨t', Option.some.inj hu ▸ hle.1.names.links ht⟩⟩
    | @relay q q' hq =>
      refine hquiet ?_ rfl
      simp only [Program.serve, Program.reactTo]
      generalize (program.loop s).outcome? p = x at hout ⊢
      generalize (program.loop s').outcome? p' = x' at hout ⊢
      cases hout with
      | none => exact h
      | some ho => exact h.settle hq ho
    | signal hw => exact hquiet (h.settle hw (.value (.plain rfl))) rfl
    | hook hk =>
      cases hk
      exact hquiet (h.forget hp) rfl

/-- A linked task waits for no languages. -/
theorem Beside.gathers?_eq (h : Beside V k s s') (ht : k.names.Links t t') :
    (s.loop.tasks.get? t).bind (·.point.gathers?) = none := by
  have htask := h.loop.tasks.linked ht
  generalize s.loop.tasks.get? t = x at htask ⊢
  generalize s'.loop.tasks.get? t' = x' at htask ⊢
  cases htask with
  | none => rfl
  | @some task task' htask =>
    obtain ⟨point, restsOn, marked⟩ := task
    obtain ⟨point', restsOn', marked'⟩ := task'
    have hpoint : Stage.Match _ _ _ _ point point' := htask.point
    show point.gathers? = none
    cases hpoint <;> rfl

/-- An errand of which nothing is left is served in the first service. -/
theorem Beside.serveStray (h : Beside V k s s') (he : e.Stray k.names)
    (hopen : (program.serve e s).workers.dismissed = false) :
    ∃ m, Beside V { k with names := Names.grow^[m] k.names } (program.serve e s) s' := by
  have htally : ∀ g, Beside V k (program.change s (Program.tally g)) s' := by
    intro g
    cases hg : s.loop.groups.get? g with
    | none =>
      have hsame : Program.tally g s.loop = s.loop := by simp [Program.tally, hg]
      show Beside V k { s with loop := Program.tally g s.loop } s'
      rw [hsame]
      exact h
    | some group => exact h.withFirst (.refl _) (h.loop.tally (h.loop.groups hg))
  cases he with
  | step ht => exact h.stepStray ht.strays hopen
  | tally hg => exact ⟨0, htally _⟩
  | deliver hp => exact ⟨0, h.settleStray hp.strays _⟩
  | expire hp => exact ⟨0, h.settleStray hp.strays _⟩
  | @react r p hp hr =>
    cases r with
    | wake t =>
      simp only [Program.serve, Program.reactTo] at hopen ⊢
      cases ho : (program.loop s).outcome? p with
      | none => exact ⟨0, h⟩
      | some o =>
        rw [ho] at hopen
        exact h.stepStray (hr t rfl) hopen
    | relay q =>
      simp only [Program.serve, Program.reactTo]
      refine ⟨0, ?_⟩
      cases (program.loop s).outcome? p with
      | none => exact h
      | some o => exact h.settleStray (hr q rfl) o
    | signal w => exact ⟨0, h.settleStray (hr w rfl) _⟩
    | tally g => exact ⟨0, htally g⟩
    | hook hook =>
      cases hook with
      | boot =>
        have hsame : s.bootFlight.forget () p = s.bootFlight := by
          rw [Flight.forget, h.tables.boot, if_neg (by simp)]
        refine ⟨0, ?_⟩
        show Beside V k { s with bootFlight := s.bootFlight.forget () p } s'
        rw [hsame]
        exact h
      | grammar other =>
        refine ⟨0, h.forgetOther fun hop => ?_⟩
        have hload := h.tables.load
        rw [hop] at hload
        obtain ⟨op', -, hl⟩ : ∃ op', s'.grammarFlight.entries.get? V.language = some op' ∧
            k.names.Links p op' := by
          cases hop' : s'.grammarFlight.entries.get? V.language with
          | none => rw [hop'] at hload; cases hload
          | some op' => rw [hop'] at hload; cases hload; exact ⟨op', rfl, ‹_›⟩
        exact hl.not_strays hp.strays

/-! ## Calls for no language -/

/-- The loop after requests have been made for the language. -/
def asking (language : String) (languages : List Json) (l : Loop Reply Stage Hook) : Loop Reply Stage Hook :=
  (languages.filter (·.isFor language)).foldl (fun l v => (l.spawn (.start (.getParser v))).2) l

theorem moves_ownRequests (language : String) (languages : List Json) (s : Service) :
    s.moves (ownRequests language languages) = { s with loop := asking language languages s.loop } := by
  unfold ownRequests asking
  generalize languages.filter (·.isFor language) = vs
  induction vs generalizing s with
  | nil => rfl
  | cons v vs ih => exact ih _

/-- Requests leave unfinished tasks alone. -/
theorem asking_tasks (language : String) (languages : List Json) (hlt : t < l.promises.size) :
    (asking language languages l).tasks.get? t = l.tasks.get? t := by
  unfold asking
  generalize languages.filter (·.isFor language) = vs
  induction vs generalizing l with
  | nil => rfl
  | cons v vs ih =>
    refine (ih (l := (l.spawn (.start (.getParser v))).2) ?_).trans ?_
    · rw [size_spawn]
      exact Nat.lt_succ_of_lt hlt
    · rw [get?_tasks_spawn, if_neg (Nat.ne_of_lt hlt)]

/-- Requests leave what is on the agenda in its place. -/
theorem asking_pick (language : String) (languages : List Json) {i : Nat} (hi : l.agenda[i]? = some e) :
    (asking language languages l).agenda[i]? = some e ∧
      (asking language languages l).pick i = asking language languages (l.pick i) := by
  unfold asking
  generalize languages.filter (·.isFor language) = vs
  induction vs generalizing l with
  | nil => exact ⟨hi, rfl⟩
  | cons v vs ih =>
    have hlen : i < l.agenda.length := (List.getElem?_eq_some_iff.1 hi).1
    have hpick : (l.spawn (.start (.getParser v))).2.pick i = ((l.pick i).spawn (.start (.getParser v))).2 := by
      simp [Loop.pick, Loop.spawn, Loop.promise, Loop.enqueue, List.eraseIdx_append_of_lt_length hlen]
    obtain ⟨hi', hpick'⟩ := ih (l := (l.spawn (.start (.getParser v))).2)
      ((List.getElem?_append_left hlen).trans hi)
    refine ⟨hi', hpick'.trans ?_⟩
    rw [List.foldl_cons, hpick]

/-- What comes of a call for no language that has had its turn, and of what is left of it: promises that are told,
    and the languages that it waits for. -/
structure HasParted (V : View) (k k₁ : Bond) (made : List Bool) (s₁ s₁' : Service) : Prop where
  le : k.Le k₁
  free : ∀ p, k₁.names.free p → k.names.free p
  name : k₁.names.name = (k.names.extend made).name
  size : k₁.names.size = (k.names.extend made).size
  size' : k₁.names.size' = (k.names.extend made).size'
  beside : Beside V k₁ s₁ s₁'

/-- A call for no language has its turn in both services. -/
theorem Beside.serveFree (h : Beside V k s s') (hx : V.Independent) (hn : k.names.name t = some t')
    (hf : k.names.free t) (hg : ¬ k.names.gone t)
    (hopen : (program.stepTask t (.ok default) s).workers.dismissed = false) :
    match ((program.stepTask t (.ok default) s).loop.tasks.get? t).bind (·.point.gathers?) with
    | none => ∃ k₁, HasParted V k k₁ [] (program.stepTask t (.ok default) s) (program.stepTask t' (.ok default) s')
    | some languages => ∃ k₁, HasParted V k k₁ (V.asked languages) (program.stepTask t (.ok default) s)
        (program.stepTask t' (.ok default) (s'.moves (ownRequests V.language languages))) := by
  obtain ⟨point, point', marked, ht, ht', call, rfl, rfl, hv⟩ := h.loop.tasks.waiting hn hf hg
  -- What the two meet is the same, since they are marked alike.
  obtain ⟨G, hG⟩ : ∃ G : Except Fault Reply,
      Program.met ⟨Stage.start call, none, marked⟩ (.ok default) = G := ⟨_, rfl⟩
  have hstep : program.stepTask t (.ok default) s = program.change (Calls.resume (.start call) G s).2
      (Program.conclude t (Calls.resume (.start call) G s).1) := by
    unfold Program.stepTask
    rw [show (program.loop s).tasks.get? t = _ from ht, ← hG]
    rfl
  have hstep' : ∀ r : Service, r.loop.tasks.get? t' = some ⟨.start (call.probing V.config), none, marked⟩ →
      program.stepTask t' (.ok default) r = program.change (Calls.resume (.start (call.probing V.config)) G r).2
        (Program.conclude t' (Calls.resume (.start (call.probing V.config)) G r).1) := by
    intro r hr
    unfold Program.stepTask
    rw [show (program.loop r).tasks.get? t' = _ from hr, ← hG]
    rfl
  rw [hstep] at hopen ⊢
  have hparts : Parts V k _ WaitsFor (Calls.resume (.start call) G s) _ := h.parts hx hv hopen
  obtain ⟨turn, s₁, hfull⟩ : ∃ turn s₁, Calls.resume (.start call) G s = (turn, s₁) := ⟨_, _, rfl⟩
  obtain ⟨turn', s₁', hleft⟩ : ∃ turn' s₁', Calls.resume (.start (call.probing V.config)) G s' = (turn', s₁') :=
    ⟨_, _, rfl⟩
  rw [hfull, hleft] at hparts
  rw [hfull]
  cases hparts with
  | finish h₁ =>
    rename_i x x'
    have hend : ((program.change s₁ (Program.conclude t (.finish x))).loop.tasks.get? t).bind
        (·.point.gathers?) = none := by
      show ((Program.conclude t (.finish x) s₁.loop).tasks.get? t).bind _ = _
      rw [Program.conclude, tasks_settle, Keyed.get?_erase, if_pos rfl]
      rfl
    rw [hend]
    dsimp only
    rw [hstep' s' ht', hleft]
    exact ⟨_, Bond.le_names (Names.le_depart hf), fun _ => id, rfl, rfl, rfl,
      h₁.withLoop (Names.le_depart hf) (h₁.loop.depart hn hf (.finish x) x')⟩
  | rest hm hg' ha h₁ =>
    rename_i g point languages x'
    have hend : ((program.change s₁ (Program.conclude t (.rest g point))).loop.tasks.get? t).bind
        (·.point.gathers?) = some languages := by
      show ((Program.conclude t (.rest g point) s₁.loop).tasks.get? t).bind _ = _
      rw [Program.conclude, tasks_subscribe, Keyed.get?_put, if_pos rfl]
      exact ha
    rw [hend]
    dsimp only
    have haway : (Turn.rest g point : Turn Stage Reply).Away (k.names.extend (V.asked languages))
        (kinds V { k with names := k.names.extend (V.asked languages) }) := by
      refine .rest hg' ?_
      show Stage.Away _ _ point
      unfold WaitsFor Stage.gathers? at ha
      split at ha
      · exact .warm _ _
      · exact .enter _ _
      · cases ha
    have hleft' : Calls.resume (.start (call.probing V.config)) G (s'.moves (ownRequests V.language languages)) =
        (.finish x', s₁'.moves (ownRequests V.language languages)) := by
      rw [moves_ownRequests, moves_ownRequests]
      rw [hm] at hleft ⊢
      cases G <;> cases hleft <;> rfl
    have hplaced : (s'.moves (ownRequests V.language languages)).loop.tasks.get? t' =
        some ⟨.start (call.probing V.config), none, marked⟩ := by
      rw [moves_ownRequests]
      exact (asking_tasks V.language languages (h.loop.size' ▸ (k.names.known hn).2)).trans ht'
    have hf₁ : (k.names.extend (V.asked languages)).free t := (Names.free_extend _).2 hf
    have hle := Names.le_extend (V.asked languages) k.names
    rw [hstep' _ hplaced, hleft']
    exact ⟨_, Bond.le_names (hle.trans (Names.le_depart hf₁)), fun _ => (Names.free_extend _).1, rfl, rfl, rfl,
      h₁.withLoop (Names.le_depart hf₁) (h₁.loop.depart (hle.name hn) hf₁ haway x')⟩

/-! ## Moves -/

/-- The services go on to stand beside each other: the first after a move, the second after what is left of it.
    The promises that have been made have names as is told, and are not free unless a call for no language has
    begun. -/
structure Advances (V : View) (k k₁ : Bond) (r : Remnant) (s₁ s' : Service) : Prop where
  le : k.Le k₁
  free : ∀ p, k₁.names.free p → k.names.free p ∨ ∃ call, .act (.spawn call) ∈ r.moves ∧ call.language? = none
  name : k₁.names.name = (k.names.extend r.made).name
  size : k₁.names.size = (k.names.extend r.made).size
  size' : k₁.names.size' = (k.names.extend r.made).size'
  beside : Beside V k₁ s₁ (s'.moves r.moves)

/-- No promise has been made. -/
theorem advances_of_beside {ms : List Move} {s₁ : Service} (h₁ : Beside V k s₁ (s'.moves ms)) :
    Advances V k k ⟨ms, []⟩ s₁ s' :=
  ⟨.refl k, fun _ => .inl, rfl, rfl, rfl, h₁⟩

/-- What is left of the service of an errand. -/
theorem served_some {name : PromiseId → Option PromiseId} {language : String} {place : Nat}
    (hi : s.loop.agenda[place]? = some e) : served language name s place =
      if e.isLeft name then
        match e.woken?.bind fun t => ((s.move (.serve place)).loop.tasks.get? t).bind (·.point.gathers?) with
        | some languages =>
          ⟨ownRequests language languages ++ [.serve ((s.loop.agenda.take place).countP (·.isLeft name))],
            languages.map (·.isFor language) ++ [false]⟩
        | none => ⟨[.serve ((s.loop.agenda.take place).countP (·.isLeft name))],
            .replicate ((s.move (.serve place)).loop.promises.size - s.loop.promises.size) true⟩
      else ⟨[], .replicate ((s.move (.serve place)).loop.promises.size - s.loop.promises.size) false⟩ := by
  unfold served
  split
  · rename_i hnone
    cases hi.symm.trans hnone
  · rename_i e' he
    cases hi.symm.trans he
    rfl

theorem move_serve {place : Nat} (hi : s.loop.agenda[place]? = some e) :
    s.move (.serve place) = program.serve e { s with loop := s.loop.pick place } := by
  show program.serveAt place s = _
  unfold Program.serveAt
  rw [show (program.loop s).agenda[place]? = some e from hi]
  rfl

/-- **An errand is served, and what is left of it is.** -/
theorem Beside.serve (h : Beside V k s s') (hx : V.Independent) (ho : AtRest s roles) (place : Nat)
    (hopen : (s.move (.serve place)).workers.dismissed = false) :
    ∃ k₁, Advances V k k₁ (served V.language k.names.name s place) (s.move (.serve place)) s' := by
  cases hi : s.loop.agenda[place]? with
  | none =>
    have hsame : s.move (.serve place) = s := Program.serveAt_none program hi
    have hnothing : served V.language k.names.name s place = {} := by
      unfold served
      rw [hi]
    rw [hsame, hnothing]
    exact ⟨k, advances_of_beside h⟩
  | some e =>
    -- As many promises have been made as there are new names.
    have hcount : ∀ {k₁ : Bond} {m : Nat} {b : Bool} {s₁' : Service}, Beside V k₁ (s.move (.serve place)) s₁' →
        k₁.names = k.names.extend (.replicate m b) →
        (s.move (.serve place)).loop.promises.size - s.loop.promises.size = m := by
      intro k₁ m b s₁' h₁ hk
      rw [h₁.loop.size, h.loop.size, hk, Names.size_extend, List.length_replicate, Nat.add_sub_cancel_left]
    rw [served_some hi]
    have hmove := move_serve hi
    rcases h.loop.pick hi with ⟨hleft, e', hi', he, hloop⟩ | ⟨hleft, he, hloop⟩
    · rw [if_pos hleft]
      have hpicked := h.withLoop (.refl _) hloop
      by_cases hfree : ∃ t, e = .step t ∧ k.names.free t
      · obtain ⟨t, rfl, hf⟩ := hfree
        cases he with
        | @step _ t' hn =>
          have hg : ¬ k.names.gone t := fun hg => by
            obtain ⟨_, task, ht, hr⟩ := ho.sound.tended.stepped (List.mem_of_getElem? hi)
            exact h.loop.tasks.begun hg ht hr
          have hserve : s.move (.serve place) = program.stepTask t (.ok default)
              { s with loop := s.loop.pick place } := hmove
          have hparted := hpicked.serveFree hx hn hf hg (hserve ▸ hopen)
          rw [← hserve] at hparted
          show ∃ k₁, Advances V k k₁ (match ((s.move (.serve place)).loop.tasks.get? t).bind
            (·.point.gathers?) with | some languages => _ | none => _) _ _
          cases hgathers : ((s.move (.serve place)).loop.tasks.get? t).bind (·.point.gathers?) with
          | none =>
            rw [hgathers] at hparted
            obtain ⟨k₁, hp⟩ := hparted
            have hnone : (s.move (.serve place)).loop.promises.size - s.loop.promises.size = 0 := by
              rw [hp.beside.loop.size, hp.size, h.loop.size]
              exact Nat.sub_self _
            refine ⟨k₁, hp.le, fun p hp' => .inl (hp.free p hp'), ?_, ?_, ?_, ?_⟩
            · exact hp.name.trans (by rw [hnone]; rfl)
            · exact hp.size.trans (by rw [hnone]; rfl)
            · exact hp.size'.trans (by rw [hnone]; rfl)
            · show Beside V k₁ _ (s'.move (.serve _))
              rw [move_serve hi']
              exact hp.beside
          | some languages =>
            rw [hgathers] at hparted
            obtain ⟨k₁, hp⟩ := hparted
            refine ⟨k₁, hp.le, fun p hp' => .inl (hp.free p hp'), hp.name, hp.size, hp.size', ?_⟩
            obtain ⟨hi'', hpick⟩ := asking_pick V.language languages hi'
            have hbeside := hp.beside
            rw [moves_ownRequests] at hbeside
            rw [moves_append, moves_ownRequests]
            show Beside V k₁ _ (Service.move { s' with loop := asking V.language languages s'.loop } (.serve _))
            rw [move_serve (s := { s' with loop := asking V.language languages s'.loop }) hi'']
            show Beside V k₁ _ (program.serve (.step t') { s' with
              loop := (asking V.language languages s'.loop).pick _ })
            rw [hpick]
            exact hbeside
      · obtain ⟨k₁, ⟨hle, m, hm⟩, h₁, hwoken⟩ := hpicked.serveLinked hx he fun t ht hf => hfree ⟨t, ht, hf⟩
        rw [← hmove] at h₁
        have hnone : (e.woken?.bind fun t => ((s.move (.serve place)).loop.tasks.get? t).bind
            (·.point.gathers?)) = none := by
          cases hw : e.woken? with
          | none => rfl
          | some t =>
            obtain ⟨t', hl⟩ := hwoken t hw
            exact h₁.gathers?_eq hl
        rw [Names.iterate_push] at hm
        rw [hnone, hcount h₁ hm]
        refine ⟨k₁, hle, fun p hp => .inl ?_, ?_, ?_, ?_, ?_⟩
        · rw [hm] at hp
          exact (Names.free_extend _).1 hp
        · rw [hm]
        · rw [hm]
        · rw [hm]
        · show Beside V k₁ _ (s'.move (.serve _))
          rwa [move_serve hi']
    · rw [if_neg (by simp [hleft])]
      have hpicked := h.withFirst (.refl _) hloop
      obtain ⟨m, h₁⟩ := hpicked.serveStray he (hmove ▸ hopen)
      rw [← hmove, Names.iterate_grow] at h₁
      rw [hcount h₁ rfl]
      exact ⟨_, Bond.le_names (Names.le_extend _ _), fun p hp => .inl ((Names.free_extend _).1 hp), rfl, rfl,
        rfl, h₁⟩

/-! ## Actions -/

theorem moves_cancels (ts : List PromiseId) (s : Service) :
    s.moves (ts.map fun t => .act (.cancel t)) = { s with loop := ts.foldl Loop.cancelTask s.loop } := by
  induction ts generalizing s with
  | nil => rfl
  | cons t ts ih => exact ih _

/-- Whoever is cancelled in the first service is cancelled in the second, if anything is left of them. -/
theorem Beside.cancel (h : Beside V k s s') (t : PromiseId) :
    Beside V k { s with loop := s.loop.cancelTask t } (s'.moves (cancels k.names.name s t)) := by
  rw [cancels, moves_cancels]
  exact h.withLoop (.refl _) (h.loop.cancelTask t)

/-- The load of a language is cancelled, if there is one. -/
theorem Beside.cancelGrammar (h : Beside V k s s') (other : String) :
    Beside V k (s.move (.act (.cancelGrammar other)))
      (s'.moves ((s.grammarFlight.entries.get? other).toList.flatMap (cancels k.names.name s))) := by
  rw [act_cancelGrammar_eq]
  cases s.grammarFlight.entries.get? other with
  | none => exact h
  | some op =>
    rw [Option.toList_some, List.flatMap_singleton]
    exact h.cancel op

/-- There is no boot to be cancelled. -/
theorem Beside.cancelBoot (h : Beside V k s s') :
    Beside V k (s.move (.act .cancelBoot)) (s'.move (.act .cancelBoot)) := by
  rw [act_cancelBoot_eq, act_cancelBoot_eq, h.tables.boot, h.tables.boot']
  exact h

/-- Linked tasks hold their leases at linked gates. -/
theorem Beside.gate? (h : Beside V k s s') (ht : k.names.Links t t') :
    Option.Rel k.names.Links (s.gate? t) (s'.gate? t') := by
  have htask := h.loop.tasks.linked ht
  unfold Service.gate?
  generalize s.loop.tasks.get? t = x at htask ⊢
  generalize s'.loop.tasks.get? t' = x' at htask ⊢
  cases htask with
  | none => exact .none
  | @some task task' htask =>
    obtain ⟨point, restsOn, marked⟩ := task
    obtain ⟨point', restsOn', marked'⟩ := task'
    have hpoint : Stage.Match _ _ _ _ point point' := htask.point
    have hrests : Option.Rel _ restsOn restsOn' := htask.restsOn
    cases hpoint with
    | holding hl hp =>
      cases hrests with
      | none => exact .none
      | some hg => exact .some hg
    | _ => exact .none

/-- A lease is ended in both services, if anything is left of it. -/
theorem Beside.endLease (h : Beside V k s s') (t : PromiseId) (fault : Option Fault) :
    Beside V k (s.move (.act (.endLease t fault)))
      (s'.moves ((k.names.name t).toList.map fun t' => .act (.endLease t' fault))) := by
  -- The lease of a stray is ended in the first service only.
  have hstray : k.names.Strays t → Beside V k (s.move (.act (.endLease t fault))) s' := by
    intro hs
    rw [act_endLease_eq]
    cases hg : s.gate? t with
    | none => exact h
    | some gate =>
      obtain ⟨language, parser, hp⟩ := gate?_eq_some_iff.1 hg
      obtain ⟨task, ht, -, hon⟩ := place?_eq_some_iff.1 hp
      exact h.settleStray ((h.loop.tasks.stray hs ht).restsOn gate hon) _
  cases hn : k.names.name t with
  | none =>
    by_cases hlt : t < k.names.size
    · exact hstray ⟨hlt, .inl hn⟩
    · have hnone : s.gate? t = none := by
        cases hg : s.gate? t with
        | none => rfl
        | some gate =>
          obtain ⟨language, parser, hp⟩ := gate?_eq_some_iff.1 hg
          obtain ⟨task, ht, -⟩ := place?_eq_some_iff.1 hp
          exact absurd (h.loop.tasks.known ht) hlt
      rw [act_endLease_eq, hnone]
      exact h
  | some t' =>
    show Beside V k _ (s'.move (.act (.endLease t' fault)))
    rw [act_endLease_eq (s := s')]
    by_cases hg : k.names.gone t
    · have hnone : s'.gate? t' = none := by
        unfold Service.gate?
        rw [h.loop.tasks.gone hn hg]
      rw [hnone]
      exact hstray ⟨(k.names.known hn).1, .inr hg⟩
    · by_cases hf : k.names.free t
      · obtain ⟨point, point', marked, ht, ht', call, rfl, rfl, -⟩ := h.loop.tasks.waiting hn hf hg
        rw [act_endLease_eq]
        unfold Service.gate?
        rw [ht, ht']
        exact h
      · have hgate := h.gate? ⟨hn, hf⟩
        rw [act_endLease_eq]
        generalize s.gate? t = x at hgate ⊢
        generalize s'.gate? t' = x' at hgate ⊢
        cases hgate with
        | none => exact h
        | some hl =>
          cases fault with
          | none => exact h.settle hl (.value (.plain rfl))
          | some f => exact h.settle hl (.failed f)

/-- The job at a position is done, if there is one. -/
theorem act_release_place (s : Service) (position : Int) : s.move (.act (.release position)) =
    (Work.workOff (position % s.workers.queue.length).toNat s).2 := by
  by_cases hq : 0 < s.workers.queue.length
  · simp [move, act, StateT.run, hq]
  · have hnil : s.workers.queue = [] := List.length_eq_zero_iff.1 (Nat.eq_zero_of_not_pos hq)
    simp [move, act, StateT.run, Work.workOff, hnil]

/-- A job is done in both services, if anything is left of it. -/
theorem Beside.release (h : Beside V k s s') (hx : V.Independent) (position : Int) :
    ∃ k₁, Advances V k k₁ (acted V.language k.names.name s (.release position))
      (s.move (.act (.release position))) s' := by
  unfold acted
  dsimp only
  rw [act_release_place]
  generalize (position % s.workers.queue.length).toNat = place
  cases hi : s.workers.queue[place]? with
  | none =>
    have hsame : (Work.workOff place s).2 = s := by simp [Work.workOff, hi]
    rw [hsame]
    exact ⟨k, advances_of_beside h⟩
  | some ticket =>
    rw [Work.workOff_eq hi, Option.any_some]
    rcases h.tables.queue.pick (fun t => (k.names.name t.promise).isSome)
      (fun ht => by simp [ht.promise.1]) (fun ht => by simp [ht.promise.2]) hi with
        ⟨hkept, ticket', hi', ht, hqueue⟩ | ⟨hkept, ht, hqueue⟩
    · rw [if_pos hkept]
      have hlt := (List.getElem?_eq_some_iff.1 hi').1
      generalize (s.workers.queue.take place).countP (fun t => (k.names.name t.promise).isSome) = rank at *
      have hplace : ((rank : Int) % s'.workers.queue.length).toNat = rank := by
        rw [Int.emod_eq_of_lt (Int.natCast_nonneg rank) (Int.ofNat_lt.2 hlt), Int.toNat_natCast]
      obtain ⟨gs, hle, hr, hdone⟩ := h.perform hx ht.job
      have hp := hle.names.links ht.promise
      have hqueue₁ : Sifted (Ticket.Match V { k with grammars := gs }) (Ticket.Away V { k with grammars := gs })
          (s.workers.queue.eraseIdx place) (s'.workers.queue.eraseIdx rank) :=
        hqueue.mono (fun ht => ⟨ht.crew, ht.job, ht.promise⟩) fun ht => ⟨ht.job, ht.promise⟩
      have hworked : Beside V { k with grammars := gs }
          { s with
            workers := { s.workers with queue := s.workers.queue.eraseIdx place }
            world := (ticket.job.run s.world).2 }
          { s' with
            workers := { s'.workers with queue := s'.workers.queue.eraseIdx rank }
            world := (ticket'.job.run s'.world).2 } :=
        ⟨hdone.loop, { hdone.tables with queue := hqueue₁ }, hdone.worlds⟩
      refine ⟨{ k with grammars := gs }, hle, fun _ => .inl, rfl, rfl, rfl, ?_⟩
      show Beside V _ _ (s'.move (.act (.release rank)))
      rw [act_release_place, hplace, Work.workOff_eq hi']
      exact hworked.withLoop (.refl _) (hworked.loop.enqueue (.deliver hp hr))
    · rw [if_neg (by simp [hkept])]
      have hworked : Beside V k
          { s with
            workers := { s.workers with queue := s.workers.queue.eraseIdx place }
            world := (ticket.job.run s.world).2 } s' :=
        ⟨h.loop, { (h.performOther ht.job).tables with queue := hqueue }, (h.performOther ht.job).worlds⟩
      exact ⟨k, advances_of_beside
        (hworked.withFirst (.refl _) (hworked.loop.enqueueStray (.deliver ht.promise)))⟩

/-- A call begins in both services, if it is for the language or for none. -/
theorem Beside.spawn (h : Beside V k s s') (call : Call) :
    ∃ k₁, Advances V k k₁ (acted V.language k.names.name s (.spawn call)) (s.move (.act (.spawn call))) s' := by
  unfold acted
  rw [h.tables.config]
  dsimp only
  cases hv : call.language? with
  | some v =>
    have hprobing : call.probing V.config = call := by cases call <;> first | rfl | cases hv
    have hleft : call.isLeft V.language = v.isFor V.language := by simp [Call.isLeft, hv]
    rw [hleft]
    by_cases hfor : v.isFor V.language = true
    · have hpoint : (kinds V k).point (.start call) (.start call) := by
        obtain rfl := Json.isFor_iff.1 hfor
        show Stage.Match _ _ _ _ _ _
        exact .start hv fun name hname => (Json.str.inj hname).symm
      rw [if_pos hfor, hprobing]
      exact ⟨{ k with names := k.names.push }, Bond.le_names k.names.le_push, fun _ => .inl, rfl, rfl, rfl,
        h.withLoop k.names.le_push (h.loop.spawn hpoint)⟩
    · have hpoint : (kinds V k).away (.start call) := by
        show Stage.Away _ _ _
        exact .start hv fun he => hfor (Json.isFor_iff.2 he)
      rw [if_neg hfor]
      exact ⟨{ k with names := k.names.grow }, Bond.le_names k.names.le_grow, fun _ => .inl, rfl, rfl, rfl,
        h.withFirst k.names.le_grow (h.loop.spawnStray hpoint)⟩
  | none =>
    have hleft : call.isLeft V.language = true := by simp [Call.isLeft, hv]
    have hpoint : (kinds V k).idle (.start call) (.start (call.probing V.config)) := ⟨call, rfl, rfl, hv⟩
    have hprobing : (call.probing V.config).language? = none := by cases call <;> first | rfl | exact hv
    rw [if_pos hleft]
    refine ⟨{ k with names := k.names.pushFree }, Bond.le_names k.names.le_pushFree, fun p hp => ?_, rfl, rfl,
      rfl, h.withLoop k.names.le_pushFree (h.loop.spawnFree hpoint)⟩
    exact .inr ⟨_, List.mem_singleton_self _, hprobing⟩

theorem Beside.expire (h : Beside V k s s') : Beside V k (s.move .expire) (s'.move .expire) :=
  h.withLoop (.refl _) h.loop.expireDue

theorem Beside.clock (h : Beside V k s s') (time : Float) :
    Beside V k (s.move (.clock time)) (s'.move (.clock time)) := by
  show Beside V k (s.setClock time) (s'.setClock time)
  unfold setClock
  rw [h.loop.now]
  split
  · exact h.withLoop (.refl _) (h.loop.withNow time)
  · exact h

/-- **Every move leaves the services beside each other**, if what is left of it is made in the second. -/
theorem Beside.move (h : Beside V k s s') (hx : V.Independent) (ho : AtRest s roles) (mv : Move)
    (hopen : (s.move mv).workers.dismissed = false) :
    ∃ k₁, Advances V k k₁ (leftOf V.language k.names.name s mv) (s.move mv) s' := by
  cases mv with
  | serve place => exact h.serve hx ho place hopen
  | expire => exact ⟨k, advances_of_beside h.expire⟩
  | clock time => exact ⟨k, advances_of_beside (h.clock time)⟩
  | act action =>
    cases action with
    | spawn call => exact h.spawn call
    | release position => exact h.release hx position
    | cancel t => exact ⟨k, advances_of_beside (h.cancel t)⟩
    | endLease t fault => exact ⟨k, advances_of_beside (h.endLease t fault)⟩
    | cancelBoot => exact ⟨k, advances_of_beside h.cancelBoot⟩
    | cancelGrammar other => exact ⟨k, advances_of_beside (h.cancelGrammar other)⟩

end SourceTrees.Service
