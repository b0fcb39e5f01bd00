import SourceTrees.Proofs.Service.Hearing
import SourceTrees.Proofs.Service.Retries

/-!
# What ends in a fair run

Every shared operation ends in a fair run, and so does every request for a parser: each of their turns brings
them nearer to their end, and what they wait for is settled some time.

## Protocol

* A boot tries its engine a bounded number of times; a load waits for one job, and a request for two
  operations.
* Nothing is assumed of the world, nor of what else is called, cancelled or closed.

## Results

* `Turn.GoesTo`, `Work.GoesTo` — where turns come to rest; `Stage.rank` — how near tasks are to their end.
* `Service.Fair.next_turn` — a task that waits for what is settled some time has its next turn.
* **`Service.Falls.ends`** — tasks whose turns bring them nearer to their end do end.
* `Service.Fair.operation_ends`, `Service.Fair.parser_ends` — shared operations, and requests for parsers.
-/

set_option autoImplicit false

namespace SourceTrees

open Loop

/-! ## Where turns come to rest -/

/-- If the turn does not end the task, it comes to rest at a stage of the kind. -/
def Turn.GoesTo {P α : Type} (R : P → Prop) : Turn P α → Prop
  | .rest _ point | .giveWay point => R point
  | .finish _ => True

namespace Work

variable {P Q α β γ : Type} {R R' : P → Prop}

/-- Whatever the service, the turn comes to rest at a stage of the kind or ends the task. -/
def GoesTo (R : P → Prop) (f : Work (Turn P α)) : Prop := ∀ s, (f s).1.GoesTo R

namespace GoesTo

theorem done (v : α) : GoesTo R (Work.done v) := fun _ => trivial

theorem fail (f : Fault) : GoesTo R (Work.fail f : Work (Turn P α)) := fun _ => trivial

theorem bind {f : Work γ} {g : γ → Work (Turn P α)} (h : ∀ x, GoesTo R (g x)) : GoesTo R (f >>= g) :=
  fun _ => h _ _

theorem mono {f : Work (Turn P α)} (h : GoesTo R f) (hR : ∀ point, R point → R' point) : GoesTo R' f := by
  intro s
  have hs := h s
  generalize (f s).1 = turn at hs
  cases turn with
  | rest on point => exact hR _ hs
  | giveWay point => exact hR _ hs
  | finish result => trivial

/-- Where all stages are of the kind, no turn comes to rest elsewhere. -/
theorem always (h : ∀ point, R point) (f : Work (Turn P α)) : GoesTo R f := by
  intro s
  cases (f s).1 with
  | rest on point => exact h point
  | giveWay point => exact h point
  | finish result => trivial

/-- A call is made in turn. -/
theorem calling {f : Work (Turn Q β)} {wrap : Q → P} {next : Except Fault β → Work (Turn P α)} {s : Service}
    (h : (f s).1.GoesTo fun point => R (wrap point)) (hn : ∀ result, GoesTo R (next result)) :
    ((do Work.andThen (← f) wrap next : Work (Turn P α)) s).1.GoesTo R := by
  show (Work.andThen (f s).1 wrap next (f s).2).1.GoesTo R
  generalize (f s).1 = turn at h
  cases turn with
  | rest on point => exact h
  | giveWay point => exact h
  | finish result => exact hn result _

theorem call {f : Work (Turn Q β)} {wrap : Q → P} {next : Except Fault β → Work (Turn P α)}
    (h : GoesTo (fun point => R (wrap point)) f) (hn : ∀ result, GoesTo R (next result)) :
    GoesTo R (do Work.andThen (← f) wrap next) :=
  fun s => calling (h s) hn

end GoesTo

end Work

/-! ## How near tasks are to their end -/

/-- How many turns a task has yet at most, with those that it has now begun to wait for not counted, if an
    engine is tried so often. -/
def Stage.rank (attempts : Nat) : Stage → Nat
  | .boot .start => 2 * attempts + 4
  | .boot (.importing n) => 2 * (attempts - n) + 2
  | .boot (.pausing n _) => max 3 (2 * (attempts - n) + 1)
  | .start _ => 2
  | .fetch (.start _) | .parser (.grammar _ (.booting _)) | .warm (.booting _) | .enter (.booting _) => 1
  | _ => 0

namespace Boot

variable {s : Service} {n r : Nat}

/-- An attempt that has failed is followed by a pause only if attempts are left. -/
theorem goesTo_attemptFailed (f : Fault)
    (hr : n < s.config.bootAttempts.toNat → 2 * (s.config.bootAttempts.toNat - n) + 1 < r) :
    (attemptFailed n f s).1.GoesTo fun point => (Stage.boot point).rank s.config.bootAttempts.toNat < r := by
  rw [Service.attemptFailed_eq]
  split
  · rename_i h
    have hlt : n < s.config.bootAttempts.toNat := by omega
    have hrank : max 3 (2 * (s.config.bootAttempts.toNat - n) + 1) < r := by
      have := hr hlt
      omega
    split <;> exact hrank
  · rw [Service.failed_eq]
    trivial

theorem goesTo_beginAttempt (hr : 2 * (s.config.bootAttempts.toNat - n) + 2 < r) :
    (beginAttempt n s).1.GoesTo fun point => (Stage.boot point).rank s.config.bootAttempts.toNat < r := by
  rw [beginAttempt_eq]
  split
  · exact goesTo_attemptFailed (s := counted s) _ fun _ => Nat.lt_of_succ_lt hr
  · exact hr

/-- A turn of a boot brings it nearer to its end. -/
theorem goesTo_resume (point : BootStage) (given : Except Fault Reply) :
    (resume point given s).1.GoesTo fun point' => (Stage.boot point').rank s.config.bootAttempts.toNat <
      (Stage.boot point).rank s.config.bootAttempts.toNat := by
  cases point with
  | start =>
    cases given with
    | error f => trivial
    | ok v =>
      refine goesTo_beginAttempt (s := { s with
        phase := .initializing
        counts := { s.counts with boot := { s.counts.boot with operations := s.counts.boot.operations + 1 } }
        log := s.log ++ [.info ("Booting parsing engine '" ++ s.config.engineModule ++ "'...")] }) ?_
      show 2 * (s.config.bootAttempts.toNat - 1) + 2 < 2 * s.config.bootAttempts.toNat + 4
      omega
  | importing attempt =>
    cases given with
    | ok v => trivial
    | error f => exact goesTo_attemptFailed f fun _ => Nat.lt_succ_self _
  | pausing attempt timer =>
    cases given with
    | ok v =>
      refine goesTo_beginAttempt ?_
      show _ < max 3 (2 * (s.config.bootAttempts.toNat - attempt) + 1)
      omega
    | error f =>
      cases timer with
      | none =>
        show (failed f s).1.GoesTo _
        rw [Service.failed_eq]
        trivial
      | some p =>
        show (failed f { s with loop := s.loop.dropTimer p }).1.GoesTo _
        rw [Service.failed_eq]
        trivial

end Boot

namespace Grammars

/-- A load that fails waits no more. -/
theorem goesTo_fetchFailed {R : FetchStage → Prop} (language locator : String) (f : Fault) :
    Work.GoesTo R (fetchFailed language locator f) := by
  unfold fetchFailed
  split
  · exact .bind fun _ => .bind fun _ => .fail _
  · exact .fail _

/-- A load waits for its job once. -/
theorem goesTo_resumeFetch {n : Nat} (point : FetchStage) (given : Except Fault Reply) :
    Work.GoesTo (fun point' => (Stage.fetch point').rank n < (Stage.fetch point).rank n)
      (resumeFetch point given) := by
  cases point with
  | start language =>
    cases given with
    | error f => exact .fail f
    | ok v =>
      show Work.GoesTo _ (startFetch language)
      unfold startFetch
      refine .bind fun s => ?_
      cases kept? s language with
      | some g => exact .done g
      | none =>
        dsimp only
        cases s.engine? with
        | error f => exact .fail f
        | ok engine =>
          refine .bind fun submitted => ?_
          cases submitted with
          | error f => exact goesTo_fetchFailed _ _ f
          | ok p => exact fun _ => Nat.zero_lt_one
  | fetching language locator =>
    cases given with
    | error f => exact goesTo_fetchFailed language locator f
    | ok v => exact .bind fun _ => .bind fun _ => .bind fun _ => .done _

end Grammars

namespace Pool

variable {n : Nat}

/-- Where the grammar has come or failed to come, the request ends. -/
theorem goesTo_grammarCame {R : PoolStage → Prop} (language : String) (result : Except Fault Grammar) :
    Work.GoesTo R (grammarCame language result) := by
  unfold grammarCame
  cases result with
  | error f => exact .fail f
  | ok g =>
    refine .bind fun s => ?_
    split
    · exact .done language
    · unfold create
      refine .bind fun s => ?_
      dsimp only
      cases s.engine? with
      | error f => exact .fail f
      | ok engine =>
        refine .bind fun made => ?_
        cases made with
        | ok parser => exact .bind fun _ => .bind fun _ => .done language
        | error f =>
          dsimp only
          split
          · exact .bind fun _ => .bind fun _ => .fail _
          · exact .fail f

/-- A request for a parser has one turn yet at most where it waits. -/
theorem rank_lt_two (point : PoolStage) : (Stage.parser point).rank n < 2 := by
  obtain ⟨language, point⟩ := point
  cases point with
  | booting name => exact Nat.one_lt_two
  | loading name => exact Nat.zero_lt_two

/-- After the boot it waits for the load, and after that no more. -/
theorem goesTo_resume (point : PoolStage) (given : Except Fault Reply) :
    Work.GoesTo (fun point' => (Stage.parser point').rank n < (Stage.parser point).rank n)
      (resume point given) := by
  obtain ⟨language, point⟩ := point
  refine .call ?_ (goesTo_grammarCame language)
  cases given with
  | error f => cases point <;> exact .fail f
  | ok v =>
    cases point with
    | booting name => exact .bind fun p => fun _ => Nat.zero_lt_one
    | loading name => exact .done _

end Pool

namespace Service

variable {s s' : Service} {roles roles' : Roles Hook Job} {w : Woken} {m : Midst} {mv : Service.Move}
  {t p op : PromiseId} {point : Stage} {on : Option PromiseId} {turn : Turn Stage Reply} {hook : Hook}
  {f : Nat → Service.Move} {c : Config}

/-! ## Tasks that come nearer to their end -/

/-- In a fair run a task that waits for what is settled some time has its next turn some time.  Until then it
    rests where it did. -/
theorem Fair.next_turn (h : Fair s f) (ho : AtRest s roles) (hp : s.loop.place? t = some (point, on))
    (hon : ∀ p, on = some p → ∃ n, (s.moves (upTo f n)).loop.isPending p = false) :
    ∃ n w, (s.moves (upTo f n)).turnOf? (f n) = some w ∧ w.task = t ∧
      (s.moves (upTo f n)).loop.place? t = some (point, on) := by
  classical
  have hsome : ∃ n w, (s.moves (upTo f n)).turnOf? (f n) = some w ∧ w.task = t := h.turn_of_settles ho hp hon
  obtain ⟨w, hw, htask⟩ := Nat.find_spec hsome
  obtain ⟨_, _, hp'⟩ := ho.place?_upTo (f := f) hp fun k hk w hw htask => Nat.find_min hsome hk ⟨w, hw, htask⟩
  exact ⟨_, w, hw, htask, hp'⟩

/-- Each turn of a task that rests so ends it or lets it rest so again, nearer to its end; and in every fair run
    what it waits for is settled some time. -/
structure Falls (c : Config) (rank : Stage → Nat) (K : Service → Stage → Option PromiseId → Prop) : Prop where
  turn : ∀ {s roles w m turn on}, AtRest s roles → s.config = c → HasTurn s roles w m turn →
    s.loop.place? w.task = some (w.stage, on) → K s w.stage on →
    (∃ o, (m.after w.task turn).loop.outcome? w.task = some o) ∨
      ∃ point on', (m.after w.task turn).loop.place? w.task = some (point, on') ∧
        K (m.after w.task turn) point on' ∧ rank point < rank w.stage
  stay : ∀ {s s' roles roles' mv point on}, AtRest s roles → Step s roles mv s' roles' → K s point on →
    K s' point on
  waits : ∀ {s roles f t point p}, AtRest s roles → Underway s roles → s.config = c → Fair s f →
    s.loop.place? t = some (point, some p) → K s point (some p) →
    ∃ n, (s.moves (upTo f n)).loop.isPending p = false

/-- Whatever is done, such a task has ended or rests so. -/
theorem Falls.step {rank : Stage → Nat} {K : Service → Stage → Option PromiseId → Prop} (hk : Falls c rank K)
    (ho : AtRest s roles) (hc : s.config = c) (hst : Step s roles mv s' roles')
    (h : (∃ o, s.loop.outcome? t = some o) ∨ ∃ point on, s.loop.place? t = some (point, on) ∧ K s point on) :
    (∃ o, s'.loop.outcome? t = some o) ∨ ∃ point on, s'.loop.place? t = some (point, on) ∧ K s' point on := by
  rcases h with ⟨o, hout⟩ | ⟨point, on, hp, hK⟩
  · exact .inl ⟨o, hst.outcome?_of_some hout⟩
  · rcases hst.stays_or_turn ho hp with hp' | ⟨w, m, turn, ht, rfl, rfl, he, rfl⟩
    · exact .inr ⟨point, on, hp', hk.stay ho hst hK⟩
    · rw [he]
      exact (hk.turn ho hc ht hp hK).imp_right fun ⟨point, on, hp, hK, _⟩ => ⟨point, on, hp, hK⟩

/-- **In a fair run such a task ends.** -/
theorem Falls.ends {rank : Stage → Nat} {K : Service → Stage → Option PromiseId → Prop} (hk : Falls c rank K)
    (ho : AtRest s roles) (hu : Underway s roles) (hc : s.config = c) (hf : Fair s f)
    (hp : s.loop.place? t = some (point, on)) (hK : K s point on) :
    ∃ n o, (s.moves (upTo f n)).loop.outcome? t = some o := by
  -- By induction on how far the task is from its end.
  obtain ⟨r, hr⟩ : ∃ r, rank point < r := ⟨_, Nat.lt_succ_self _⟩
  induction r generalizing s roles f point on with
  | zero => cases hr
  | succ r ih =>
    obtain ⟨n, w, hw, rfl, hplace⟩ := hf.next_turn ho hp fun p he =>
      hk.waits ho hu hc hf (he ▸ hp) (he ▸ hK)
    obtain ⟨roles₁, ho₁, -, hu₁, hc₁, hK₁⟩ := exists_atRest
      (I := fun s roles => Underway s roles ∧ s.config = c ∧ K s point on)
      (fun ho _ ⟨hu, hc, hK⟩ hst =>
        ⟨hu.step ho hst, (hst.engine_named ho).1.trans hc, hk.stay ho hst hK⟩)
      (upTo f n) ho ⟨hu, hc, hK⟩
    obtain ⟨roles₂, hst⟩ := exists_step ho₁ (f n)
    obtain ⟨m, turn, ht, he⟩ := hst.hasTurn ho₁ hw
    obtain ⟨on', hown⟩ := ht.place
    cases hplace.symm.trans hown
    rw [← moves_upTo_succ] at hst he
    rcases hk.turn ho₁ hc₁ ht hplace hK₁ with ⟨o, hout⟩ | ⟨point', on', hp', hK', hlt⟩
    · exact ⟨n + 1, o, by rw [he]; exact hout⟩
    · rw [← he] at hp' hK'
      obtain ⟨d, o, hout⟩ := ih (ho₁.step hst).1 (hu₁.step ho₁ hst) ((hst.engine_named ho₁).1.trans hc₁)
        (hf.later (n + 1)) hp' hK' (by omega)
      exact ⟨n + 1 + d, o, by rw [moves_upTo_add]; exact hout⟩

/-- The turn has ended the task, or the task rests at a stage of the kind. -/
theorem HasTurn.comes_to {R : Stage → Prop} (ht : HasTurn s roles w m turn)
    (h : (Calls.resume w.stage w.given w.before).1.GoesTo R) :
    (∃ o, (m.after w.task turn).loop.outcome? w.task = some o) ∨
      ∃ point on, (m.after w.task turn).loop.place? w.task = some (point, on) ∧ R point := by
  rw [ht.resumed] at h
  cases turn with
  | rest on point => exact .inr ⟨point, some on, by rw [place?_conclude, if_pos rfl], h⟩
  | giveWay point => exact .inr ⟨point, none, by rw [place?_conclude, if_pos rfl], h⟩
  | finish result => exact .inl ⟨_, outcome?_finish ht.inTurn.unfinished.2 result⟩

/-- A turn that comes to rest nowhere has ended the task. -/
theorem HasTurn.ended_of_goesTo (ht : HasTurn s roles w m turn)
    (h : (Calls.resume w.stage w.given w.before).1.GoesTo fun _ => False) :
    ∃ o, (m.after w.task turn).loop.outcome? w.task = some o := by
  rcases ht.comes_to h with hout | ⟨_, _, _, hnone⟩
  · exact hout
  · exact hnone.elim

/-- It is enough to look at the stages. -/
theorem Falls.of_stages {rank : Stage → Nat} {K : Stage → Prop}
    (hturn : ∀ {point given s}, s.config = c → K point →
      (Calls.resume point given s).1.GoesTo fun point' => K point' ∧ rank point' < rank point)
    (hwaits : ∀ {s roles f t point p}, AtRest s roles → Underway s roles → s.config = c → Fair s f →
      s.loop.place? t = some (point, some p) → K point → ∃ n, (s.moves (upTo f n)).loop.isPending p = false) :
    Falls c rank fun _ point _ => K point where
  turn {s roles w m turn on} ho hc ht hp hK := by
    have hb : w.before.config = c := by
      obtain ⟨i, hb⟩ := ht.before
      rw [hb]
      exact hc
    exact (ht.comes_to (hturn hb hK)).imp_right fun ⟨point, on', hp', hK'⟩ => ⟨point, on', hp', hK'⟩
  stay _ _ := id
  waits := hwaits

/-! ## Shared operations and requests -/

/-- In a fair run the job or the pause ends for which an operation waits. -/
theorem Fair.rest_settles (hf : Fair s f) (ho : AtRest s roles) (hu : Underway s roles)
    (hrole : point.role = .operation hook) (hp : s.loop.place? t = some (point, some p)) :
    ∃ n, (s.moves (upTo f n)).loop.isPending p = false := by
  rcases ho.rests_operation hrole hp p rfl with ⟨j, hj⟩ | htimer
  · exact hf.job_settles ho hu hj
  · exact hf.timer_settles ho hu htimer

theorem falls_boot (c : Config) :
    Falls c (Stage.rank c.bootAttempts.toNat) fun _ point _ => ∃ stage, point = .boot stage := by
  refine .of_stages ?_ fun {s roles f t point p} ho hu _ hf hp ⟨stage, hs⟩ => ?_
  · rintro point given s rfl ⟨stage, rfl⟩
    refine Work.GoesTo.calling ?_ fun _ => fun _ => trivial
    have h := Boot.goesTo_resume (s := s) stage given
    generalize (Boot.resume stage given s).1 = turn at h ⊢
    cases turn with
    | rest on point => exact ⟨⟨_, rfl⟩, h⟩
    | giveWay point => exact ⟨⟨_, rfl⟩, h⟩
    | finish result => trivial
  · have hrole : point.role = .operation .boot := by
      rw [hs]
      rfl
    exact hf.rest_settles ho hu hrole hp

theorem falls_fetch (c : Config) :
    Falls c (Stage.rank c.bootAttempts.toNat) fun _ point _ => ∃ stage, point = .fetch stage := by
  refine .of_stages ?_ fun {s roles f t point p} ho hu _ hf hp ⟨stage, hs⟩ => ?_
  · rintro point given s rfl ⟨stage, rfl⟩
    refine Work.GoesTo.calling ?_ fun _ => fun _ => trivial
    exact (Grammars.goesTo_resumeFetch stage given).mono (fun point h => ⟨⟨point, rfl⟩, h⟩) s
  · have hrole : ∃ language, point.role = .operation (.grammar language) := by
      subst hs
      cases stage with
      | start language => exact ⟨language, rfl⟩
      | fetching language locator => exact ⟨language, rfl⟩
    obtain ⟨language, hrole⟩ := hrole
    exact hf.rest_settles ho hu hrole hp

/-- **In a fair run every shared operation ends.** -/
theorem Fair.operation_ends (hf : Fair s f) (ho : AtRest s roles) (hu : Underway s roles)
    (hop : roles op = .operation hook) : ∃ n o, (s.moves (upTo f n)).loop.outcome? op = some o := by
  rcases isPending_or_settled (ho.sound.assigned.lt_size (p := op) (by simp [hop])) with hopen | hdone
  · obtain ⟨point, on, hp⟩ := ho.exists_place? (by rw [hop]; rfl) hopen
    have hrole := (ho.placed hp).role.symm.trans hop
    cases hook with
    | boot => exact (falls_boot s.config).ends ho hu rfl hf hp (Stage.exists_of_role_boot hrole)
    | grammar language => exact (falls_fetch s.config).ends ho hu rfl hf hp (Stage.exists_of_role_grammar hrole)
  · exact ⟨0, hdone⟩

/-- In a fair run what rests on a shield of an operation is woken some time. -/
theorem Fair.shield_settles (hf : Fair s f) (ho : AtRest s roles) (hu : Underway s roles)
    (hp : s.loop.place? t = some (point, some p)) (hrest : point.rest = .shield hook) :
    ∃ n, (s.moves (upTo f n)).loop.isPending p = false := by
  have hfits := (ho.placed hp).rest
  rw [hrest] at hfits
  obtain ⟨p', op, he, hshield, hop⟩ := hfits
  cases he
  obtain ⟨n, o, hout⟩ := hf.operation_ends ho hu hop
  obtain ⟨roles', ho', hext, -⟩ :=
    exists_atRest (I := fun _ _ => True) (fun _ _ _ _ => trivial) (upTo f n) ho trivial
  obtain ⟨d, hd⟩ := (hf.later n).relay_settles ho' (hext.eq hshield (by simp)) (isPending_of_outcome? hout)
  exact ⟨n + d, by rw [moves_upTo_add]; exact hd⟩

/-- A request for a parser rests here. -/
def AsksParser (stage : Stage) : Prop :=
  (∃ language, stage = .start (.getParser language)) ∨ ∃ point, stage = .parser point

theorem goesTo_parserReply {R : Stage → Prop} (result : Except Fault String) :
    Work.GoesTo R (Calls.parserReply result) := by
  cases result with
  | error f => exact .fail f
  | ok name => exact .bind fun s => .done _

/-- A turn of a request for a parser. -/
theorem goesTo_asksParser (n : Nat) (given : Except Fault Reply) (hK : AsksParser point) :
    Work.GoesTo (fun point' => AsksParser point' ∧ point'.rank n < point.rank n) (Calls.resume point given) := by
  rcases hK with ⟨language, rfl⟩ | ⟨stage, rfl⟩
  · cases given with
    | error f => exact .fail f
    | ok v =>
      refine .bind fun s => .call ?_ goesTo_parserReply
      exact .always (fun point => ⟨.inr ⟨point, rfl⟩, Pool.rank_lt_two point⟩) _
  · refine .call ?_ goesTo_parserReply
    exact (Pool.goesTo_resume stage given).mono fun point h => ⟨.inr ⟨point, rfl⟩, h⟩

theorem falls_request (c : Config) :
    Falls c (Stage.rank c.bootAttempts.toNat) fun _ point _ => AsksParser point := by
  refine .of_stages (fun _ hK => goesTo_asksParser _ _ hK _) fun ho hu _ hf hp hK => ?_
  rcases hK with ⟨language, rfl⟩ | ⟨stage, rfl⟩
  · cases (ho.placed hp).rest
  · exact hf.shield_settles ho hu hp rfl

/-- What is known of a request while nobody asks with what it ends. -/
abbrev ParserAwaited (s : Service) (t : PromiseId) : Prop :=
  Becomes (fun _ => AsksParser) (fun _ _ => True) s t

theorem ParserAwaited.step (h : ParserAwaited s t) (ho : AtRest s roles) (hst : Step s roles mv s' roles') :
    ParserAwaited s' t := by
  refine Becomes.step h ho hst (fun {w m turn} ht he hs _ _ => ?_) (fun _ => id) fun _ => id
  have hgoes := goesTo_asksParser 0 w.given hs w.before
  rw [ht.resumed] at hgoes
  cases turn with
  | rest on point => exact hgoes.1
  | giveWay point => exact hgoes.1
  | finish result => trivial

/-- **In a fair run every request for a parser ends.** -/
theorem Fair.parser_ends (hf : Fair s f) (ho : AtRest s roles) (hu : Underway s roles)
    (h : ParserAwaited s t) : ∃ n o, (s.moves (upTo f n)).loop.outcome? t = some o := by
  rcases h with ⟨point, on, hp, hK⟩ | ⟨o, hout, -⟩
  · exact (falls_request s.config).ends ho hu rfl hf hp hK
  · exact ⟨0, o, hout⟩

end Service

end SourceTrees
