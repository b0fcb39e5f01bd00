import SourceTrees.Proofs.Service.Secluded
import SourceTrees.Proofs.Service.Fetching

/-!
# Failed calls leave the service in order

A call for a language that fails keeps of its work what had been done completely, and nothing else.  It
leaves nothing at work, so that it can be repeated, and where every step goes well the repeated call returns.

## Protocol

* The call is begun where nobody is at work, whatever has been done, has failed or was cancelled before, and
  nothing else is asked for until it has ended.
* The world raises ordinary faults only, and no grammar is null.

## Results

* `Service.Succeeds` — a call that is begun now and left alone returns.
* `Service.Recovers` — how a call that has failed has left the service, and what comes of repeating it.
* **`Service.fails_safely`** — every call that is alone and fails leaves the service so.
-/

set_option autoImplicit false

namespace SourceTrees.Service

open Loop

variable {S s : Service} {roles : Roles Hook Job} {ms : List Service.Move} {c : PromiseId} {call : Call}
  {language : Json} {name : String} {lucky : Prop} {n : Nat} {f : Fault} {P : World → Prop} {W : World}

/-- Everything stays in order if the world changes. -/
theorem Ordered.withWorld (ho : AtRest s roles) (W : World) : AtRest { s with world := W } roles :=
  ho.data rfl rfl rfl rfl rfl

theorem Idle.withWorld (h : s.Idle) (W : World) : Idle { s with world := W } :=
  ⟨h.calls, fun k op hm => h.flights k op (by cases k <;> exact hm)⟩

namespace Secluded

/-- A call that has ended has returned, or it has failed as such calls do. -/
theorem outcome_cases (h : Secluded S s roles lucky c call n) {o : Settled Reply}
    (hout : s.loop.outcome? c = some o) : (∃ v, o = .value v) ∨ ∃ f, o = .failed f ∧ s.Idle ∧
      FailsSafely S s call f ∧ (Refuses S call f ∨ ∃ name, Asks S name call) ∧ (lucky → Refuses S call f) := by
  have hplaced : ∀ {point on}, s.loop.place? c = some (point, on) → False := fun hp => by
    have hopen := h.rest.isPending_of_place? hp
    rw [isPending_of_outcome? hout] at hopen
    cases hopen
  cases h.alone with
  | begun hp hw hm hS hn => exact (hplaced hp).elim
  | asking ha h hp hq hw hm hop hn => exact (hplaced hp).elim
  | running ha h hp hw hm hpool hsame hj hn => exact (hplaced hp).elim
  | returned hv =>
    cases hout.symm.trans hv
    exact .inl ⟨_, rfl⟩
  | failed hf hidle h ha hr =>
    cases hout.symm.trans hf
    exact .inr ⟨_, rfl, hidle, h, ha, hr⟩

/-- A lucky call for its language returns. -/
theorem returns (h : Secluded S s roles True c call n) (ha : Asks S name call) {o : Settled Reply}
    (hout : s.loop.outcome? c = some o) : ∃ v, o = .value v := by
  rcases h.outcome_cases hout with hv | ⟨f, -, -, -, -, hr⟩
  · exact hv
  · exact absurd (hr trivial) ha.not_refused

end Secluded

/-- A call that is begun now and left alone returns: it comes to nothing else, and it ends if the run is
    fair. -/
structure Succeeds (s : Service) (call : Call) : Prop where
  only : ∀ {ms o}, (∀ mv ∈ ms, mv.isCalm = true) →
    ((s.move (.act (.spawn call))).moves ms).loop.outcome? s.loop.promises.size = some o → ∃ v, o = .value v
  ends : ∀ {f}, (∀ i, (f i).isCalm = true) → Fair (s.move (.act (.spawn call))) f →
    ∃ i v, ((s.move (.act (.spawn call))).moves (upTo f i)).loop.outcome? s.loop.promises.size = some (.value v)

/-- In worlds that oblige the call it returns. -/
theorem Steady.succeeds (h : Steady s roles) (ho : AtRest s roles) (hidle : s.Idle)
    (hd : s.workers.dismissed = false) (ha : Asks s name call) (hP : Obliging s.config name call P)
    (hW : P W) : Succeeds { s with world := W } call := by
  have hs : Steady { s with world := W } roles := h.withWorld (hP.raises hW) (hP.fetches hW)
  have ho' : AtRest { s with world := W } roles := ho.withWorld W
  have ha' : Asks { s with world := W } name call := ha.congr rfl
  obtain ⟨roles', hbegun⟩ := Secluded.begins True call hs ho' hd (hidle.withWorld W)
    fun _ {name'} ha'' => by
      obtain rfl : name' = name := by
        cases ha''.asked?.symm.trans ha'.asked?
        rfl
      exact ⟨P, hP, .start hs.named ho' rfl hW⟩
  have honly : ∀ {ms o}, (∀ mv ∈ ms, mv.isCalm = true) →
      ((Service.move { s with world := W } (.act (.spawn call))).moves ms).loop.outcome?
        s.loop.promises.size = some o → ∃ v, o = .value v := by
    intro ms o hms hout
    obtain ⟨_, h'⟩ := hbegun.moves ha.asked? _ hms
    exact h'.returns ha' hout
  refine ⟨honly, fun {f} hcalm hf => ?_⟩
  obtain ⟨i, hi⟩ := hbegun.ends trivial ha.asked? hcalm hf
  have hms : ∀ mv ∈ upTo f i, mv.isCalm = true := fun mv hmem => by
    obtain ⟨k, -, rfl⟩ := List.mem_map.1 hmem
    exact hcalm k
  obtain ⟨_, h'⟩ := hbegun.moves ha.asked? _ hms
  obtain ⟨o, hout⟩ := h'.alone.outcome?_of_ended h'.rest hi
  obtain ⟨v, rfl⟩ := honly hms hout
  exact ⟨i, v, hout⟩

/-- How a call that has been alone and has failed has left the service, and what comes of it when it is
    begun again in a world that obliges it. -/
structure Recovers (S s : Service) (call : Call) (f : Fault) : Prop where
  left : FailsSafely S s call f
  idle : s.Idle
  again : Refuses S call f ∨ ∃ name, Asks S name call ∧
    ∀ {P : World → Prop} {W : World}, Obliging S.config name call P → P W → Succeeds { s with world := W } call

/-- **A call for a language that is alone and fails leaves the service in order, and can be repeated.**
    Whatever has been done before, and however the run of the call goes: it is told by what it has failed how
    much of its work is kept, nobody is at work any more, and where every step goes well it returns when it is
    begun again. -/
theorem fails_safely (config : Config) {world : World} (hr : world.RaisesWell) (hf : world.FetchesWell)
    (eager : Bool) (stuck : Option Fault) (log : List LogLine) {before after : List Service.Move}
    (hsp : Along SparesOperations (opened config world eager stuck log) before)
    (hopen : ((opened config world eager stuck log).moves before).workers.dismissed = false)
    (hidle : ((opened config world eager stuck log).moves before).Idle) (hcall : call.asked? = some language)
    (hcalm : ∀ mv ∈ after, mv.isCalm = true)
    (hfailed : ((opened config world eager stuck log).moves
      (before ++ .act (.spawn call) :: after)).loop.outcome?
      ((opened config world eager stuck log).moves before).loop.promises.size = some (.failed f)) :
    Recovers ((opened config world eager stuck log).moves before)
      ((opened config world eager stuck log).moves (before ++ .act (.spawn call) :: after)) call f := by
  obtain ⟨roles, ho, -, hs⟩ := exists_along (A := SparesOperations) (I := Steady)
    (fun ho _ hsp h hst => h.step ho hst hsp) before (Ordered.opened ..).rest hsp (.opened hr hf ..)
  rw [moves_append] at hfailed ⊢
  generalize (opened config world eager stuck log).moves before = S at *
  obtain ⟨roles₁, hbegun⟩ := Secluded.begins False call hs ho hopen hidle nofun
  obtain ⟨roles₂, h⟩ := hbegun.moves hcall after hcalm
  have h' : Secluded S (S.moves (.act (.spawn call) :: after)) roles₂ False S.loop.promises.size call 10 := h
  generalize S.moves (.act (.spawn call) :: after) = s at *
  rcases h'.outcome_cases hfailed with ⟨v, hv⟩ | ⟨_, he, hidle', hfails, ha, -⟩
  · cases hv
  cases he
  refine ⟨hfails, hidle', ha.imp_right fun ⟨name, ha⟩ => ⟨name, ha, fun hP hW => ?_⟩⟩
  have hd : s.workers.dismissed = false := h'.staffed fun v hv => by cases hfailed.symm.trans hv
  exact h'.toSteady.succeeds h'.rest hidle' hd (ha.congr h'.config) (h'.config ▸ hP) hW

/-- The engine is booted. -/
def engineBooted : List Service.Move :=
  .act (.spawn .init) :: List.replicate 8 (.serve 0) ++ .act (.release 0) :: List.replicate 8 (.serve 0)

/-- The run of a call that needs one job. -/
def oneJob : List Service.Move :=
  List.replicate 8 (.serve 0) ++ .act (.release 0) :: List.replicate 8 (.serve 0)

/-- The run of a call that needs three jobs. -/
def threeJobs : List Service.Move := oneJob ++ .act (.release 0) :: List.replicate 8 (.serve 0) ++
  .act (.release 0) :: List.replicate 8 (.serve 0)

/-- A parse in the one language that there is. -/
def plainParse : Call := .parse (.text "x = 1") (.str "python")

/-- The parse has failed, since the grammar could not be fetched. -/
def unfetched : Service :=
  (opened {} stumblingGrammar false none []).moves (engineBooted ++ .act (.spawn plainParse) :: oneJob)

/-- The parse is begun again where the grammar can be fetched. -/
def begunAgain : Service := Service.move { unfetched with world := singleLanguage } (.act (.spawn plainParse))

/-- The run of the parse that has been begun again. -/
def repeating (i : Nat) : Service.Move := threeJobs[i]?.getD (.serve 0)

theorem fair_repeating : Fair begunAgain repeating := by
  obtain ⟨roles, ho⟩ : ∃ roles, AtRest begunAgain roles := by
    unfold begunAgain unfetched
    obtain ⟨_, hfirst⟩ := (Ordered.opened {} stumblingGrammar false none []).rest.atRest_moves
      (engineBooted ++ .act (.spawn plainParse) :: oneJob)
    generalize (opened {} stumblingGrammar false none []).moves _ = s at hfirst ⊢
    exact (hfirst.withWorld singleLanguage).atRest_moves [.act (.spawn plainParse)]
  have hmem : ∀ mv ∈ threeJobs, mv = .serve 0 ∨ mv = .act (.release 0) := by
    simp [threeJobs, oneJob]
  have hlate : ∀ n, threeJobs.length ≤ n → repeating n = .serve 0 := fun n hn => by
    rw [repeating, List.getElem?_eq_none hn]
    rfl
  refine .of_quiet ho (k := threeJobs.length) (fun n => ?_) hlate ?_ ?_ ?_
  · by_cases hn : n < threeJobs.length
    · have hget : repeating n = threeJobs[n] := by
        rw [repeating, List.getElem?_eq_getElem hn]
        rfl
      exact hget ▸ (hmem _ (List.getElem_mem hn)).imp_right fun h => ⟨0, h⟩
    · exact .inl (hlate n (Nat.le_of_not_lt hn))
  all_goals exact List.isEmpty_iff.1 (by decide +kernel)

/-- A parse for which the grammar cannot be fetched leaves the engine ready and nothing behind, and returns
    when it is begun again where the grammar can be fetched. -/
theorem fails_safely_stumbling :
    stumblingGrammar.RaisesWell ∧ stumblingGrammar.FetchesWell ∧
      Along SparesOperations (opened {} stumblingGrammar false none []) engineBooted ∧
      ((opened {} stumblingGrammar false none []).moves engineBooted).workers.dismissed = false ∧
      ((opened {} stumblingGrammar false none []).moves engineBooted).Idle ∧
      plainParse.asked? = some (.str "python") ∧ (∀ mv ∈ oneJob, mv.isCalm = true) ∧
      ((opened {} stumblingGrammar false none []).moves engineBooted).loop.promises.size = 4 ∧
      ∃ f, unfetched.loop.outcome? 4 = some (.failed f) ∧
        f.message = "Could not load grammar for python: not yet" ∧
        Recovers ((opened {} stumblingGrammar false none []).moves engineBooted) unfetched plainParse f ∧
        Succeeds { unfetched with world := singleLanguage } plainParse ∧
        ∃ i v, (begunAgain.moves (upTo repeating i)).loop.outcome? 8 = some (.value v) := by
  have hparses : stumblingGrammar.parses.entries = [] := rfl
  have hr : stumblingGrammar.RaisesWell := .of_entries (by decide +kernel) (by simp [hparses])
  have hf : stumblingGrammar.FetchesWell := .of_entries (by decide +kernel)
  have hsp : Along SparesOperations (opened {} stumblingGrammar false none []) engineBooted := by decide +kernel
  have hopen : ((opened {} stumblingGrammar false none []).moves engineBooted).workers.dismissed = false := by
    decide +kernel
  have hidle : ((opened {} stumblingGrammar false none []).moves engineBooted).Idle :=
    .of_isEmpty (by decide +kernel) (by decide +kernel) (by decide +kernel)
  have hcalm : ∀ mv ∈ oneJob, mv.isCalm = true := by decide +kernel
  have hsize : ((opened {} stumblingGrammar false none []).moves engineBooted).loop.promises.size = 4 := by
    decide +kernel
  have hfault : ((unfetched.loop.outcome? 4).bind Settled.fault?).map (·.message) =
      some "Could not load grammar for python: not yet" := by decide +kernel
  obtain ⟨f, hfault, hmessage⟩ := Option.map_eq_some_iff.1 hfault
  obtain ⟨o, hout, hfault⟩ := Option.bind_eq_some_iff.1 hfault
  rw [Settled.eq_failed_of_fault? hfault] at hout
  have hasked : plainParse.asked? = some (.str "python") := rfl
  have hrecovers := fails_safely {} hr hf false none [] hsp hopen hidle hasked hcalm
    (by rw [hsize]; exact hout)
  have hcalls : singleLanguage.parses.entries = [(Text.Utf8.encode "x = 1", ⟨[.tree default]⟩)] := rfl
  have hfixed : singleLanguage.Fixed {} :=
    .of_entries (by decide +kernel) (by simp [hcalls]) (.of_entries (by decide +kernel) (by simp [hcalls]))
      (.of_entries (by decide +kernel))
  have hok : ∀ {α : Type} {x : Except Fault α}, x.isOk = true → ∃ y, x = .ok y := by
    intro α x h
    cases x with
    | ok y => exact ⟨y, rfl⟩
    | error f => cases h
  obtain ⟨P, hP, hobliging⟩ : ∃ P, P singleLanguage ∧ Obliging {} "python" plainParse P := by
    refine hfixed.obliging (hok (by decide +kernel)) (hok (by decide +kernel)) (hok (by decide +kernel))
      fun {code source} hcall hcode script hs => ?_
    have hmem := Keyed.mem_of_lookIn hs
    rw [hcalls] at hmem
    cases List.mem_singleton.1 hmem
    exact ⟨_, rfl⟩
  have hsucceeds : Succeeds { unfetched with world := singleLanguage } plainParse := by
    have hconfig : ((opened {} stumblingGrammar false none []).moves engineBooted).config = {} :=
      ((Ordered.opened {} stumblingGrammar false none []).rest.config_moves _).trans (config_opened ..)
    have hvalid : (((opened {} stumblingGrammar false none []).moves engineBooted).validate
        (.str "python")).isOk = true := by decide +kernel
    obtain ⟨name, hv⟩ := hok hvalid
    cases validate_eq_ok hv
    rcases hrecovers.again with hrefused | ⟨name, ha, hagain⟩
    · exact absurd hrefused (Asks.parse hv rfl).not_refused
    · cases ha.asked?
      rw [hconfig] at hagain
      exact hagain hobliging hP
  have hcalm' : ∀ i, (repeating i).isCalm = true := fun i => by
    have hearly : ∀ i < threeJobs.length, (repeating i).isCalm = true := by decide +kernel
    by_cases hi : i < threeJobs.length
    · exact hearly i hi
    · rw [repeating, List.getElem?_eq_none (Nat.le_of_not_lt hi)]
      rfl
  have hsize' : unfetched.loop.promises.size = 8 := by decide +kernel
  obtain ⟨i, v, hi⟩ := hsucceeds.ends hcalm' fair_repeating
  simp only [hsize'] at hi
  exact ⟨hr, hf, hsp, hopen, hidle, hasked, hcalm, hsize, f, hout, hmessage, hrecovers, hsucceeds, i, v, hi⟩

end SourceTrees.Service
