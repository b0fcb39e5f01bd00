import Mathlib.Data.List.Induction
import SourceTrees.Config.Cached
import SourceTrees.Proofs.Config.Locators

/-!
# One configuration between two resets

Whatever is asked of the settings, in whatever order, the configuration that is kept is the one that the
environment gave when it was first asked for after the last reset.  Loading further configurations, and
entering locators into those, changes neither the kept one nor the defaults nor any that is made later.

## Protocol

* A **session** is a list of requests to settings that have made nothing yet.
* Locators are entered into configurations that come from a load.  Tables are changed in place: what is
  entered through one holder is seen by every other holder of the same place.

## Results

* `Settings.Effect`, `Settings.effect_step` — all that a request can do.
* `Settings.InPlace` — every configuration has a place of its own, and none that of the defaults; kept by
  every step, `Settings.InPlace.effect`.
* `Settings.Effect.look` — a configuration stays as it is unless something is entered into it.
* `Settings.kept_after_eq_none_iff` — nothing is kept if no request for the kept configuration has been
  granted since the last reset.
* **`Settings.keeps_one`** — the law for every session.
-/

set_option autoImplicit false

namespace SourceTrees.Settings

variable {s s' : Settings} {h g : Held} {r : Request} {env : Environment} {past : List Request}
  {f : Fault} {i : Instance}

/-! ## Sessions -/

/-- What a request does to the environment. -/
def Request.onEnvironment (env : Environment) : Request → Environment
  | .set name value => env.put name value
  | .unset name => env.erase name
  | _ => env

/-- Is a configuration loaded? -/
def Request.loads : Request → Bool
  | .load | .extend .. => true
  | _ => false

/-- The environment after requests. -/
def environmentAfter (env : Environment) (past : List Request) : Environment :=
  past.foldl Request.onEnvironment env

/-- The settings after requests. -/
def after (env : Environment) (past : List Request) : Settings := (run { environment := env } past).1

/-- The answer to a request that comes after others. -/
def answer (env : Environment) (past : List Request) (r : Request) : Answer :=
  ((after env past).step r).2

theorem run_append (xs ys : List Request) : ∀ s : Settings,
    s.run (xs ++ ys) = (((s.run xs).1.run ys).1, (s.run xs).2 ++ ((s.run xs).1.run ys).2) := by
  induction xs with
  | nil => intro s; rfl
  | cons x xs ih =>
    intro s
    simp only [List.cons_append, run, ih]

theorem length_run (xs : List Request) : ∀ s : Settings, (s.run xs).2.length = xs.length := by
  induction xs with
  | nil => intro s; rfl
  | cons x xs ih =>
    intro s
    simp only [run, List.length_cons, ih]

@[simp] theorem after_nil : after env [] = { environment := env } := rfl

@[simp] theorem after_snoc (past : List Request) (r : Request) :
    after env (past ++ [r]) = ((after env past).step r).1 := by
  unfold after
  rw [run_append]
  rfl

/-- The answers of a session are the answers to its requests, each after those before it. -/
theorem answers_run (past : List Request) (r : Request) (rest : List Request) :
    (run { environment := env } (past ++ r :: rest)).2[past.length]? = some (answer env past r) := by
  rw [run_append]
  dsimp only
  rw [List.getElem?_append_right (Nat.le_of_eq (length_run past _)), length_run, Nat.sub_self]
  rfl

/-! ## What requests do -/

/-- A configuration has been made. -/
structure Making (s : Settings) (h : Held) (s' : Settings) : Prop where
  loads : ∃ lines, Config.load s.environment s.defaults = .ok (h.asMade, lines)
  number : h.number = s.made.length
  place : h.place = s.tables.length
  eq : s' = { s with tables := s.tables ++ [h.asMade.locators], made := s.made ++ [h] }

theorem making (hm : s.make = .ok (h, s')) : Making s h s' := by
  unfold make at hm
  obtain ⟨⟨c, lines⟩, hc, hm⟩ := Config.exists_of_bind_eq_ok hm
  cases hm
  exact ⟨⟨lines, hc⟩, rfl, rfl, rfl⟩

theorem Making.made (hm : Making s h s') : s'.made[h.number]? = some h := by
  rw [hm.eq, hm.number, List.getElem?_concat_length]

theorem Making.length (hm : Making s h s') : s'.made.length = s.made.length + 1 := by
  rw [hm.eq]
  simp

theorem make_error (hm : s.make = .error f) : Config.load s.environment s.defaults = .error f := by
  unfold make at hm
  cases hc : Config.load s.environment s.defaults with
  | error f' =>
    rw [hc] at hm
    cases hm
    rfl
  | ok c =>
    rw [hc] at hm
    cases hm

/-- All that a request can do to the settings. -/
inductive Effect (s : Settings) : Request → Settings → Prop
  | set {name value : String} :
    Effect s (.set name value) { s with environment := s.environment.put name value }
  | unset {name : String} : Effect s (.unset name) { s with environment := s.environment.erase name }
  | forgotten : Effect s .reset { s with kept := none }
  | nothing {r : Request} (hr : r ≠ .reset) (he : ∀ env, r.onEnvironment env = env) : Effect s r s
  | kept {h : Held} {s' : Settings} (hk : s.kept = none) (hm : s.make = .ok (h, s')) :
    Effect s .get { s' with kept := some h }
  | loaded {h : Held} {s' : Settings} (hm : s.make = .ok (h, s')) : Effect s .load s'
  | entered {number : Nat} {h : Held} {language locator : String} (hm : s.made[number]? = some h) :
    Effect s (.enter number language locator) (s.enterInto h language locator)
  | extended {h : Held} {s' : Settings} {language locator : String} (hm : s.make = .ok (h, s')) :
    Effect s (.extend language locator) (s'.enterInto h language locator)

theorem effect_step (s : Settings) (r : Request) : Effect s r (s.step r).1 := by
  have hidle : ∀ {r : Request}, r ≠ .reset → (∀ env, r.onEnvironment env = env) → Effect s r s := .nothing
  cases r with
  | set name value => exact .set
  | unset name => exact .unset
  | reset => exact .forgotten
  | get =>
    simp only [step]
    split
    · exact hidle nofun fun _ => rfl
    · split
      · exact .kept ‹_› ‹_›
      · exact hidle nofun fun _ => rfl
  | load =>
    simp only [step]
    split
    · exact .loaded ‹_›
    · exact hidle nofun fun _ => rfl
  | enter number language locator =>
    simp only [step]
    split
    · exact .entered ‹_›
    · exact hidle nofun fun _ => rfl
  | extend language locator =>
    simp only [step]
    split
    · exact .extended ‹_›
    · exact hidle nofun fun _ => rfl

theorem Effect.environment (he : Effect s r s') : s'.environment = r.onEnvironment s.environment := by
  cases he with
  | nothing _ he => exact (he _).symm
  | kept _ hm | loaded hm | extended hm => rw [(making hm).eq]; rfl
  | _ => rfl

theorem environment_after (past : List Request) :
    (after env past).environment = environmentAfter env past := by
  induction past using List.reverseRecOn with
  | nil => rfl
  | append_singleton past r ih =>
    rw [after_snoc, (effect_step _ r).environment, ih]
    simp only [environmentAfter, List.foldl_append, List.foldl_cons, List.foldl_nil]

/-! ## Places -/

theorem number_lt_of_made (hh : s.made[h.number]? = some h) : h.number < s.made.length :=
  (List.getElem?_eq_some_iff.1 hh).1

/-- Every configuration has been numbered as it was made, and stands at a place of its own, after that of
    the defaults; what is kept has been made. -/
structure InPlace (s : Settings) : Prop where
  defaults : s.tables[0]? = some defaultLocators
  length : s.tables.length = s.made.length + 1
  placed : ∀ {n h}, s.made[n]? = some h → h.number = n ∧ h.place = n + 1
  kept : ∀ {h}, s.kept = some h → s.made[h.number]? = some h

namespace InPlace

theorem opened : InPlace { environment := env } where
  defaults := rfl
  length := rfl
  placed hm := by cases hm
  kept hk := by cases hk

theorem defaults_eq (hs : InPlace s) : s.defaults = defaultLocators := by
  unfold Settings.defaults table
  rw [hs.defaults]
  rfl

/-- A configuration that is made gets the next number and a new place. -/
theorem making (hs : InPlace s) (hm : Making s h s') : InPlace s' := by
  have hn := hm.number
  have hp := hm.place
  have hlength := hs.length
  rw [hm.eq]
  refine ⟨?_, by simp [hlength], fun {n g} hg => ?_, fun hg => ?_⟩
  · rw [List.getElem?_append_left (by omega)]
    exact hs.defaults
  · rcases Nat.lt_or_ge n s.made.length with hlt | hge
    · rw [List.getElem?_append_left hlt] at hg
      exact hs.placed hg
    · rw [List.getElem?_append_right hge, List.getElem?_singleton] at hg
      split at hg
      · cases hg
        omega
      · cases hg
  · rw [List.getElem?_append_left (number_lt_of_made (hs.kept hg))]
    exact hs.kept hg

/-- Entering a locator leaves every table where it stands. -/
theorem enterInto (hs : InPlace s) (hm : s.made[h.number]? = some h) (language locator : String) :
    InPlace (s.enterInto h language locator) where
  defaults := by
    have hp := (hs.placed hm).2
    simp only [Settings.enterInto, List.getElem?_modify, hp, Nat.add_one_ne_zero, if_false]
    simpa using hs.defaults
  length := by
    simp only [Settings.enterInto, List.length_modify]
    exact hs.length
  placed := hs.placed
  kept := hs.kept

theorem effect (hs : InPlace s) (he : Effect s r s') : InPlace s' := by
  cases he with
  | set | unset => exact ⟨hs.defaults, hs.length, hs.placed, hs.kept⟩
  | forgotten => exact ⟨hs.defaults, hs.length, hs.placed, nofun⟩
  | nothing => exact hs
  | @kept _ t _ hm =>
    have hs' : InPlace t := hs.making (Settings.making hm)
    refine ⟨hs'.defaults, hs'.length, hs'.placed, fun hk => ?_⟩
    cases hk
    exact (Settings.making hm).made
  | loaded hm => exact hs.making (Settings.making hm)
  | entered hm => exact hs.enterInto ((hs.placed hm).1 ▸ hm) _ _
  | extended hm => exact (hs.making (Settings.making hm)).enterInto (Settings.making hm).made _ _

end InPlace

/-- Every session leaves every configuration at its place. -/
theorem inPlace_after (past : List Request) : InPlace (after env past) := by
  induction past using List.reverseRecOn with
  | nil => exact .opened
  | append_singleton past r ih =>
    rw [after_snoc]
    exact ih.effect (effect_step _ r)

/-! ## What stays as it is -/

/-- What is entered at one place is not seen at another one. -/
theorem look_enterInto_of_ne (hp : h.place ≠ g.place) (language locator : String) :
    (s.enterInto g language locator).look h = s.look h := by
  simp only [look, table, enterInto, List.getElem?_modify, if_neg (Ne.symm hp), id_map']

/-- A table that is made is a new one. -/
theorem Making.look_of_lt (hm : Making s g s') (hp : h.place < s.tables.length) :
    s'.look h = s.look h := by
  rw [hm.eq]
  simp only [look, table, List.getElem?_append_left hp]

/-- A configuration is first seen as it was made. -/
theorem Making.look_new (hm : Making s h s') : s'.look h = ⟨h.number, h.asMade⟩ := by
  rw [hm.eq]
  simp only [look, table, hm.place, List.getElem?_concat_length, Option.getD_some]

/-- A configuration stays as it is unless something is entered into it. -/
theorem Effect.look (he : Effect s r s') (hs : InPlace s) (hh : s.made[h.number]? = some h)
    (hr : ∀ language locator, r ≠ .enter h.number language locator) : s'.look h = s.look h := by
  have hplace : h.place = h.number + 1 := (hs.placed hh).2
  have hbefore : h.place < s.tables.length := by
    have := number_lt_of_made hh
    have := hs.length
    omega
  cases he with
  | @kept _ t _ hm => exact ((making hm).look_of_lt hbefore : t.look h = _)
  | loaded hm => exact (making hm).look_of_lt hbefore
  | entered hm =>
    refine look_enterInto_of_ne (fun he => ?_) _ _
    have hg := hs.placed hm
    exact hr _ _ (congrArg (Request.enter · _ _) (by omega))
  | extended hm =>
    have hnew := (making hm).place
    rw [look_enterInto_of_ne (by omega)]
    exact (making hm).look_of_lt hbefore
  | _ => rfl

/-! ## What is kept -/

/-- Only a reset takes away what is kept. -/
theorem Effect.kept_of_some (he : Effect s r s') (hk : s.kept = some h) (hr : r ≠ .reset) :
    s'.kept = some h := by
  cases he with
  | forgotten => exact absurd rfl hr
  | kept hn _ => cases hn.symm.trans hk
  | loaded hm | extended hm =>
    rw [(making hm).eq]
    exact hk
  | _ => exact hk

/-- Only a request for the kept configuration keeps one, which it makes. -/
theorem Effect.kept_of_none (he : Effect s r s') (hn : s.kept = none) (hk : s'.kept = some h) :
    r = .get ∧ ∃ s', s.make = .ok (h, s') := by
  cases he with
  | forgotten => cases hk
  | kept _ hm =>
    cases hk
    exact ⟨rfl, _, hm⟩
  | loaded hm | extended hm =>
    rw [(making hm).eq] at hk
    cases hn.symm.trans hk
  | _ => cases hn.symm.trans hk

theorem step_get_of_some (hk : s.kept = some h) : s.step .get = (s, .config (s.look h)) := by
  simp only [step, hk]

theorem step_get_of_ok (hn : s.kept = none) (hm : s.make = .ok (h, s')) :
    s.step .get = ({ s' with kept := some h }, .config (s'.look h)) := by
  simp only [step, hn, hm]

theorem step_get_of_error (hn : s.kept = none) (hm : s.make = .error f) :
    s.step .get = (s, .failed f) := by
  simp only [step, hn, hm]

/-- A request for the kept configuration is granted and one is kept, or it fails and nothing is kept. -/
theorem step_get_cases (s : Settings) :
    (∃ h, (s.step .get).1.kept = some h ∧ (s.step .get).2 = .config ((s.step .get).1.look h)) ∨
      ∃ f, s.kept = none ∧ s.make = .error f ∧ s.step .get = (s, .failed f) := by
  cases hk : s.kept with
  | some h =>
    rw [step_get_of_some hk]
    exact .inl ⟨h, hk, rfl⟩
  | none =>
    cases hm : s.make with
    | ok made =>
      rw [step_get_of_ok hk hm]
      exact .inl ⟨made.1, rfl, rfl⟩
    | error f => exact .inr ⟨f, rfl, rfl, step_get_of_error hk hm⟩

/-! ## Numbers -/

theorem Effect.made_le (he : Effect s r s') : s.made.length ≤ s'.made.length := by
  cases he with
  | kept _ hm | loaded hm | extended hm =>
    have hlength := (making hm).length
    exact Nat.le_trans (Nat.le_succ _) (Nat.le_of_eq hlength.symm)
  | _ => exact Nat.le_refl _

theorem made_after_le (past rest : List Request) :
    (after env past).made.length ≤ (after env (past ++ rest)).made.length := by
  induction rest using List.reverseRecOn with
  | nil => simp
  | append_singleton rest r ih =>
    rw [← List.append_assoc, after_snoc]
    exact Nat.le_trans ih (effect_step _ r).made_le

/-- A configuration that is loaded has the next number. -/
theorem number_of_loads (hr : r.loads = true) (ha : (s.step r).2 = .config i) :
    i.number = s.made.length ∧ (s.step r).1.made.length = s.made.length + 1 := by
  cases r with
  | load =>
    simp only [step] at ha ⊢
    split at ha
    · rename_i hm
      cases ha
      exact ⟨(making hm).number, (making hm).length⟩
    · cases ha
  | extend language locator =>
    simp only [step] at ha ⊢
    split at ha
    · rename_i h s' hm
      cases ha
      exact ⟨(making hm).number, ((making hm).length : s'.made.length = _)⟩
    · cases ha
  | _ => cases hr

/-- A configuration that is shown has been made. -/
theorem number_lt (hs : InPlace s) (ha : (s.step r).2 = .config i) :
    i.number < (s.step r).1.made.length := by
  cases r with
  | load | extend =>
    obtain ⟨hn, hl⟩ := number_of_loads rfl ha
    omega
  | get =>
    rcases step_get_cases s with ⟨h, hk, he⟩ | ⟨f, -, -, he⟩
    · rw [he] at ha
      cases ha
      have hs' := hs.effect (effect_step s .get)
      exact number_lt_of_made (hs'.kept hk)
    · rw [he] at ha
      cases ha
  | enter number language locator =>
    simp only [step] at ha ⊢
    split at ha
    · rename_i h hm
      cases ha
      exact number_lt_of_made ((hs.placed hm).1 ▸ hm)
    · cases ha
  | _ => cases ha

/-! ## The law -/

/-- No request for the kept configuration has been granted since the last reset. -/
def NoneGranted (env : Environment) (past : List Request) : Prop :=
  ∀ earlier later, past = earlier ++ .get :: later → .reset ∉ later →
    ∃ f, answer env earlier .get = .failed f

/-- No answer has shown a configuration of the number. -/
def Unseen (env : Environment) (past : List Request) (number : Nat) : Prop :=
  ∀ earlier r later i, past = earlier ++ r :: later → answer env earlier r = .config i → i.number ≠ number

/-- The answer shows a new configuration, the one that the environment gives, with what has been entered
    into it at once; or it tells why the environment gives none. -/
def Fresh (env : Environment) (past : List Request) (entered : LocatorTable → LocatorTable) :
    Answer → Prop
  | .config i => Unseen env past i.number ∧ ∃ c lines,
      Config.load (environmentAfter env past) = .ok (c, lines) ∧
        i.config = { c with locators := entered c.locators }
  | .failed f => Config.load (environmentAfter env past) = .error f
  | .done => False

/-- What an answer tells of a configuration, whichever it is. -/
def Answer.told : Answer → Option (Except Fault Config)
  | .done => none
  | .config i => some (.ok i.config)
  | .failed f => some (.error f)

/-- Does the request concern configurations that are loaded, and no other? -/
def Request.isAside : Request → Bool
  | .load | .extend .. | .enter .. => true
  | _ => false

/-- Locators are entered only into configurations that have been loaded. -/
def EntersLoaded (env : Environment) (session : List Request) : Prop :=
  ∀ past number language locator rest, session = past ++ .enter number language locator :: rest →
    ∃ earlier r later i, past = earlier ++ r :: later ∧ r.loads = true ∧
      answer env earlier r = .config i ∧ i.number = number

/-- The law of a session. -/
structure KeepsOne (env : Environment) (session : List Request) : Prop where
  /-- The first request for the kept configuration since the last reset reads the environment as it then
      stands. -/
  first : ∀ {past}, past <+: session → NoneGranted env past → Fresh env past id (answer env past .get)
  /-- Until the next reset all such requests are answered alike. -/
  same : ∀ {past during i}, past ++ .get :: during <+: session → .reset ∉ during →
    answer env past .get = .config i → answer env (past ++ .get :: during) .get = .config i
  /-- Every answer to such a request is the one to the first that was granted since the last reset. -/
  whence : ∀ {past i}, past <+: session → answer env past .get = .config i → ∃ before during,
    past ++ [.get] = before ++ .get :: during ∧ .reset ∉ during ∧ NoneGranted env before ∧
      answer env before .get = .config i
  /-- Nothing is kept where a request has failed. -/
  empty : ∀ {past f}, past <+: session → answer env past .get = .failed f →
    (after env (past ++ [.get])).kept = none
  /-- A load reads the environment as it stands, and makes a new configuration. -/
  loaded : ∀ {past}, past <+: session → Fresh env past id (answer env past .load)
  /-- So does a load that enters a locator into what it has made. -/
  extended : ∀ {past language locator}, past <+: session →
    Fresh env past (·.put language locator) (answer env past (.extend language locator))
  /-- What is entered into a configuration is there. -/
  entered : ∀ {past number language locator i}, past <+: session →
    answer env past (.enter number language locator) = .config i →
      i.number = number ∧ i.config.locators.get? language = some locator
  /-- Requests for the kept configuration are told the same in the session without the loads. -/
  aside : ∀ {past}, past <+: session →
    (answer env past .get).told = (answer env (past.filter fun r => !r.isAside) .get).told
  /-- The defaults stay as they are. -/
  defaults : (after env session).defaults = defaultLocators

/-! ## Which configuration is kept -/

/-- A number that has not been given away has not been shown. -/
theorem unseen_after (past : List Request) {number : Nat} (hn : (after env past).made.length ≤ number) :
    Unseen env past number := by
  rintro earlier r later i rfl ha
  have hlt := number_lt (inPlace_after earlier) ha
  have hle := @made_after_le env (earlier ++ [r]) later
  rw [after_snoc, List.append_assoc, List.singleton_append] at hle
  omega

/-- What is kept was made by a request since when nothing has been reset. -/
theorem exists_keeping (past : List Request) (hk : (after env past).kept = some h) :
    ∃ before during s', past = before ++ .get :: during ∧ .reset ∉ during ∧
      (after env before).kept = none ∧ (after env before).make = .ok (h, s') := by
  induction past using List.reverseRecOn with
  | nil => cases hk
  | append_singleton past r ih =>
    rw [after_snoc] at hk
    have he := effect_step (after env past) r
    cases hpast : (after env past).kept with
    | none =>
      obtain ⟨rfl, s', hm⟩ := he.kept_of_none hpast hk
      exact ⟨past, [], s', rfl, by simp, hpast, hm⟩
    | some g =>
      have hr : r ≠ .reset := by
        rintro rfl
        cases hk
      have hg : g = h := Option.some.inj ((he.kept_of_some hpast hr).symm.trans hk)
      obtain ⟨before, during, s', rfl, hreset, hn, hm⟩ := ih (hg ▸ hpast)
      refine ⟨before, during ++ [r], s', by simp, ?_, hn, hm⟩
      rw [List.mem_append, List.mem_singleton, not_or]
      exact ⟨hreset, hr.symm⟩

/-- Nothing is kept if no request has been granted since the last reset. -/
theorem kept_after_eq_none_iff (past : List Request) :
    (after env past).kept = none ↔ NoneGranted env past := by
  constructor
  · rintro hn earlier later rfl hreset
    rcases step_get_cases (after env earlier) with ⟨h, hk, -⟩ | ⟨f, -, -, he⟩
    · have hstays : ∀ later, .reset ∉ later → (after env (earlier ++ .get :: later)).kept = some h := by
        intro later
        induction later using List.reverseRecOn with
        | nil =>
          intro _
          rw [after_snoc]
          exact hk
        | append_singleton later r ih =>
          intro hreset
          rw [List.mem_append, List.mem_singleton, not_or] at hreset
          rw [← List.cons_append, ← List.append_assoc, after_snoc]
          exact (effect_step _ r).kept_of_some (ih hreset.1) (Ne.symm hreset.2)
      cases hn.symm.trans (hstays later hreset)
    · exact ⟨f, by rw [answer, he]⟩
  · intro hnone
    cases hk : (after env past).kept with
    | none => rfl
    | some h =>
      obtain ⟨before, during, s', rfl, hreset, hn, hm⟩ := exists_keeping past hk
      obtain ⟨f, hf⟩ := hnone before during rfl hreset
      rw [answer, step_get_of_ok hn hm] at hf
      cases hf

/-- Requests at different places of a session have not made configurations of one number. -/
theorem made_ne_of_append_eq {earlier later before during : List Request} {r r' : Request}
    (he : earlier ++ r :: later = before ++ r' :: during) (hr : r ≠ r')
    (hmade : (after env earlier).made.length < (after env (earlier ++ [r])).made.length)
    (hmade' : (after env before).made.length < (after env (before ++ [r'])).made.length) :
    (after env earlier).made.length ≠ (after env before).made.length := by
  have hlt : ∀ {xs ys zs : List Request} {x : Request}, ys = xs ++ x :: zs →
      (after env xs).made.length < (after env (xs ++ [x])).made.length →
      (after env xs).made.length < (after env ys).made.length := by
    rintro xs ys zs x rfl hx
    have hle := @made_after_le env (xs ++ [x]) zs
    rw [List.append_assoc, List.singleton_append] at hle
    omega
  rcases List.append_eq_append_iff.1 he with ⟨between, hb, hrest⟩ | ⟨between, hb, hrest⟩
  · cases between with
    | nil => exact absurd (List.cons.inj hrest).1 hr
    | cons x between =>
      cases (List.cons.inj hrest).1
      exact Nat.ne_of_lt (hlt hb hmade)
  · cases between with
    | nil => exact absurd (List.cons.inj hrest).1.symm hr
    | cons x between =>
      cases (List.cons.inj hrest).1
      exact Nat.ne_of_gt (hlt hb hmade')

variable {session : List Request}

/-- Nothing is entered into the kept configuration. -/
theorem EntersLoaded.ne_kept (hs : EntersLoaded env session) {number : Nat} {language locator : String}
    (hp : past ++ [.enter number language locator] <+: session) (hk : (after env past).kept = some h) :
    number ≠ h.number := by
  obtain ⟨rest, rfl⟩ := hp
  obtain ⟨earlier, r, later, i, rfl, hr, ha, rfl⟩ := hs past number language locator rest (by simp)
  obtain ⟨before, during, s', he, -, hn, hm⟩ := exists_keeping _ hk
  obtain ⟨hi, hmade⟩ := number_of_loads hr ha
  rw [hi, (making hm).number]
  refine made_ne_of_append_eq he (fun hget => ?_) ?_ ?_
  · rw [hget] at hr
    cases hr
  · rw [after_snoc]
    omega
  · rw [after_snoc, step_get_of_ok hn hm]
    exact Nat.lt_of_lt_of_eq (Nat.lt_succ_self _) (making hm).length.symm

/-- A request that comes in a session leaves the kept configuration as it is. -/
theorem EntersLoaded.look_step (hs : EntersLoaded env session) (hp : past ++ [r] <+: session)
    (hk : (after env past).kept = some h) : ((after env past).step r).1.look h = (after env past).look h := by
  refine (effect_step _ r).look (inPlace_after past) ((inPlace_after past).kept hk) fun language locator he => ?_
  subst he
  exact hs.ne_kept hp hk rfl

/-- What is kept stays as it is until it is reset. -/
theorem EntersLoaded.stays (hs : EntersLoaded env session) (during : List Request)
    (hp : past ++ during <+: session) (hk : (after env past).kept = some h) (hreset : .reset ∉ during) :
    (after env (past ++ during)).kept = some h ∧
      (after env (past ++ during)).look h = (after env past).look h := by
  induction during using List.reverseRecOn with
  | nil =>
    rw [List.append_nil]
    exact ⟨hk, rfl⟩
  | append_singleton during r ih =>
    rw [← List.append_assoc] at hp ⊢
    rw [List.mem_append, List.mem_singleton, not_or] at hreset
    obtain ⟨hk', hlook⟩ := ih ((List.prefix_append _ _).trans hp) hreset.1
    rw [after_snoc]
    exact ⟨(effect_step _ r).kept_of_some hk' (Ne.symm hreset.2), (hs.look_step hp hk').trans hlook⟩

/-! ## New configurations -/

/-- A configuration that is made is the one that the environment gives. -/
theorem fresh_making {s' : Settings} (hm : Making (after env past) h s')
    (entered : LocatorTable → LocatorTable) :
    Fresh env past entered
      (.config ⟨h.number, { h.asMade with locators := entered h.asMade.locators }⟩) := by
  obtain ⟨lines, hc⟩ := hm.loads
  rw [(inPlace_after past).defaults_eq, environment_after] at hc
  exact ⟨unseen_after past (Nat.le_of_eq hm.number.symm), h.asMade, lines, hc, rfl⟩

/-- If none is made, that is because the environment gives none. -/
theorem fresh_error (hm : (after env past).make = .error f) (entered : LocatorTable → LocatorTable) :
    Fresh env past entered (.failed f) := by
  have hc := make_error hm
  rw [(inPlace_after past).defaults_eq, environment_after] at hc
  exact hc

theorem fresh_get (hn : (after env past).kept = none) : Fresh env past id (answer env past .get) := by
  unfold answer
  cases hm : (after env past).make with
  | ok made =>
    obtain ⟨h, s'⟩ := made
    rw [step_get_of_ok hn hm, (making hm).look_new]
    exact fresh_making (making hm) id
  | error f =>
    rw [step_get_of_error hn hm]
    exact fresh_error hm id

theorem fresh_load (past : List Request) : Fresh env past id (answer env past .load) := by
  simp only [answer, step]
  split
  · rename_i h s' hm
    rw [(making hm).look_new]
    exact fresh_making (making hm) id
  · rename_i f hm
    exact fresh_error hm id

/-- What is entered into a configuration is there when it is next seen. -/
theorem look_enterInto_self (hp : h.place < s.tables.length) (language locator : String) :
    (s.enterInto h language locator).look h =
      ⟨h.number, { h.asMade with locators := (s.look h).config.locators.put language locator }⟩ := by
  simp only [look, table, enterInto, List.getElem?_modify, if_true,
    List.getElem?_eq_getElem hp, Option.map_eq_map, Option.map_some, Option.getD_some]

theorem fresh_extend (past : List Request) (language locator : String) :
    Fresh env past (·.put language locator) (answer env past (.extend language locator)) := by
  simp only [answer, step]
  split
  · rename_i h s' hm
    have hs' := (inPlace_after past).making (making hm)
    have hplace := (hs'.placed (making hm).made).2
    have hlt := number_lt_of_made (making hm).made
    have hlength := hs'.length
    rw [look_enterInto_self (by omega), (making hm).look_new]
    exact fresh_making (making hm) _
  · rename_i f hm
    exact fresh_error hm _

/-! ## Sessions without loads -/

/-- The kept configuration as it stands. -/
def keptConfig? (s : Settings) : Option Config := s.kept.map fun h => (s.look h).config

/-- What a request for the kept configuration comes to. -/
def granted (s : Settings) : Except Fault Config :=
  match s.keptConfig? with
  | some c => .ok c
  | none => (Config.load s.environment).map Prod.fst

/-- A request for the kept configuration is told what it comes to, and that is what is kept. -/
theorem step_get_granted (hs : InPlace s) :
    (s.step .get).2.told = some s.granted ∧ (s.step .get).1.keptConfig? = s.granted.toOption := by
  unfold granted keptConfig?
  cases hk : s.kept with
  | some h =>
    rw [step_get_of_some hk]
    dsimp only
    rw [hk]
    exact ⟨rfl, rfl⟩
  | none =>
    cases hm : s.make with
    | ok made =>
      obtain ⟨h, s'⟩ := made
      obtain ⟨lines, hc⟩ := (making hm).loads
      rw [hs.defaults_eq] at hc
      have hlook : ({ s' with kept := some h } : Settings).look h = ⟨h.number, h.asMade⟩ := (making hm).look_new
      rw [step_get_of_ok hk hm, (making hm).look_new]
      simp only [Option.map_none, Option.map_some, hlook, hc]
      exact ⟨rfl, rfl⟩
    | error f =>
      have hc := make_error hm
      rw [hs.defaults_eq] at hc
      rw [step_get_of_error hk hm, hk]
      simp only [Option.map_none, hc]
      exact ⟨rfl, rfl⟩

/-- A request that concerns loaded configurations leaves the kept one alone. -/
theorem EntersLoaded.keptConfig?_step (hs : EntersLoaded env session) (hp : past ++ [r] <+: session)
    (hr : r.isAside = true) :
    ((after env past).step r).1.keptConfig? = (after env past).keptConfig? := by
  have he := effect_step (after env past) r
  unfold keptConfig?
  cases hk : (after env past).kept with
  | some h =>
    have hreset : r ≠ .reset := by
      rintro rfl
      cases hr
    rw [he.kept_of_some hk hreset, Option.map_some, Option.map_some, hs.look_step hp hk]
  | none =>
    cases hk' : ((after env past).step r).1.kept with
    | none => rfl
    | some h =>
      obtain ⟨rfl, -⟩ := he.kept_of_none hk hk'
      cases hr

/-- A session and the session without loads keep the same. -/
theorem EntersLoaded.same_aside (hs : EntersLoaded env session) (past : List Request) (hp : past <+: session) :
    (after env past).environment = (after env (past.filter fun r => !r.isAside)).environment ∧
      (after env past).keptConfig? = (after env (past.filter fun r => !r.isAside)).keptConfig? := by
  induction past using List.reverseRecOn with
  | nil => exact ⟨rfl, rfl⟩
  | append_singleton past r ih =>
    obtain ⟨henv, hkept⟩ := ih ((List.prefix_append _ _).trans hp)
    rw [List.filter_append, after_snoc]
    have he := (effect_step (after env past) r).environment
    by_cases hr : r.isAside = true
    · rw [List.filter_cons_of_neg (by simp [hr]), List.filter_nil, List.append_nil]
      refine ⟨?_, (hs.keptConfig?_step hp hr).trans hkept⟩
      rw [he, ← henv]
      cases r with
      | load | extend | enter => rfl
      | _ => cases hr
    · rw [List.filter_cons_of_pos (by simpa using hr), List.filter_nil, after_snoc]
      refine ⟨?_, ?_⟩
      · rw [he, (effect_step _ r).environment, henv]
      · cases r with
        | get =>
          rw [(step_get_granted (inPlace_after _)).2, (step_get_granted (inPlace_after _)).2, granted, granted,
            henv, hkept]
        | load | extend | enter => exact absurd rfl hr
        | reset => rfl
        | _ => exact hkept

/-! ## Every session -/

/-- **Between two resets there is one configuration**, that of the environment when it was first asked for;
    what is loaded besides, and what is entered there, changes nothing but what was loaded. -/
theorem keeps_one (env : Environment) {session : List Request} (hs : EntersLoaded env session) :
    KeepsOne env session where
  first {past} _ hnone := fresh_get ((kept_after_eq_none_iff past).2 hnone)
  same {past during i} hp hreset ha := by
    rcases step_get_cases (after env past) with ⟨h, hk, he⟩ | ⟨f, -, -, he⟩
    · rw [← after_snoc] at hk he
      rw [← List.singleton_append, ← List.append_assoc] at hp
      obtain ⟨hk', hlook⟩ := hs.stays during hp hk hreset
      rw [List.append_assoc, List.singleton_append] at hk' hlook
      rw [answer, step_get_of_some hk', hlook, ← ha, answer, he]
    · rw [answer, he] at ha
      cases ha
  whence {past i} hp ha := by
    cases hk : (after env past).kept with
    | none => exact ⟨past, [], rfl, by simp, (kept_after_eq_none_iff past).1 hk, ha⟩
    | some h =>
      obtain ⟨before, during, s', rfl, hreset, hn, hm⟩ := exists_keeping past hk
      refine ⟨before, during ++ [.get], by simp, by simpa using hreset,
        (kept_after_eq_none_iff before).1 hn, ?_⟩
      have hk' : (after env (before ++ [.get])).kept = some h := by
        rw [after_snoc, step_get_of_ok hn hm]
      have hp' : (before ++ [.get]) ++ during <+: session := by simpa using hp
      have hlook := (hs.stays during hp' hk' hreset).2
      rw [List.append_assoc, List.singleton_append] at hlook
      rw [answer, step_get_of_some hk, hlook, after_snoc, step_get_of_ok hn hm] at ha
      rw [answer, step_get_of_ok hn hm]
      exact ha
  empty {past f} _ hf := by
    rcases step_get_cases (after env past) with ⟨h, -, he⟩ | ⟨f', hn, -, he⟩
    · rw [answer, he] at hf
      cases hf
    · rw [after_snoc, he]
      exact hn
  loaded {past} _ := fresh_load past
  extended {past language locator} _ := fresh_extend past language locator
  entered {past number language locator i} _ ha := by
    simp only [answer, step] at ha
    split at ha
    · rename_i h hm
      cases ha
      have hplaced := (inPlace_after past).placed hm
      have hlt := (List.getElem?_eq_some_iff.1 hm).1
      have hlength := (@inPlace_after env past).length
      refine ⟨hplaced.1, ?_⟩
      rw [look_enterInto_self (by omega), Keyed.get?_put, if_pos rfl]
    · cases ha
  aside {past} hp := by
    obtain ⟨henv, hkept⟩ := hs.same_aside past hp
    rw [answer, answer, (step_get_granted (inPlace_after _)).1, (step_get_granted (inPlace_after _)).1,
      granted, granted, henv, hkept]
  defaults := (inPlace_after session).defaults_eq

/-- A configuration is asked for and another one loaded; a variable is set to what is no number, a locator
    entered into the loaded configuration, and the kept one asked for again, before a reset and after it. -/
def twoResets : List Request :=
  [.set "PARSER_IO_WORKERS" "2", .get, .load, .set "PARSER_IO_WORKERS" "two",
    .enter 1 "go" "tree_sitter_go:language", .get, .reset, .get, .unset "PARSER_IO_WORKERS", .get]

/-- What the answers of a session tell of the number of workers and of a language. -/
def overview (env : Environment) (session : List Request) (language : String) :
    List (Option (Nat × Int × Bool)) :=
  (run { environment := env } session).2.map fun
    | .config i => some (i.number, i.config.workers, i.config.hasLocator language)
    | _ => none

/-- The kept configuration has its two workers and lacks the locator until it is reset; then none can be
    made, and after that another one is. -/
theorem keeps_one_twoResets :
    EntersLoaded .empty twoResets ∧ KeepsOne .empty twoResets ∧ overview .empty twoResets "go" =
      [none, some (0, 2, false), some (1, 2, false), none, some (1, 2, true), some (0, 2, false), none, none,
        none, some (2, 4, false)] := by
  have hs : EntersLoaded .empty twoResets := by
    intro past number language locator rest he
    have hget : twoResets[past.length]? = some (.enter number language locator) := by
      rw [he]
      simp
    have hpast : past = twoResets.take past.length := by
      rw [he]
      simp
    generalize past.length = k at hget hpast
    match k with
    | 4 =>
      cases hget
      exact ⟨twoResets.take 2, .load, [.set "PARSER_IO_WORKERS" "two"], _, hpast, rfl, rfl, rfl⟩
    | 0 | 1 | 2 | 3 | 5 | 6 | 7 | 8 | 9 => cases hget
    | k + 10 => cases hget
  exact ⟨hs, keeps_one .empty hs, by decide +kernel⟩

end SourceTrees.Settings
