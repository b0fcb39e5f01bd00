import SourceTrees.Config.Environment
import SourceTrees.Service.Parsing

/-!
# The languages that have a locator

The table of endings and the table of default locators are kept apart.  Every language that an ending
stands for is among the defaults, and what the environment says about locators is entered over the
defaults: it never takes one away.

## Results

* `Keyed.contains_putAll_iff` — the keys of a table after entries; none is lost.
* `Config.load_locators` — the locators of a configuration that is loaded.
* **`Config.hasLocator_of_detect`** — a language that is told from a path has a locator, whatever the
  environment sets.
-/

set_option autoImplicit false

namespace SourceTrees

namespace Keyed

variable {κ ν : Type} [DecidableEq κ] {k : κ}

/-- A key is there if it was there, or has been entered. -/
theorem contains_putAll_iff (es : List (κ × ν)) : ∀ {t : Keyed κ ν},
    (t.putAll es).contains k = true ↔ t.contains k = true ∨ ∃ e ∈ es, e.1 = k := by
  induction es with
  | nil => intro t; simp [putAll]
  | cons e es ih =>
    intro t
    have hput : (t.put e.1 e.2).contains k = true ↔ t.contains k = true ∨ e.1 = k := by
      unfold contains
      rw [get?_put]
      by_cases hk : k = e.1
      · simp [hk]
      · simp [hk, Ne.symm hk]
    have hstep : (t.putAll (e :: es)).contains k = ((t.put e.1 e.2).putAll es).contains k := rfl
    rw [hstep, ih, hput]
    simp only [List.mem_cons, exists_eq_or_imp, or_assoc]

end Keyed

/-- The endings stand for languages that have a locator by default. -/
theorem Language.contains_of_detect {path language : String} (h : detect path = some language) :
    defaultLocators.contains language = true := by
  obtain ⟨ending, _, hending⟩ := Option.bind_eq_some_iff.1 h
  have hall : ∀ e ∈ byExtension.entries, defaultLocators.contains e.2 = true := by decide
  exact hall _ (Keyed.mem_of_lookIn hending)

namespace Config

variable {env : Environment} {config : Config} {lines : List LogLine}

/-- What comes of two attempts comes of both. -/
theorem exists_of_bind_eq_ok {α β : Type} {x : Except Fault α} {f : α → Except Fault β} {b : β}
    (h : x >>= f = .ok b) : ∃ a, x = .ok a ∧ f a = .ok b := by
  cases x with
  | error e => cases h
  | ok a => exact ⟨a, rfl, h⟩

theorem fromEnvironment_locators (h : fromEnvironment env = .ok config) :
    config.locators = locatorsFrom env := by
  unfold fromEnvironment at h
  obtain ⟨attempts, _, h⟩ := exists_of_bind_eq_ok h
  obtain ⟨wait, _, h⟩ := exists_of_bind_eq_ok h
  obtain ⟨workers, _, h⟩ := exists_of_bind_eq_ok h
  obtain ⟨size, _, h⟩ := exists_of_bind_eq_ok h
  cases h
  rfl

/-- Validating leaves the locators alone. -/
theorem load_locators (h : load env = .ok (config, lines)) : config.locators = locatorsFrom env := by
  unfold load at h
  obtain ⟨c, hc, h⟩ := exists_of_bind_eq_ok h
  cases h
  exact (fromEnvironment_locators hc : c.locators = _)

/-- **A language that is told from a path has a locator.** -/
theorem hasLocator_of_detect (h : load env = .ok (config, lines)) {path : Json} {language : String}
    (hd : Parsing.detect path = some language) : config.hasLocator language = true := by
  unfold hasLocator
  rw [load_locators h]
  cases path with
  | str path => exact (Keyed.contains_putAll_iff _).2 (.inl (Language.contains_of_detect hd))
  | _ => cases hd

end Config

end SourceTrees
