/-!
# Grammar locators

A locator says where the grammar of a language is found: the name of a module and, after the first
colon, the name of the function in it that yields the grammar.

* `Locator.parse?` splits a locator; both names must have at least one character.
* `Locator.splitColon_eq_some_iff` — where the first colon of a text is.
-/

set_option autoImplicit false

namespace SourceTrees.Language

/-- Where a grammar is found. -/
structure Locator where
  moduleName : String
  entry : String
  deriving DecidableEq, Repr, Inhabited

namespace Locator

/-- Splits characters at the first colon; nothing if there is none. -/
def splitColon : List Char → Option (List Char × List Char)
  | [] => none
  | c :: rest =>
    if c = ':' then some ([], rest)
    else (splitColon rest).map fun p => (c :: p.1, p.2)

/-- The two names of a locator, if both are there. -/
def parse? (text : String) : Option Locator :=
  match splitColon text.toList with
  | some (m :: ms, a :: as) => some ⟨String.ofList (m :: ms), String.ofList (a :: as)⟩
  | _ => none

/-- What is said of a text that is no locator. -/
def malformed (text : String) : String :=
  "Malformed grammar locator '" ++ text ++ "', expected '<module>:<attribute>'"

/-! ## Which texts are locators -/

theorem splitColon_eq_some_iff {cs m a : List Char} :
    splitColon cs = some (m, a) ↔ cs = m ++ ':' :: a ∧ ':' ∉ m := by
  induction cs generalizing m with
  | nil => simp [splitColon]
  | cons c rest ih =>
    by_cases h : c = ':'
    · subst h
      simp only [splitColon, if_true, Option.some.injEq, Prod.mk.injEq]
      constructor
      · rintro ⟨rfl, rfl⟩
        simp
      · rintro ⟨he, hm⟩
        cases m with
        | nil => simpa using he
        | cons x xs =>
          simp only [List.cons_append, List.cons.injEq] at he
          exact absurd (he.1 ▸ List.mem_cons_self) hm
    · simp only [splitColon, h, if_false, Option.map_eq_some_iff, Prod.mk.injEq, Prod.exists]
      constructor
      · rintro ⟨m', a', hs, rfl, rfl⟩
        obtain ⟨he, hm⟩ := ih.1 hs
        refine ⟨by simp [he], ?_⟩
        simpa using ⟨Ne.symm h, hm⟩
      · rintro ⟨he, hm⟩
        cases m with
        | nil =>
          simp only [List.nil_append, List.cons.injEq] at he
          exact absurd he.1 h
        | cons x xs =>
          simp only [List.cons_append, List.cons.injEq] at he
          refine ⟨xs, a, ih.2 ⟨he.2, fun hx => hm (List.mem_cons_of_mem _ hx)⟩, ?_, rfl⟩
          rw [he.1]

end Locator

end SourceTrees.Language
