/-!
# Pieces of a text

A text is cut at every occurrence of a separator.

* `splitAtChar` gives the pieces; there is always one more than there are separators.
* `splitAtChar_join` — the pieces with the separator between them are the text again.
* `not_mem_of_mem_splitAtChar` — no piece contains the separator.
-/

set_option autoImplicit false

namespace SourceTrees

/-- The pieces of a text between the characters equal to a separator. -/
def splitAtChar (separator : Char) : List Char → List (List Char)
  | [] => [[]]
  | c :: rest =>
    if c = separator then [] :: splitAtChar separator rest
    else
      match splitAtChar separator rest with
      | [] => [[c]]
      | piece :: pieces => (c :: piece) :: pieces

theorem splitAtChar_ne_nil (separator : Char) (cs : List Char) : splitAtChar separator cs ≠ [] := by
  cases cs with
  | nil => simp [splitAtChar]
  | cons c rest =>
    simp only [splitAtChar]
    split
    · simp
    · split <;> simp

/-- The pieces with the separator between them are the text again. -/
theorem splitAtChar_join (separator : Char) (cs : List Char) :
    [separator].intercalate (splitAtChar separator cs) = cs := by
  induction cs with
  | nil => rfl
  | cons c rest ih =>
    simp only [splitAtChar]
    match h : splitAtChar separator rest with
    | [] => exact absurd h (splitAtChar_ne_nil separator rest)
    | [piece] =>
      rw [h] at ih
      split
      · rename_i hc
        simp_all [List.intercalate]
      · simp_all [List.intercalate]
    | piece :: next :: pieces =>
      rw [h] at ih
      split
      · rename_i hc
        simp_all [List.intercalate]
      · simp_all [List.intercalate]

/-- No piece contains the separator. -/
theorem not_mem_of_mem_splitAtChar {separator : Char} {cs piece : List Char}
    (h : piece ∈ splitAtChar separator cs) : separator ∉ piece := by
  induction cs generalizing piece with
  | nil =>
    simp only [splitAtChar, List.mem_singleton] at h
    simp [h]
  | cons c rest ih =>
    simp only [splitAtChar] at h
    split at h
    · rcases List.mem_cons.1 h with rfl | h
      · simp
      · exact ih h
    · rename_i hc
      split at h
      · simp only [List.mem_singleton] at h
        simp [h, Ne.symm hc]
      · rename_i first pieces hs
        rcases List.mem_cons.1 h with rfl | h
        · have : separator ∉ first := ih (hs ▸ List.mem_cons_self)
          simp [this, Ne.symm hc]
        · exact ih (hs ▸ List.mem_cons_of_mem _ h)

end SourceTrees
