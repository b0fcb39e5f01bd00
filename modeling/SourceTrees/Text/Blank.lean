/-!
# Blank characters and trimming

Text from the environment is trimmed of blanks before it is used.  The class of blanks is the
standard's white space together with the four information separators U+001C to U+001F.

* `trim` cuts the blanks at both ends; `isBlankText` holds of a text that has nothing else.
* `trimBoth` is the same cut for any class of characters.
-/

set_option autoImplicit false

namespace SourceTrees.Text

/-- Tabulation, line ends, information separators, and the spaces of any width. -/
def isBlank (c : Char) : Bool :=
  let n := c.toNat
  (9 ≤ n && n ≤ 13) || (28 ≤ n && n ≤ 32) || n == 0x85 || n == 0xA0 || n == 0x1680 ||
    (0x2000 ≤ n && n ≤ 0x200A) || n == 0x2028 || n == 0x2029 || n == 0x202F || n == 0x205F ||
    n == 0x3000

/-- Drops the characters of a class from both ends. -/
def trimBoth (drop : Char → Bool) (cs : List Char) : List Char :=
  ((cs.dropWhile drop).reverse.dropWhile drop).reverse

/-- The text without the blanks at its ends. -/
def trim (s : String) : String := String.ofList (trimBoth isBlank s.toList)

/-- Does the text hold nothing but blanks? -/
def isBlankText (s : String) : Bool := s.toList.all isBlank

/-- Core's white space is blank. -/
theorem isBlank_of_isWhitespace {c : Char} (h : c.isWhitespace = true) : isBlank c = true := by
  simp only [Char.isWhitespace, Bool.or_eq_true, decide_eq_true_eq] at h
  rcases h with ((h | h) | h) | h <;> subst h <;> decide

end SourceTrees.Text
