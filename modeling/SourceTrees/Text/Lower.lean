import SourceTrees.Text.LetterCase

/-!
# Lower case

The full lower-case mapping of a text.  It goes character by character, with two exceptions: a
capital I with dot becomes a small i and a combining dot, and a capital sigma becomes the final
form where it ends a word.

* `lower` is the mapping on texts.
* `endsWord` is the rule for sigma: a cased letter stands before it and none after it, with the
  ignorable characters between looked through.
-/

set_option autoImplicit false

namespace SourceTrees.Text

/-- The small letter of a character that maps to one character. -/
def lowerChar (c : Char) : Char :=
  if 'A' ≤ c ∧ c ≤ 'Z' then Char.ofNat (c.toNat + 32)
  else if c.toNat < 0x80 then c
  else
    match lowerRuns.find? (·.covers c.toNat) with
    | some run => Char.ofNat (c.toNat + run.distance).toNat
    | none => c

/-- Is the nearest character that counts a cased letter? -/
def meetsCased (cs : List Char) : Bool :=
  match cs.dropWhile fun c => caseIgnorable.contains c.toNat with
  | [] => false
  | c :: _ => casedLetters.contains c.toNat

/-- Does a sigma end a word here?  The characters before it are given last first. -/
def endsWord (before after : List Char) : Bool := meetsCased before && !meetsCased after

/-- What one character becomes between its neighbours. -/
def lowerWithin (before : List Char) (c : Char) (after : List Char) : List Char :=
  if c = 'Σ' then [if endsWord before after then 'ς' else 'σ']
  else if c = 'İ' then ['i', '\u0307']
  else [lowerChar c]

/-- Lower case of the characters that follow the ones in `before`, which are given last first. -/
def lowerAfter (before : List Char) : List Char → List Char
  | [] => []
  | c :: rest => lowerWithin before c rest ++ lowerAfter (c :: before) rest

/-- Lower case of a list of characters. -/
def lowerChars (cs : List Char) : List Char := lowerAfter [] cs

/-- The text in lower case. -/
def lower (s : String) : String := String.ofList (lowerChars s.toList)

end SourceTrees.Text
