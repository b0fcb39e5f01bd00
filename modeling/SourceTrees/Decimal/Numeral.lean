import SourceTrees.Text.Blank
import SourceTrees.Text.Digits
import SourceTrees.Text.Quoted

/-!
# Reading numerals

Settings hold numbers as text.  A numeral may stand between blanks, carry a sign, use the decimal
digits of any script and separate digits by single underscores.

## Results

* `readWhole` reads an integer of up to `mostDigits` digits, or says why there is none.
* `readReal` reads a decimal fraction with an optional exponent, or one of the words for infinity
  and not-a-number, and rounds it to the nearest floating-point value.
* `WholeFlaw.message`, `badReal` are the texts that tell of a numeral which cannot be read; the first
  shows at most two hundred characters of it.
-/

set_option autoImplicit false

namespace SourceTrees.Decimal

open SourceTrees.Text

/-- The blanks that may surround a numeral once the wide spaces have been made plain. -/
def isMargin (c : Char) : Bool := c == ' ' || (9 ≤ c.toNat && c.toNat ≤ 13)

/-- A character of a numeral in the basic alphabet: digits of any script become basic digits,
    spaces of any width a plain space, and what else is foreign a mark that no numeral has. -/
def basicChar (c : Char) : Char :=
  if c.toNat < 0x7F then c
  else if isBlank c then ' '
  else
    match digitValue? c with
    | some d => Char.ofNat (48 + d)
    | none => '?'

/-- The characters of a numeral, in the basic alphabet and without its margins. -/
def numeralChars (s : String) : List Char := trimBoth isMargin (s.toList.map basicChar)

/-- The sign in front, true for minus, and what follows it. -/
def takeSign : List Char → Bool × List Char
  | '-' :: rest => (true, rest)
  | '+' :: rest => (false, rest)
  | cs => (false, cs)

/-- The digits of a group, an underscore allowed between any two of them.  The flag tells whether
    a digit stands just before. -/
def readGroup (afterDigit : Bool) : List Char → Option (List Nat)
  | [] => if afterDigit then some [] else none
  | c :: rest =>
    if c.isDigit then (readGroup true rest).map ((c.toNat - 48) :: ·)
    else if c = '_' ∧ afterDigit then readGroup false rest
    else none

/-- The number with the given decimal digits, the highest first. -/
def ofDigits (digits : List Nat) : Nat := digits.foldl (fun n d => 10 * n + d) 0

/-- An integer of more digits is not read. -/
def mostDigits : Nat := 4300

/-- Why a text is read as no integer. -/
inductive WholeFlaw where
  | malformed
  | tooLong (digits : Nat)
  deriving DecidableEq, Repr

/-- Does the character belong to the digits of an integer? -/
def isGroupChar (c : Char) : Bool := c.isDigit || c == '_'

/-- Reads an integer.  Its length is judged before what follows the digits. -/
def readWhole (s : String) : Except WholeFlaw Int :=
  let (negative, body) := takeSign (numeralChars s)
  match readGroup false (body.takeWhile isGroupChar) with
  | none => .error .malformed
  | some digits =>
    if mostDigits < digits.length then .error (.tooLong digits.length)
    else if (body.dropWhile isGroupChar).isEmpty then
      .ok (if negative then -(ofDigits digits : Int) else (ofDigits digits : Int))
    else .error .malformed

/-- Removes underscores that stand between two digits; any other underscore is refused. -/
def dropSeparators (before : Char) : List Char → Option (List Char)
  | [] => if before = '_' then none else some []
  | c :: rest =>
    if c = '_' then if before.isDigit then dropSeparators c rest else none
    else if before = '_' ∧ !c.isDigit then none
    else (dropSeparators c rest).map (c :: ·)

/-- The value nearest to a whole number times a power of ten.  Exponents far outside the range of
    the format are settled without computing the power. -/
def nearest (mantissa : Nat) (exponent : Int) : Float :=
  if mantissa = 0 then 0.0
  else
    let magnitude : Int := (Nat.toDigits 10 mantissa).length + exponent
    if magnitude > 310 then 1.0 / 0.0
    else if magnitude < -330 then 0.0
    else if exponent < 0 then Float.ofScientific mantissa true exponent.natAbs
    else Float.ofScientific mantissa false exponent.natAbs

/-- Reads the exponent part, if the characters are one to their end. -/
def readExponent : List Char → Option Int
  | [] => some 0
  | c :: rest =>
    if c = 'e' ∨ c = 'E' then
      let (negative, digits) := takeSign rest
      if digits.isEmpty || !digits.all Char.isDigit then none
      else
        let n : Int := ofDigits (digits.map (·.toNat - 48))
        some (if negative then -n else n)
    else none

/-- Reads an unsigned decimal fraction with an optional exponent. -/
def readFraction (cs : List Char) : Option Float :=
  let whole := cs.takeWhile Char.isDigit
  let rest := cs.dropWhile Char.isDigit
  let (places, rest) :=
    match rest with
    | '.' :: rest => (rest.takeWhile Char.isDigit, rest.dropWhile Char.isDigit)
    | _ => ([], rest)
  let digits := whole ++ places
  if digits.isEmpty then none
  else
    (readExponent rest).map fun e =>
      nearest (ofDigits (digits.map (·.toNat - 48))) (e - places.length)

/-- Reads an unsigned real: a word for infinity or not-a-number, in any letter case, or a
    fraction. -/
def readMagnitude (cs : List Char) : Option Float :=
  let word := String.ofList (cs.map Char.toLower)
  if word = "inf" ∨ word = "infinity" then some (1.0 / 0.0)
  else if word = "nan" then some (0.0 / 0.0)
  else readFraction cs

/-- Reads a real number. -/
def readReal (s : String) : Option Float := do
  let cs ← dropSeparators ' ' (numeralChars s)
  let (negative, body) := takeSign cs
  let x ← readMagnitude body
  return if negative then -x else x

/-- What is said of a text that is read as no integer. -/
def WholeFlaw.message (s : String) : WholeFlaw → String
  | .malformed =>
    "invalid literal for int() with base 10: " ++ String.ofList ((quotedChars s.toList).take 200)
  | .tooLong digits =>
    "Exceeds the limit (" ++ toString mostDigits ++ " digits) for integer string conversion: value has " ++
      toString digits ++ " digits; use sys.set_int_max_str_digits() to increase the limit"

/-- What is said of a text that is no real number. -/
def badReal (s : String) : String := "could not convert string to float: " ++ quoted s

end SourceTrees.Decimal
