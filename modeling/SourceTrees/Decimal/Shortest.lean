import SourceTrees.Decimal.Binary

/-!
# The shortest decimal that reads back

A floating-point value stands for all real numbers that round to it.  Its text uses the fewest
significant digits with which some decimal number lies among those; of two such decimals the one
nearer to the value is taken, and of two equally near ones the one whose last digit is even.

## Protocol

A positive finite value is `m * 2 ^ q`.  In quarters of its unit in the last place the reals that
round to it lie between `4 m - 2` and `4 m + 2` (below a power of two, from `4 m - 1`), and the ends
belong to them when `m` is even.  For one digit, two digits and so on the two neighbours of the
value on that decimal grid are tested in exact arithmetic; seventeen digits always suffice.

## Format

* `render` writes positionally from `0.0001` up to sixteen digits before the point, always with a
  point; outside, one digit before the point and an exponent of at least two digits with its sign.
-/

set_option autoImplicit false

namespace SourceTrees.Decimal

/-- Compares `a * 2 ^ q` with `b * 10 ^ k`. -/
def compareScaled (a : Nat) (q : Int) (b : Nat) (k : Int) : Ordering :=
  compare (a * Nat.pow 2 q.toNat * Nat.pow 10 (-k).toNat)
    (b * Nat.pow 10 k.toNat * Nat.pow 2 (-q).toNat)

/-- Does `d * 10 ^ k` round to the binary number? -/
def Binary.holds (x : Binary) (d : Nat) (k : Int) : Bool :=
  let low := if x.lowest then 4 * x.mantissa - 1 else 4 * x.mantissa - 2
  let high := 4 * x.mantissa + 2
  let above := compareScaled low (x.exponent - 2) d k
  let below := compareScaled high (x.exponent - 2) d k
  let ends := x.mantissa % 2 == 0
  (above == .lt || (ends && above == .eq)) && (below == .gt || (ends && below == .eq))

/-- The greatest whole `d` with `d * 10 ^ k` not above the binary number. -/
def Binary.quotient (x : Binary) (k : Int) : Nat :=
  x.mantissa * Nat.pow 2 x.exponent.toNat * Nat.pow 10 (-k).toNat /
    (Nat.pow 10 k.toNat * Nat.pow 2 (-x.exponent).toNat)

/-- The decimal exponent just above the number: the `e` with `10 ^ (e - 1) ≤ x < 10 ^ e`, found
    by going up or down from an estimate. -/
def Binary.magnitude (x : Binary) : Int :=
  let estimate : Int := ((x.mantissa.log2 : Int) + x.exponent) * 30103 / 100000
  let candidates := [estimate - 1, estimate, estimate + 1, estimate + 2]
  (candidates.find? fun e => compareScaled x.mantissa x.exponent 1 e == .lt).getD (estimate + 3)

/-- The neighbour on the grid of `10 ^ k` that rounds to the number, if there is one. -/
def Binary.gridPoint? (x : Binary) (k : Int) : Option Nat :=
  let d := x.quotient k
  match x.holds d k && d != 0, x.holds (d + 1) k with
  | true, false => some d
  | false, true => some (d + 1)
  | false, false => none
  | true, true =>
    match compareScaled (2 * x.mantissa) x.exponent (2 * d + 1) k with
    | .lt => some d
    | .gt => some (d + 1)
    | .eq => some (if d % 2 = 0 then d else d + 1)

/-- The first hit on grids of more and more digits: the digits as a number and the exponent. -/
def Binary.search (x : Binary) (magnitude : Int) : Nat → Nat → Nat × Int
  | _, 0 => (x.quotient (magnitude - 17), magnitude - 17)
  | count, left + 1 =>
    match x.gridPoint? (magnitude - count) with
    | some d => (d, magnitude - count)
    | none => x.search magnitude (count + 1) left

/-- The shortest decimal `d * 10 ^ k` that reads back as the number. -/
def Binary.shortest (x : Binary) : Nat × Int := x.search x.magnitude 1 17

/-- Digits and exponent without the zeros at the end. -/
def dropZeros : List Char → List Char
  | cs => (cs.reverse.dropWhile (· == '0')).reverse

/-- Lays out significant digits, of which the first stands just below `10 ^ point`. -/
def layout (digits : List Char) (point : Int) : List Char :=
  if -4 < point ∧ point ≤ 0 then
    '0' :: '.' :: List.replicate (-point).toNat '0' ++ digits
  else if 0 < point ∧ point ≤ 16 then
    let before := digits.take point.toNat
    let after := digits.drop point.toNat
    before ++ List.replicate (point.toNat - digits.length) '0' ++
      '.' :: (if after.isEmpty then ['0'] else after)
  else
    let e := point - 1
    let size := Nat.toDigits 10 e.natAbs
    digits.take 1 ++ (if digits.length ≤ 1 then [] else '.' :: digits.drop 1) ++
      ['e', if e < 0 then '-' else '+'] ++ (if size.length < 2 then '0' :: size else size)

/-- The text of a floating-point value. -/
def render (x : Float) : String :=
  let bits := x.toBits.toNat
  let negative := 0x8000000000000000 ≤ bits
  let magnitudeBits := bits % 0x8000000000000000
  if magnitudeBits > 0x7FF0000000000000 then "nan"
  else
    let body :=
      if magnitudeBits = 0x7FF0000000000000 then ['i', 'n', 'f']
      else if magnitudeBits = 0 then ['0', '.', '0']
      else
        let (d, k) := (Binary.ofBits magnitudeBits).shortest
        let digits := Nat.toDigits 10 d
        layout (dropZeros digits) (digits.length + k)
    String.ofList (if negative then '-' :: body else body)

end SourceTrees.Decimal
