/-!
# Binary numbers

A positive finite floating-point value is a whole number times a power of two.  What is asked of the
value is computed from these two in exact arithmetic.

## Results

* `Binary.ofBits` takes the number from the exponent and fraction bits of a double.
* `Binary.nearestWhole` rounds it to a whole number, at any size; `nearestWhole_near` says that this
  moves it by half a unit at most.
* `nearestWhole?` does the same for a floating-point value.
-/

set_option autoImplicit false

namespace SourceTrees.Decimal

/-- A positive binary number `mantissa * 2 ^ exponent`, and whether it is the least mantissa of its
    binade, so that its lower neighbour is half as far as its upper one. -/
structure Binary where
  mantissa : Nat
  exponent : Int
  lowest : Bool
  deriving DecidableEq, Repr

/-- One more than the greatest fraction: a fraction has 52 bits. -/
def fractionSpan : Nat := 0x10000000000000

/-- One more than the greatest stored exponent: it has eleven bits. -/
def exponentSpan : Nat := 0x800

/-- The number that the exponent and fraction bits of a double stand for. -/
def Binary.ofBits (bits : Nat) : Binary :=
  let fraction : Nat := bits % fractionSpan
  let stored : Nat := bits / fractionSpan % exponentSpan
  if stored = 0 then ⟨fraction, -1074, false⟩
  else ⟨fractionSpan + fraction, (stored : Int) - 1075, fraction == 0 && 1 < stored⟩

/-- The whole number nearest to the number; a half goes to the even neighbour. -/
def Binary.nearestWhole (x : Binary) : Nat :=
  if 0 ≤ x.exponent then x.mantissa * Nat.pow 2 x.exponent.toNat
  else
    let unit := Nat.pow 2 (-x.exponent).toNat
    let down := x.mantissa / unit
    match compare (2 * (x.mantissa % unit)) unit with
    | .lt => down
    | .gt => down + 1
    | .eq => if down % 2 = 0 then down else down + 1

/-- The nearest whole number is at most half a unit away. -/
theorem Binary.nearestWhole_near {x : Binary} (h : x.exponent < 0) :
    2 * x.nearestWhole * Nat.pow 2 (-x.exponent).toNat ≤
        2 * x.mantissa + Nat.pow 2 (-x.exponent).toNat ∧
      2 * x.mantissa ≤
        2 * x.nearestWhole * Nat.pow 2 (-x.exponent).toNat + Nat.pow 2 (-x.exponent).toNat := by
  have hu : 0 < Nat.pow 2 (-x.exponent).toNat := Nat.two_pow_pos _
  have hd := Nat.div_add_mod x.mantissa (Nat.pow 2 (-x.exponent).toNat)
  have hm := Nat.mod_lt x.mantissa hu
  simp only [Binary.nearestWhole, if_neg (by omega : ¬ 0 ≤ x.exponent)]
  generalize Nat.pow 2 (-x.exponent).toNat = unit at *
  generalize x.mantissa / unit = down at *
  generalize x.mantissa % unit = left at *
  rw [Nat.mul_comm] at hd
  have hs : (down + 1) * unit = down * unit + unit := Nat.succ_mul down unit
  rw [Nat.mul_assoc]
  split <;> rename_i hc
  · rw [Nat.compare_eq_lt] at hc
    omega
  · rw [Nat.compare_eq_gt] at hc
    omega
  · rw [Nat.compare_eq_eq] at hc
    split <;> omega

/-- The whole number nearest to a value that is not negative; none is near an infinity or a value
    that is not a number. -/
def nearestWhole? (x : Float) : Option Nat :=
  let bits := x.toBits.toNat
  if bits < 0x7FF0000000000000 then some (Binary.ofBits bits).nearestWhole else none

end SourceTrees.Decimal
