import CStack.Float.Binary

/-!
# Rounding a ratio to the nearest pattern of a format

Reading a decimal is rounding the positive ratio `num / den` to the nearest finite value of a
format, a tie going to the value whose significand is even and anything from halfway past the
greatest finite value on going to infinity.

Every finite value is a whole number of the least subnormal, `2 ^ -f.shift`. The ratio is first
measured in that unit, `t = ⌊num * 2 ^ f.shift / den⌋`; the bits of `t` beyond the
`fractionBits + 1` a significand holds are how far the value's binade lies above the subnormal
range, and they are dropped with the remainder compared against half a unit of the last place.
For positive patterns the order of patterns is the order of values, so the pattern below the
ratio is `s * 2 ^ fractionBits + m` for the kept significand `m` and the dropped bit count `s`,
and rounding up is the next pattern; past the finite patterns is the pattern of infinity.
-/

namespace CStack.Binary

/-- The negated scale of the least subnormal, `bias + fractionBits - 1`: a finite value is a
whole multiple of `2 ^ -f.shift`. -/
def Format.shift (f : Format) : Nat := f.bias + f.fractionBits - 1

/-- The pattern of the positive infinity, which follows the greatest finite positive pattern. -/
def Format.infinity (f : Format) : Nat := f.topField * Nat.pow 2 f.fractionBits

/-- Ties-to-even rounding of a kept significand `m`, given the part `rem` of the value below it
and the unit of its last place `unit`, both over a common denominator: more than half a unit
rounds up, exactly half rounds up an odd `m` only. -/
def roundsUp (m rem unit : Nat) : Bool :=
  decide (unit < 2 * rem) || (decide (2 * rem = unit) && m % 2 == 1)

/-- The pattern of the ratio `num / den` rounded to nearest, ties to an even significand, with
overflow to infinity; `den` is positive. -/
def Format.roundRatio (f : Format) (num den : Nat) : Nat :=
  let scaled := num * Nat.pow 2 f.shift
  let t := scaled / den
  let s := Nat.log2 t - f.fractionBits
  let m := t >>> s
  let up := roundsUp m (scaled - m * Nat.pow 2 s * den) (Nat.pow 2 s * den)
  min (s * Nat.pow 2 f.fractionBits + m + (if up then 1 else 0)) f.infinity

end CStack.Binary
