/-!
Shortest decimal digits of a binary value.

A positive value `mant * 2 ^ exp` is given with the interval of reals that read back to it,
`(mant - minus) * 2 ^ exp` to `(mant + plus) * 2 ^ exp`, ends included when `inclusive`. The
digits are generated from the decimal position of the interval's upper end downwards: at each
count of digits the value's truncation and its truncation plus one unit are the two candidates,
and the first count at which one of them lies in the interval wins. When both do, the nearer is
taken, and an exact tie goes up. All of this is exact arithmetic on natural numbers.
-/

namespace CStack.Decimal

/-- A positive binary value with the interval of reals that read back to it. -/
structure Interval where
  mant : Nat
  minus : Nat
  plus : Nat
  exp : Int
  inclusive : Bool
  deriving DecidableEq, Repr

/-- A digit string `d₁ … dₙ` standing for `0.d₁…dₙ × 10 ^ exponent`. -/
structure Digits where
  /-- The digits read as one natural number. -/
  value : Nat
  /-- The number of digits. -/
  count : Nat
  exponent : Int
  deriving DecidableEq, Repr

/-- The number of decimal digits of a natural number; `0` has none. -/
def digitCount (n : Nat) : Nat :=
  if n = 0 then 0 else digitCount (n / 10) + 1
termination_by n
decreasing_by omega

/-- The number `n * 2 ^ e` as a numerator over a denominator. -/
def binaryRatio (n : Nat) (e : Int) : Nat × Nat :=
  (n * Nat.pow 2 e.toNat, Nat.pow 2 (-e).toNat)

/-- Multiplies a ratio by `10 ^ t`. -/
def scaleByTen (q : Nat × Nat) (t : Int) : Nat × Nat :=
  (q.1 * Nat.pow 10 t.toNat, q.2 * Nat.pow 10 (-t).toNat)

namespace Interval

/-- The upper end, as a ratio. -/
def upper (iv : Interval) : Nat × Nat := binaryRatio (iv.mant + iv.plus) iv.exp

/-- Whether the upper end stays below `10 ^ k` (at or below, when the ends are excluded). -/
def fitsBelow (iv : Interval) (k : Int) : Bool :=
  let q := scaleByTen iv.upper (-k)
  if iv.inclusive then q.1 < q.2 else q.1 ≤ q.2

/-- The least `k` for which the upper end fits below `10 ^ k`: the decimal position at which
digit generation starts. The digit count of the upper end's integer part (or of its reciprocal's)
leaves two choices, and `fitsBelow` decides between them. -/
def startExponent (iv : Interval) : Int :=
  let q := iv.upper
  if q.2 ≤ q.1 then
    let l : Int := digitCount (q.1 / q.2)
    if iv.fitsBelow (l - 1) then l - 1 else l
  else
    let j : Int := digitCount (q.2 / q.1)
    if iv.fitsBelow (1 - j) then 1 - j else 2 - j

/-- The digits of the value's truncation, or of that truncation plus one unit, at `n` digits
below `10 ^ k`, when one of them lies in the interval. -/
def candidate (iv : Interval) (k : Int) (n : Nat) : Option Digits :=
  let t : Int := n - k
  let value := scaleByTen (binaryRatio iv.mant iv.exp) t
  let lower := (scaleByTen (binaryRatio (iv.mant - iv.minus) iv.exp) t).1
  let upper := (scaleByTen iv.upper t).1
  let den := value.2
  let d := value.1 / den
  let r := value.1 % den
  let down := if iv.inclusive then lower ≤ d * den else lower < d * den
  let up := if iv.inclusive then (d + 1) * den ≤ upper else (d + 1) * den < upper
  if up && (!down || den ≤ 2 * r) then
    if d + 1 = Nat.pow 10 n then some ⟨Nat.pow 10 n, n + 1, k + 1⟩ else some ⟨d + 1, n, k⟩
  else if down then some ⟨d, n, k⟩
  else none

/-- More digits than any binary64 value needs. -/
def digitBudget : Nat := 40

/-- The shortest digits that read back to the value. -/
def shortest (iv : Interval) : Digits :=
  let k := iv.startExponent
  ((List.range' 1 digitBudget).findSome? (iv.candidate k)).getD ⟨0, 0, k⟩

end Interval

end CStack.Decimal
