/-!
IEEE 754 binary interchange formats, read from their bit patterns.

A format is given by the widths of its fraction and exponent fields; binary32 and binary64 are
two values of one record, so every rule below is written once. A pattern splits into sign,
biased exponent and fraction; a finite pattern denotes `significand * 2 ^ scale` with the
significand and scale computed here as exact integers. Everything the library needs to know
about a float as a number (its integer part, its decimal text) starts from this decoding.
-/

namespace CStack.Binary

/-- An IEEE 754 binary format, by the widths of its fraction and exponent fields. -/
structure Format where
  fractionBits : Nat
  exponentBits : Nat
  deriving DecidableEq, Repr

/-- The 32-bit format: 23 fraction bits and 8 exponent bits. -/
def binary32 : Format := ⟨23, 8⟩

/-- The 64-bit format: 52 fraction bits and 11 exponent bits. -/
def binary64 : Format := ⟨52, 11⟩

namespace Format

/-- The exponent bias, `2 ^ (exponentBits - 1) - 1`. -/
def bias (f : Format) : Nat := Nat.pow 2 (f.exponentBits - 1) - 1

/-- The all-ones exponent field, which marks infinities and NaNs. -/
def topField (f : Format) : Nat := Nat.pow 2 f.exponentBits - 1

end Format

/-- The three fields of a bit pattern. -/
structure Fields where
  negative : Bool
  exponent : Nat
  fraction : Nat
  deriving DecidableEq, Repr

/-- Splits a bit pattern into sign, biased exponent and fraction. -/
def Format.fields (f : Format) (bits : Nat) : Fields where
  negative := bits.testBit (f.fractionBits + f.exponentBits)
  exponent := (bits >>> f.fractionBits) % Nat.pow 2 f.exponentBits
  fraction := bits % Nat.pow 2 f.fractionBits

/-- What a bit pattern denotes, with the magnitude of a finite one as exact integers. -/
inductive Reading where
  | nan
  | infinite (negative : Bool)
  /-- The value `(-1) ^ negative * significand * 2 ^ scale`; `subnormal` marks a zero
  exponent field. -/
  | finite (negative : Bool) (significand : Nat) (scale : Int) (subnormal : Bool)
  deriving DecidableEq, Repr

/-- Reads a bit pattern of the format. A zero exponent field is subnormal (or zero) and has no
hidden bit; the all-ones field is an infinity or a NaN. -/
def Format.read (f : Format) (bits : Nat) : Reading :=
  let x := f.fields bits
  if x.exponent = f.topField then
    if x.fraction = 0 then .infinite x.negative else .nan
  else if x.exponent = 0 then
    .finite x.negative x.fraction (1 - (f.bias : Int) - f.fractionBits) true
  else
    .finite x.negative (Nat.pow 2 f.fractionBits + x.fraction)
      ((x.exponent : Int) - f.bias - f.fractionBits) false

/-- The magnitude `significand * 2 ^ scale` rounded toward zero to a natural number. -/
def towardZero (significand : Nat) (scale : Int) : Nat :=
  if 0 ≤ scale then significand <<< scale.toNat else significand >>> (-scale).toNat

/-- The least and greatest signed 64-bit integers. -/
def int64Min : Int := -9223372036854775808
def int64Max : Int := 9223372036854775807

/-- Clamps an integer to the signed 64-bit range. -/
def clampInt64 (n : Int) : Int := max int64Min (min int64Max n)

/-- The integer part of a float, as a signed 64-bit integer: rounded toward zero, clamped to the
range at both ends (infinities included), and `0` for a NaN. -/
def Format.toInt64Sat (f : Format) (bits : Nat) : Int :=
  match f.read bits with
  | .nan => 0
  | .infinite negative => if negative then int64Min else int64Max
  | .finite negative significand scale _ =>
    let magnitude : Int := towardZero significand scale
    clampInt64 (if negative then -magnitude else magnitude)

theorem clampInt64_mem (n : Int) : int64Min ≤ clampInt64 n ∧ clampInt64 n ≤ int64Max := by
  unfold clampInt64 int64Min int64Max
  omega

theorem toInt64Sat_mem (f : Format) (bits : Nat) :
    int64Min ≤ f.toInt64Sat bits ∧ f.toInt64Sat bits ≤ int64Max := by
  unfold Format.toInt64Sat
  split
  · decide
  · split <;> decide
  · exact clampInt64_mem _

end CStack.Binary
