import CStack.Value.Basic
import CStack.Float.Text

/-!
The text of a value: integers in decimal, floats by the fewest digits that read back to the same
pattern of their own format, addresses as `0x` and at least four lowercase hex digits.
-/

namespace CStack

/-- At least `width` lowercase hex digits of `n`. -/
def hexDigits (width : Nat) (n : Nat) : String :=
  let s := String.ofList (Nat.toDigits 16 n)
  String.ofList (List.replicate (width - s.length) '0') ++ s

/-- Plain text of a binary64 pattern: positional, no `.0` on whole numbers. -/
def float64Text (bits : UInt64) : String :=
  Binary.binary64.text Decimal.Layout.plain bits.toNat

/-- Source-like text of a binary64 pattern: `.0` on whole numbers, exponent form far from one. -/
def float64SourceText (bits : UInt64) : String :=
  Binary.binary64.text Decimal.Layout.source bits.toNat

/-- Plain text of a binary32 pattern, with the digits that read back as binary32. -/
def float32Text (bits : UInt32) : String :=
  Binary.binary32.text Decimal.Layout.plain bits.toNat

namespace Value

/-- The text of a value. -/
def text : Value → String
  | .int8 x => toString x.toInt
  | .uint8 x => toString x.toNat
  | .int16 x => toString x.toInt
  | .uint16 x => toString x.toNat
  | .int32 x => toString x.toInt
  | .uint32 x => toString x.toNat
  | .int64 x => toString x.toInt
  | .uint64 x => toString x.toNat
  | .float32 b => float32Text b
  | .float64 b => float64Text b
  | .pointer a => "0x" ++ hexDigits 4 a.toNat

end Value

end CStack
