import CStack.Float.Binary

/-!
# NaN patterns through conversions and arithmetic

A NaN carries a sign and a payload in its fraction field, and the machine the bytecode models
keeps them: widening binary32 to binary64 shifts the fraction up into the top of the wider
field, narrowing shifts it back down, and an arithmetic operation with a NaN operand returns that
operand, the first one if both are NaNs. Each of these results is quiet: the leading fraction bit
is set. An invalid operation on two numbers (`∞ - ∞`, `0 / 0`, `0 * ∞`) returns the default NaN,
which is negative and has an empty payload.

Lean's `Float` keeps no NaN payload, so every rule here is stated on bit patterns, and a `Float`
is only used for results that are not NaNs, where its bits are exact.
-/

namespace CStack.Binary

/-- Whether a binary64 pattern is a NaN: an all-ones exponent field and a nonzero fraction. -/
def isNaN64 (b : UInt64) : Bool :=
  b &&& 0x7ff0000000000000 == 0x7ff0000000000000 && b &&& 0x000fffffffffffff != 0

/-- Whether a binary32 pattern is a NaN: an all-ones exponent field and a nonzero fraction. -/
def isNaN32 (b : UInt32) : Bool :=
  b &&& 0x7f800000 == 0x7f800000 && b &&& 0x007fffff != 0

/-- The quiet form of a binary64 NaN: its leading fraction bit set. -/
def quiet64 (b : UInt64) : UInt64 := b ||| 0x0008000000000000

/-- The quiet form of a binary32 NaN: its leading fraction bit set. -/
def quiet32 (b : UInt32) : UInt32 := b ||| 0x00400000

/-- The NaN an invalid operation on two numbers returns: negative, quiet, with no payload. -/
def defaultNaN64 : UInt64 := 0xfff8000000000000

/-- A binary32 value as a binary64 value, which is exact; a NaN keeps its sign and its payload,
moved to the top of the wider fraction, and becomes quiet. -/
def widen (b : UInt32) : UInt64 :=
  if isNaN32 b then
    quiet64 (((b >>> 31).toUInt64 <<< 63) ||| (0x7ff0000000000000 : UInt64) |||
      ((b &&& 0x007fffff).toUInt64 <<< 29))
  else (Float32.ofBits b).toFloat.toBits

/-- A binary64 value rounded to binary32; a NaN keeps its sign and the top of its payload, and
becomes quiet. -/
def narrow (b : UInt64) : UInt32 :=
  if isNaN64 b then
    quiet32 (((b >>> 63).toUInt32 <<< 31) ||| (0x7f800000 : UInt32) |||
      ((b >>> 29) &&& 0x007fffff).toUInt32)
  else (Float.ofBits b).toFloat32.toBits

/-- A binary64 operation on bit patterns: the first NaN operand, quiet; otherwise the operation's
result, and the default NaN when that result is not a number. -/
def arith64 (op : Float → Float → Float) (a b : UInt64) : UInt64 :=
  if isNaN64 a then quiet64 a
  else if isNaN64 b then quiet64 b
  else
    let r := op (Float.ofBits a) (Float.ofBits b)
    if r.isNaN then defaultNaN64 else r.toBits

/-- A binary32 operation carried out in binary64: both operands widened, the result narrowed. -/
def arith32 (op : Float → Float → Float) (a b : UInt32) : UInt32 :=
  narrow (arith64 op (widen a) (widen b))

end CStack.Binary
