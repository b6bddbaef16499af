import CStack.Value.Kind
import CStack.Float.Binary
import CStack.Float.Propagation

/-!
Machine values: a kind together with a word of that kind's width.

Integers are held as Lean's fixed-width integers, floats by their IEEE bit patterns and
addresses as 32-bit words. Two values are equal exactly when kind and bit pattern agree, which
for floats distinguishes `0.0` from `-0.0` and identifies a NaN with itself.

Every view of a value as a number and every conversion between kinds follows C's rules on a
two's-complement machine: integers are read signed or unsigned by their kind and narrowed by
keeping the low bits; a float's integer part is taken toward zero and clamped to the signed
64-bit range (NaN reads as `0`); integers become floats by rounding to nearest.
-/

namespace CStack

/-- A value of the stack machine. -/
inductive Value where
  | int8 (x : Int8)
  | uint8 (x : UInt8)
  | int16 (x : Int16)
  | uint16 (x : UInt16)
  | int32 (x : Int32)
  | uint32 (x : UInt32)
  | int64 (x : Int64)
  | uint64 (x : UInt64)
  /-- A binary32 float, by its bit pattern. -/
  | float32 (bits : UInt32)
  /-- A binary64 float, by its bit pattern. -/
  | float64 (bits : UInt64)
  /-- A cell address. -/
  | pointer (address : UInt32)
  deriving DecidableEq, Repr

instance : Inhabited Value := ⟨.int32 0⟩

namespace Value

/-- The kind of a value. -/
def kind : Value → Kind
  | .int8 _ => .int8
  | .uint8 _ => .uint8
  | .int16 _ => .int16
  | .uint16 _ => .uint16
  | .int32 _ => .int32
  | .uint32 _ => .uint32
  | .int64 _ => .int64
  | .uint64 _ => .uint64
  | .float32 _ => .float32
  | .float64 _ => .float64
  | .pointer _ => .pointer

/-- The bit pattern of a value, zero-extended to 64 bits. -/
def toBits : Value → UInt64
  | .int8 x => x.toUInt8.toUInt64
  | .uint8 x => x.toUInt64
  | .int16 x => x.toUInt16.toUInt64
  | .uint16 x => x.toUInt64
  | .int32 x => x.toUInt32.toUInt64
  | .uint32 x => x.toUInt64
  | .int64 x => x.toUInt64
  | .uint64 x => x
  | .float32 b => b.toUInt64
  | .float64 b => b
  | .pointer a => a.toUInt64

/-- The value of a kind whose bit pattern is the low `width` bits of `bits`. -/
def ofBits : Kind → UInt64 → Value
  | .int8, b => .int8 b.toUInt8.toInt8
  | .uint8, b => .uint8 b.toUInt8
  | .int16, b => .int16 b.toUInt16.toInt16
  | .uint16, b => .uint16 b.toUInt16
  | .int32, b => .int32 b.toUInt32.toInt32
  | .uint32, b => .uint32 b.toUInt32
  | .int64, b => .int64 b.toInt64
  | .uint64, b => .uint64 b
  | .float32, b => .float32 b.toUInt32
  | .float64, b => .float64 b
  | .pointer, b => .pointer b.toUInt32

/-- The zero of a kind: the value whose bits are all clear. -/
def zero (k : Kind) : Value := ofBits k 0

/-- The value of a kind congruent to `n` modulo `2 ^ width`. -/
def ofInt (k : Kind) (n : Int) : Value := ofBits k (UInt64.ofInt n)

/-- The value as a signed 64-bit integer: integers and addresses by their value (an unsigned
64-bit value past `2 ^ 63` wraps to a negative one), floats by their integer part toward zero,
clamped, with NaN as `0`. -/
def toInt64 : Value → Int64
  | .int8 x => x.toInt64
  | .uint8 x => x.toUInt64.toInt64
  | .int16 x => x.toInt64
  | .uint16 x => x.toUInt64.toInt64
  | .int32 x => x.toInt64
  | .uint32 x => x.toUInt64.toInt64
  | .int64 x => x
  | .uint64 x => x.toInt64
  | .float32 b => Int64.ofInt (Binary.binary32.toInt64Sat b.toNat)
  | .float64 b => Int64.ofInt (Binary.binary64.toInt64Sat b.toNat)
  | .pointer a => a.toUInt64.toInt64

/-- The value as an unsigned 64-bit integer: unsigned integers and addresses zero-extended,
everything else through `toInt64`, wrapped. -/
def toUInt64 : Value → UInt64
  | .uint8 x => x.toUInt64
  | .uint16 x => x.toUInt64
  | .uint32 x => x.toUInt64
  | .uint64 x => x
  | .pointer a => a.toUInt64
  | v => v.toInt64.toUInt64

/-- The value as an address: `toUInt64` truncated to 32 bits. -/
def toAddress (v : Value) : UInt32 := v.toUInt64.toUInt32

/-- The value as a binary64 float: floats exactly, integers rounded to nearest. -/
def toFloat : Value → Float
  | .float32 b => (Float32.ofBits b).toFloat
  | .float64 b => Float.ofBits b
  | .uint8 x => x.toUInt64.toFloat
  | .uint16 x => x.toUInt64.toFloat
  | .uint32 x => x.toUInt64.toFloat
  | .uint64 x => x.toFloat
  | .pointer a => a.toUInt64.toFloat
  | v => Float.ofInt v.toInt64.toInt

/-- The value as a binary64 bit pattern: a binary32 float widened exactly (a NaN keeping its
sign and payload), a binary64 float as it is, integers rounded to nearest. -/
def toFloatBits : Value → UInt64
  | .float32 b => Binary.widen b
  | .float64 b => b
  | v => v.toFloat.toBits

/-- Whether the value counts as true: a float unless it equals zero (NaN counts as true), any
other value unless all its bits are clear. -/
def truthy : Value → Bool
  | .float32 b => Float32.ofBits b != 0
  | .float64 b => Float.ofBits b != 0
  | v => v.toUInt64 != 0

/-- The value converted to another kind, as a C cast does: to a float by rounding, to an address
through `toAddress`, to an integer by narrowing `toInt64`. A value of the target kind is kept. -/
def convert (v : Value) (k : Kind) : Value :=
  if v.kind = k then v
  else
    match k with
    | .float32 => .float32 (Binary.narrow v.toFloatBits)
    | .float64 => .float64 v.toFloatBits
    | .pointer => .pointer v.toAddress
    | k => ofBits k v.toInt64.toUInt64

/-- The value `1` or `0` of a kind, for a truth value. -/
def ofBool (k : Kind) (b : Bool) : Value := ofBits k (if b then 1 else 0)

@[simp] theorem kind_ofBits (k : Kind) (b : UInt64) : (ofBits k b).kind = k := by
  cases k <;> rfl

@[simp] theorem kind_zero (k : Kind) : (zero k).kind = k := kind_ofBits k 0

end Value

end CStack
