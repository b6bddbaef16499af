/-!
Value kinds: the eleven machine representations a cell of the stack machine can hold.

Eight are two's-complement or unsigned integers of 8, 16, 32 or 64 bits, two are the IEEE
binary32 and binary64 formats, and one is a 32-bit address. A kind fixes how a 64-bit pattern
is read back as a value and which arithmetic applies to it.
-/

namespace CStack

/-- The representation of one machine value. -/
inductive Kind where
  | int8
  | uint8
  | int16
  | uint16
  | int32
  | uint32
  | int64
  | uint64
  | float32
  | float64
  | pointer
  deriving DecidableEq, Repr, Inhabited

namespace Kind

/-- Every kind, in declaration order. -/
def all : List Kind :=
  [.int8, .uint8, .int16, .uint16, .int32, .uint32, .int64, .uint64, .float32, .float64,
    .pointer]

theorem mem_all (k : Kind) : k ∈ all := by
  cases k <;> simp [all]

/-- The name under which a kind is printed and read. -/
def name : Kind → String
  | .int8 => "Int8"
  | .uint8 => "UInt8"
  | .int16 => "Int16"
  | .uint16 => "UInt16"
  | .int32 => "Int32"
  | .uint32 => "UInt32"
  | .int64 => "Int64"
  | .uint64 => "UInt64"
  | .float32 => "Float32"
  | .float64 => "Float64"
  | .pointer => "Pointer"

/-- Reads a kind back from its name. -/
def ofName? (s : String) : Option Kind :=
  all.find? (fun k => k.name == s)

/-- The number of bits a value of the kind occupies; an address has 32. -/
def width : Kind → Nat
  | .int8 | .uint8 => 8
  | .int16 | .uint16 => 16
  | .int32 | .uint32 | .float32 | .pointer => 32
  | .int64 | .uint64 | .float64 => 64

/-- The integer kind of a byte size and signedness, for sizes 1, 2, 4 and 8. -/
def integer? : Nat → Bool → Option Kind
  | 1, true => some .int8
  | 1, false => some .uint8
  | 2, true => some .int16
  | 2, false => some .uint16
  | 4, true => some .int32
  | 4, false => some .uint32
  | 8, true => some .int64
  | 8, false => some .uint64
  | _, _ => none

/-- The floating-point kind of a byte size, for sizes 4 and 8. -/
def float? : Nat → Option Kind
  | 4 => some .float32
  | 8 => some .float64
  | _ => none

/-- Whether the kind is one of the two IEEE formats. -/
def isFloat : Kind → Bool
  | .float32 | .float64 => true
  | _ => false

/-- Whether values of the kind carry a sign: the signed integers and both float formats. -/
def isSigned : Kind → Bool
  | .int8 | .int16 | .int32 | .int64 | .float32 | .float64 => true
  | _ => false

/-- Whether the kind is read as a non-negative binary number: the unsigned integers and
addresses. -/
def isUnsignedWord : Kind → Bool
  | .uint8 | .uint16 | .uint32 | .uint64 | .pointer => true
  | _ => false

theorem width_pos (k : Kind) : 0 < k.width := by
  cases k <;> decide

theorem width_le (k : Kind) : k.width ≤ 64 := by
  cases k <;> decide

end Kind

end CStack
