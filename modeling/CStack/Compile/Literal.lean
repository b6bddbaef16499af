import CStack.Types.CType

/-!
The types of literals.

An integer literal takes the first of `int` and `long` whose signed range holds it, else
`long long`. A constant of a given kind takes the first C type of the same width and signedness
(`char`, `short`, `int`, `long`, `long long` for integers, `float`, `double`, `long double` for
floats); an address is a `void*`.
-/

namespace CStack

/-- Whether a signed integer of `size` bytes holds the value; 8 bytes or more hold every one,
and a width of no bytes holds none. -/
def fitsSigned (v : Int64) (size : Nat) : Bool :=
  let bits := size * 8
  if 64 ≤ bits then true
  else if bits = 0 then false
  else
    let limit : Int := Int.ofNat (Nat.pow 2 (bits - 1))
    decide (-limit ≤ v.toInt) && decide (v.toInt < limit)

/-- The type of an integer literal on a machine. -/
def integerLiteralType (v : Int64) (m : Machine) : CType :=
  let name := ([BasicName.int, .long].find? (fun n => fitsSigned v (m.sizeOf n))).getD .longLong
  .basic (BasicType.make name .signed m)

/-- The type of a constant on a machine. -/
def constantType (v : Value) (m : Machine) : CType :=
  let integer (size : Nat) (s : Signedness) : CType :=
    let name := ([BasicName.char, .short, .int, .long, .longLong].find? (fun n => m.sizeOf n == size)).getD
      .longLong
    .basic (BasicType.make name s m)
  let float (size : Nat) : CType :=
    let name := ([BasicName.float, .double, .longDouble].find? (fun n => m.sizeOf n == size)).getD
      .double
    .basic (BasicType.make name .signed m)
  match v.kind with
  | .pointer => CType.voidPointer
  | .float32 => float 4
  | .float64 => float 8
  | .int8 => integer 1 .signed
  | .uint8 => integer 1 .unsigned
  | .int16 => integer 2 .signed
  | .uint16 => integer 2 .unsigned
  | .int32 => integer 4 .signed
  | .uint32 => integer 4 .unsigned
  | .int64 => integer 8 .signed
  | .uint64 => integer 8 .unsigned

end CStack
