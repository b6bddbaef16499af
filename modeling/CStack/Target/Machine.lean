import CStack.Source.Declaration
import CStack.Host.Program

/-!
Target machines: the byte widths of the C types on a target, and the intrinsic functions it
provides.

Widths are free parameters, checked by `Machine.validate`: the integer types and pointers must
be 1, 2, 4 or 8 bytes wide, the floating-point types 4 or 8, and `char`, `short`, `int`, `long`,
`long long` must not get narrower in that order. The first violation found, in that order of
checks, is the one reported.
-/

namespace CStack

/-- A function the target implements itself, declared by a signature. -/
structure Intrinsic where
  name : String
  signature : Signature
  program : HostProgram Unit

/-- The widths of the C types on a target, and its intrinsics in declaration order. -/
structure Machine where
  charSize : Nat := 1
  shortSize : Nat := 2
  intSize : Nat := 4
  longSize : Nat := 4
  longLongSize : Nat := 8
  floatSize : Nat := 4
  doubleSize : Nat := 8
  longDoubleSize : Nat := 8
  pointerSize : Nat := 4
  intrinsics : List Intrinsic := []

/-- Why a machine's widths are not usable. -/
inductive MachineError where
  | integerWidth (type : String) (size : Nat)
  | floatWidth (type : String) (size : Nat)
  /-- The type `wider` is declared narrower than `narrower`, which comes before it. -/
  | ordering (narrower : String) (narrowerSize : Nat) (wider : String) (widerSize : Nat)
  deriving DecidableEq, Repr

/-- The text of a machine error. -/
def MachineError.message : MachineError → String
  | .integerWidth ty size =>
    "'" ++ ty ++ "' cannot be " ++ toString size ++ " bytes wide (expected one of 1, 2, 4, 8)"
  | .floatWidth ty size =>
    "'" ++ ty ++ "' cannot be " ++ toString size ++ " bytes wide (expected 4 or 8)"
  | .ordering narrower ns wider ws =>
    "'" ++ wider ++ "' (" ++ toString ws ++ " bytes) is narrower than '" ++ narrower ++ "' (" ++
      toString ns ++ " bytes)"

namespace Machine

/-- A desktop-like target: 4-byte `int`, `long` and pointers, 8-byte `double`. -/
def desktop : Machine := {}

/-- An 8-bit microcontroller target: 2-byte `int` and pointers, 4-byte `double`. -/
def microcontroller : Machine :=
  { intSize := 2, doubleSize := 4, longDoubleSize := 4, pointerSize := 2 }

/-- The width of a basic type; `bool` is as wide as `char`. -/
def sizeOf (m : Machine) : BasicName → Nat
  | .bool | .char => m.charSize
  | .short => m.shortSize
  | .int => m.intSize
  | .long => m.longSize
  | .longLong => m.longLongSize
  | .float => m.floatSize
  | .double => m.doubleSize
  | .longDouble => m.longDoubleSize

/-- The integer types and pointers with their widths, narrowest first. -/
def integerWidths (m : Machine) : List (String × Nat) :=
  [("char", m.charSize), ("short", m.shortSize), ("int", m.intSize), ("long", m.longSize),
    ("long long", m.longLongSize), ("void*", m.pointerSize)]

/-- The floating-point types with their widths. -/
def floatWidths (m : Machine) : List (String × Nat) :=
  [("float", m.floatSize), ("double", m.doubleSize), ("long double", m.longDoubleSize)]

/-- The first pair of neighbours in which the later type is narrower. -/
def firstInversion : List (String × Nat) → Option MachineError
  | a :: b :: rest =>
    if b.2 < a.2 then some (.ordering a.1 a.2 b.1 b.2) else firstInversion (b :: rest)
  | _ => none

/-- Checks the widths: integer widths, then float widths, then their order. -/
def validate (m : Machine) : Except MachineError Unit :=
  match m.integerWidths.find? (fun p => p.2 ∉ [1, 2, 4, 8]) with
  | some (ty, size) => .error (.integerWidth ty size)
  | none =>
    match m.floatWidths.find? (fun p => p.2 ∉ [4, 8]) with
    | some (ty, size) => .error (.floatWidth ty size)
    | none =>
      match firstInversion (m.integerWidths.take 5) with
      | some e => .error e
      | none => .ok ()

/-- Whether the widths are usable. -/
def Valid (m : Machine) : Prop := m.validate = .ok ()

end Machine

end CStack
