import CStack.Interpreter.Error
import CStack.Source.Expr

/-!
# Operators on values

Binary operators need two operands of one kind. Floats are computed in binary64, a binary32
result being rounded back to binary32. Integers and addresses are computed on their bit
patterns and wrap at their kind's width: division and remainder read the operands signed or
unsigned by their kind, a shift count wraps at the operand width, and a right shift of a signed
kind is arithmetic. Comparisons read floats as numbers (every comparison with NaN is false
except `!=`), signed kinds signed and the rest unsigned, and produce `1` or `0` of a given kind.
-/

namespace CStack

namespace Operators

/-- The fault of operands an operator does not take. -/
def mismatch (op : BinaryOp) (left right : Value) : VmError :=
  .typeMismatch op.symbol left.kind right.kind

/-- The float operators: addition, subtraction, multiplication and division. -/
def floatOperation : BinaryOp → Option (Float → Float → Float)
  | .add => some (· + ·)
  | .sub => some (· - ·)
  | .mul => some (· * ·)
  | .div => some (· / ·)
  | _ => none

/-- An arithmetic operator on two integers (or addresses) of one kind. -/
def integerArith (op : BinaryOp) (left right : Value) : Except VmError Value :=
  let k := left.kind
  let a := left.toBits
  let b := right.toBits
  let count := right.toUInt64 % k.width.toUInt64
  match op with
  | .add => .ok (Value.ofBits k (a + b))
  | .sub => .ok (Value.ofBits k (a - b))
  | .mul => .ok (Value.ofBits k (a * b))
  | .div | .mod =>
    if b == 0 then .error .divisionByZero
    else if k.isSigned then
      let x := left.toInt64
      let y := right.toInt64
      .ok (Value.ofBits k (if op = .div then x / y else x % y).toUInt64)
    else
      let x := left.toUInt64
      let y := right.toUInt64
      .ok (Value.ofBits k (if op = .div then x / y else x % y))
  | .bitAnd => .ok (Value.ofBits k (a &&& b))
  | .bitOr => .ok (Value.ofBits k (a ||| b))
  | .bitXor => .ok (Value.ofBits k (a ^^^ b))
  | .shl => .ok (Value.ofBits k (a <<< count))
  | .shr =>
    if k.isSigned then .ok (Value.ofBits k (left.toInt64 >>> count.toInt64).toUInt64)
    else .ok (Value.ofBits k (left.toUInt64 >>> count))
  | _ => .error (mismatch op left right)

/-- An arithmetic operator. -/
def arithmetic (op : BinaryOp) (left right : Value) : Except VmError Value :=
  if left.kind != right.kind then .error (mismatch op left right)
  else
    match left, right with
    | .float32 a, .float32 b =>
      match floatOperation op with
      | some f => .ok (.float32 (Binary.arith32 f a b))
      | none => .error (mismatch op left right)
    | .float64 a, .float64 b =>
      match floatOperation op with
      | some f => .ok (.float64 (Binary.arith64 f a b))
      | none => .error (mismatch op left right)
    | _, _ => integerArith op left right

/-- The order of two floats, none when either is NaN. -/
def floatOrder (a b : Float) : Option Ordering :=
  if a < b then some .lt else if a == b then some .eq else if a > b then some .gt else none

/-- Whether a comparison holds for an order; with no order only `!=` holds. -/
def holds (op : BinaryOp) : Option Ordering → Bool
  | none => op = .ne
  | some o =>
    match op with
    | .eq => o = .eq
    | .ne => o != .eq
    | .lt => o = .lt
    | .le => o != .gt
    | .gt => o = .gt
    | .ge => o != .lt
    | _ => false

/-- A comparison, producing `1` or `0` of the result kind. -/
def compare (op : BinaryOp) (left right : Value) (result : Kind) : Except VmError Value :=
  let k := left.kind
  if k != right.kind then .error (mismatch op left right)
  else
    let order :=
      if k.isFloat then floatOrder left.toFloat right.toFloat
      else if k.isSigned then some (Ord.compare left.toInt64.toInt right.toInt64.toInt)
      else some (Ord.compare left.toUInt64.toNat right.toUInt64.toNat)
    .ok (Value.ofBool result (holds op order))

/-- Negation: a float's sign flips, an integer is negated modulo its width. -/
def negate (v : Value) : Except VmError Value :=
  match v with
  | .float32 b => .ok (.float32 (b ^^^ 0x80000000))
  | .float64 b => .ok (.float64 (b ^^^ 0x8000000000000000))
  | .pointer _ => .error (.typeMismatch "-" v.kind v.kind)
  | _ => .ok (Value.ofBits v.kind (-v.toInt64).toUInt64)

/-- Bitwise complement of an integer. -/
def complement (v : Value) : Except VmError Value :=
  match v with
  | .float32 _ | .float64 _ | .pointer _ => .error (.typeMismatch "~" v.kind v.kind)
  | _ => .ok (Value.ofBits v.kind (~~~v.toBits))

/-- Logical negation, producing `1` or `0` of the result kind. -/
def logicalNot (v : Value) (result : Kind) : Value := Value.ofBool result !v.truthy

/-- A pointer moved by a number of cells, wrapping at the pointer width (at most 32 bits). -/
def offsetPointer (pointer : Value) (cells : Int64) (width : Nat) : Except VmError Value :=
  match pointer with
  | .pointer a =>
    let bits := min (width * 8) 32
    let mask : UInt64 := (1 <<< bits.toUInt64) - 1
    .ok (.pointer ((a.toUInt64.toInt64 + cells).toUInt64 &&& mask).toUInt32)
  | other => .error (.typeMismatch "+" other.kind .int64)

end Operators

end CStack
