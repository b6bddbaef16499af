import CStack.Types.Registry

/-!
# How operators are carried out

The plan of a binary operator depends only on its operand types: arithmetic in the usual
arithmetic conversion of both operands, a shift in the promoted left operand's type, a pointer
moved by an integer scaled by the pointee's cell count, or a comparison of pointers. Anything
else is invalid and is reported where the operator is typed.
-/

namespace CStack

/-- How a binary operator is carried out for a pair of operand types. -/
inductive BinaryPlan where
  /-- Both operands converted to `operand`. -/
  | arithmetic (operand : CType)
  /-- Both operands converted to the promoted type of the left one. -/
  | shift (operand : CType)
  /-- A pointer plus or minus an integer, in units of `stride` cells. -/
  | pointerOffset (pointer : CType) (stride : Nat) (pointerFirst : Bool)
  /-- A comparison of pointers; an integer operand is converted to a pointer. -/
  | pointerCompare
  | invalid

namespace BinaryPlan

/-- Whether the plan is `invalid`. -/
def isInvalid : BinaryPlan → Bool
  | .invalid => true
  | _ => false

end BinaryPlan

/-- Whether a type compares like a pointer: a pointer or a function. -/
def CType.isPointerLike (t : CType) : Bool := t.isPointer || t.isFunction

/-- A pointer moved by an integer. Subtracting a pointer from an integer and moving a pointer to
a function are invalid. -/
def pointerPlan (r : Registry) (op : BinaryOp) (pointee : CType) (pointerFirst : Bool) :
    BinaryPlan :=
  if op = .sub && !pointerFirst then .invalid
  else if pointee.isFunction then .invalid
  else .pointerOffset (.pointer pointee) (max 1 (r.cellCount pointee)) pointerFirst

/-- The plan of a binary operator on operands of two types. -/
def planBinary (m : Machine) (reg : Registry) (op : BinaryOp) (left right : CType) : BinaryPlan :=
  let additive := op = .add || op = .sub
  match left, right with
  | .basic a, .basic b =>
    if op.requiresIntegers && (a.kind = .float || b.kind = .float) then .invalid
    else if op.isShift then .shift (.basic (a.promote m))
    else .arithmetic (.basic (a.common b m))
  | .pointer p, other =>
    if other.isInteger && additive then pointerPlan reg op p true
    else compare
  | other, .pointer p =>
    if other.isInteger && additive then pointerPlan reg op p false
    else compare
  | _, _ => compare
where
  /-- The plan of a comparison: pointer-like operands, or for equality a pointer-like operand and
  an integer. -/
  compare : BinaryPlan :=
    let ok := (left.isPointerLike && right.isPointerLike) ||
      ((op = .eq || op = .ne) &&
        ((left.isPointerLike && right.isInteger) || (left.isInteger && right.isPointerLike)))
    if op.isComparison && ok then .pointerCompare else .invalid

end CStack
