import CStack.Source.Expr

/-!
# The instruction set

A stack machine. Operands come from the operand stack; the only immediate arguments are
constants, frame slots, global addresses, cell counts, strides, jump targets and argument counts.
A binary operator pops its right operand first and needs both operands of one kind, which the
compiler guarantees by inserting conversions.
-/

namespace CStack

/-- One instruction. -/
inductive Instr where
  | loadConstant (value : Value)
  /-- Pushes the cell at frame base plus `slot`. -/
  | loadLocal (slot : Nat)
  /-- Pops into the cell at frame base plus `slot`. -/
  | storeLocal (slot : Nat)
  /-- Pushes a pointer to the cell at frame base plus `slot`. -/
  | loadLocalAddress (slot : Nat)
  | loadGlobal (address : Nat)
  | storeGlobal (address : Nat)
  | loadGlobalAddress (address : Nat)
  /-- Pops a pointer and pushes the cell it addresses. -/
  | loadPointer
  /-- Pops a pointer, then a value, and stores the value there. -/
  | storePointer
  /-- Pops a pointer and pushes it advanced by a fixed number of cells. -/
  | offsetPointer (cells : Nat)
  /-- Pops an integer, then a pointer, and pushes the pointer advanced by `integer * stride`. -/
  | addPointer (stride : Nat)
  /-- Pops an integer, then a pointer, and pushes the pointer moved back by `integer * stride`. -/
  | subPointer (stride : Nat)
  | dup
  | pop
  | convert (kind : Kind)
  /-- A binary operator on two operands of one kind. -/
  | binary (op : BinaryOp)
  /-- A prefix operator. -/
  | unary (op : UnaryOp)
  | jump (target : Nat)
  /-- Pops a value and jumps when it is zero. -/
  | branchIfFalse (target : Nat)
  /-- Pops the callee, then the receiver of an instance method, then `argc` arguments. -/
  | call (argc : Nat)
  | ret
  deriving Repr, Inhabited

/-- The immediate argument of an instruction, if it has one. -/
inductive Operand where
  | none
  | value (v : Value)
  | kind (k : Kind)
  | number (n : Nat)

namespace Instr

/-- The name of a binary operator's instruction. -/
def binaryName : BinaryOp → String
  | .add => "Add"
  | .sub => "Sub"
  | .mul => "Mul"
  | .div => "Div"
  | .mod => "Mod"
  | .bitAnd => "BitAnd"
  | .bitOr => "BitOr"
  | .bitXor => "BitXor"
  | .shl => "Shl"
  | .shr => "Shr"
  | .eq => "Eq"
  | .ne => "Ne"
  | .lt => "Lt"
  | .le => "Le"
  | .gt => "Gt"
  | .ge => "Ge"

/-- The name of a prefix operator's instruction. -/
def unaryName : UnaryOp → String
  | .neg => "Neg"
  | .bitNot => "BitNot"
  | .not => "LogicalNot"

/-- The name of an instruction. -/
def name : Instr → String
  | .loadConstant _ => "LoadConstant"
  | .loadLocal _ => "LoadLocal"
  | .storeLocal _ => "StoreLocal"
  | .loadLocalAddress _ => "LoadLocalAddress"
  | .loadGlobal _ => "LoadGlobal"
  | .storeGlobal _ => "StoreGlobal"
  | .loadGlobalAddress _ => "LoadGlobalAddress"
  | .loadPointer => "LoadPointer"
  | .storePointer => "StorePointer"
  | .offsetPointer _ => "OffsetPointer"
  | .addPointer _ => "AddPointer"
  | .subPointer _ => "SubPointer"
  | .dup => "Dup"
  | .pop => "Pop"
  | .convert _ => "Convert"
  | .binary op => binaryName op
  | .unary op => unaryName op
  | .jump _ => "Jump"
  | .branchIfFalse _ => "BranchIfFalse"
  | .call _ => "Call"
  | .ret => "Return"

/-- The immediate argument. -/
def operand : Instr → Operand
  | .loadConstant v => .value v
  | .convert k => .kind k
  | .loadLocal n | .storeLocal n | .loadLocalAddress n | .loadGlobal n | .storeGlobal n
  | .loadGlobalAddress n | .offsetPointer n | .addPointer n | .subPointer n | .jump n
  | .branchIfFalse n | .call n => .number n
  | _ => .none

/-- The printed form: the name, then the argument if there is one. -/
def text (i : Instr) : String :=
  match i.operand with
  | .none => i.name
  | .value v => i.name ++ " " ++ v.text
  | .kind k => i.name ++ " " ++ k.name
  | .number n => i.name ++ " " ++ toString n

end Instr

end CStack
