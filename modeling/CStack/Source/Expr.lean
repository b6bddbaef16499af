import CStack.Source.Span
import CStack.Source.TypeName
import CStack.Value.Display

/-!
Expressions of the C dialect, as trees.

Every node carries its source span and a tag. Tags tell apart nodes that are written alike: the
compiler remembers what it learnt about each node (its type, the symbol a name denotes, the
field a member access selects, the function a call reaches) by tag, so that a node is analysed
once however often its parents ask. Trees built by hand carry tag `0` everywhere; numbering the
nodes of a whole unit before compiling it gives each a tag of its own.

The printed form of an expression is C-like and fully parenthesised for operators, as in
`((a + 1) * b)`, and is what diagnostics quote.
-/

namespace CStack

/-- The prefix operators. -/
inductive UnaryOp where
  | neg
  | bitNot
  | not
  deriving DecidableEq, Repr, Inhabited

/-- The binary operators other than the two logical ones. -/
inductive BinaryOp where
  | add | sub | mul | div | mod
  | bitAnd | bitOr | bitXor | shl | shr
  | eq | ne | lt | le | gt | ge
  deriving DecidableEq, Repr, Inhabited

/-- The short-circuit operators. -/
inductive LogicalOp where
  | and
  | or
  deriving DecidableEq, Repr, Inhabited

namespace UnaryOp

/-- The C symbol. -/
def symbol : UnaryOp → String
  | .neg => "-"
  | .bitNot => "~"
  | .not => "!"

end UnaryOp

namespace BinaryOp

/-- Every binary operator. -/
def all : List BinaryOp :=
  [.add, .sub, .mul, .div, .mod, .bitAnd, .bitOr, .bitXor, .shl, .shr, .eq, .ne, .lt, .le, .gt,
    .ge]

/-- The C symbol. -/
def symbol : BinaryOp → String
  | .add => "+"
  | .sub => "-"
  | .mul => "*"
  | .div => "/"
  | .mod => "%"
  | .bitAnd => "&"
  | .bitOr => "|"
  | .bitXor => "^"
  | .shl => "<<"
  | .shr => ">>"
  | .eq => "=="
  | .ne => "!="
  | .lt => "<"
  | .le => "<="
  | .gt => ">"
  | .ge => ">="

/-- Whether the operator compares its operands. -/
def isComparison : BinaryOp → Bool
  | .eq | .ne | .lt | .le | .gt | .ge => true
  | _ => false

/-- Whether the operator shifts. -/
def isShift : BinaryOp → Bool
  | .shl | .shr => true
  | _ => false

/-- Whether the operator is defined on integers only. -/
def requiresIntegers : BinaryOp → Bool
  | .mod | .bitAnd | .bitOr | .bitXor | .shl | .shr => true
  | _ => false

end BinaryOp

namespace LogicalOp

/-- The C symbol. -/
def symbol : LogicalOp → String
  | .and => "&&"
  | .or => "||"

end LogicalOp

mutual

/-- An expression node: its tag, its span and what it is. -/
inductive Expr where
  | node (tag : Nat) (span : Span) (kind : ExprKind)

/-- The forms of expression. -/
inductive ExprKind where
  /-- An integer literal. -/
  | integer (value : Int64)
  /-- A character literal, by its byte. -/
  | character (byte : UInt8)
  /-- A floating-point literal, by its binary64 bit pattern. -/
  | float (bits : UInt64)
  /-- A value written directly, of any kind. -/
  | constant (value : Value)
  | variable (name : String)
  | this
  /-- Member access `target.name`. -/
  | member (target : Expr) (name : String)
  /-- Member access through a pointer, `target->name`. -/
  | arrow (target : Expr) (name : String)
  | call (callee : Expr) (args : List Expr)
  | cast (type : TypeName) (operand : Expr)
  | unary (op : UnaryOp) (operand : Expr)
  | binary (op : BinaryOp) (left right : Expr)
  | logical (op : LogicalOp) (left right : Expr)
  | assign (target value : Expr)
  | addressOf (operand : Expr)
  | deref (operand : Expr)
  /-- A placeholder for a part that could not be built; it is never reported on. -/
  | error

end

instance : Inhabited ExprKind := ⟨.error⟩
instance : Inhabited Expr := ⟨.node 0 Span.none .error⟩

namespace Expr

/-- The tag of a node. -/
def tag : Expr → Nat
  | .node t _ _ => t

/-- The span of a node. -/
def span : Expr → Span
  | .node _ s _ => s

/-- What a node is. -/
def kind : Expr → ExprKind
  | .node _ _ k => k

/-- A node without a position, tagged `0`. -/
def ofKind (k : ExprKind) : Expr := .node 0 Span.none k

/-- Whether the node is the error placeholder. -/
def isError (e : Expr) : Bool :=
  match e.kind with
  | .error => true
  | _ => false

/-- The text of a character literal: graphic ASCII and space as themselves, the quote escaped,
everything else as a two-digit hex escape. -/
def characterText (byte : UInt8) : String :=
  if byte = 39 then "'\\''"
  else if 32 ≤ byte && byte ≤ 126 then "'" ++ String.singleton (Char.ofNat byte.toNat) ++ "'"
  else "'\\x" ++ hexDigits 2 byte.toNat ++ "'"

/-- The printed form of an expression. Float literals are written with a `.0` on whole
numbers and in exponent form far from one, so that they read back as floats. -/
def text : Expr → String
  | .node _ _ k =>
    match k with
    | .integer v => toString v.toInt
    | .character b => characterText b
    | .float bits => float64SourceText bits
    | .constant v => v.text
    | .variable name => name
    | .this => "this"
    | .member t name => t.text ++ "." ++ name
    | .arrow t name => t.text ++ "->" ++ name
    | .call f args => f.text ++ "(" ++ ", ".intercalate (args.map text) ++ ")"
    | .cast ty e => "((" ++ ty.text ++ ")" ++ e.text ++ ")"
    | .unary op e => op.symbol ++ e.text
    | .binary op l r => "(" ++ l.text ++ " " ++ op.symbol ++ " " ++ r.text ++ ")"
    | .logical op l r => "(" ++ l.text ++ " " ++ op.symbol ++ " " ++ r.text ++ ")"
    | .assign t v => t.text ++ " = " ++ v.text
    | .addressOf e => "&" ++ e.text
    | .deref e => "*" ++ e.text
    | .error => "<error>"

end Expr

end CStack
