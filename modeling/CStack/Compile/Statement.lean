import CStack.Compile.Emission
import CStack.Source.Stmt

/-!
# Emitting statements

Statements leave the operand stack as they found it. A block opens a scope for its locals; a
local takes fresh frame cells for as long as the function lasts, so slots are never reused.
Conditions and loops are compiled to forward branches patched once their targets are known, and
a loop jumps back to the test of its condition.
-/

namespace CStack

namespace EmitM

/-- Emits a condition, which must not be a struct. -/
def emitCondition (c : Expr) : EmitM Unit := do
  if (← typeOf c).isStruct then structValue c else emitExpr c

/-- Emits `return`, with or without a value, checked against the function's return type. -/
def emitReturn (span : Span) (value : Option Expr) : EmitM Unit := do
  let f := (← get).function
  match value with
  | some v =>
    if f.returnType.isVoid then
      error .e0127 v.span ("Since '" ++ f.name ++
        "' returns void, a return keyword must not be followed by an object expression")
    else
      let t ← typeOf v
      emitExpr v
      emitCast t f.returnType v.span
      push .ret
  | none =>
    if f.returnType.isVoid then push .ret
    else
      error .e0126 span ("An object of a type convertible to '" ++ f.returnType.text ++
        "' is required")

/-- Closes a function body: falling off its end returns the zero of the return type. -/
def emitImplicitReturn (returnType : CType) : EmitM Unit := do
  if let some k := returnType.valueKind? then push (.loadConstant (Value.zero k))
  push .ret

/-- Declares a local and stores its initial value, if it has one. -/
def emitLocal (span : Span) (name : String) (type : TypeName) (init : Option Expr) :
    EmitM Unit := do
  let t ← resolveType type span
  let slot ← declareLocal name t span
  let some i := init | return
  if t.isStruct then return ← structValue i
  let it ← typeOf i
  emitExpr i
  emitCast it t i.span
  push (.storeLocal slot)

mutual

/-- Emits a statement. -/
def emitStmt : Stmt → EmitM Unit
  | .node _ (.expr e) => do
    if e.isError then return
    emitExpr e
    push .pop
  | .node span (.var name type init) => emitLocal span name type init
  | .node span (.ret value) => emitReturn span value
  | .node _ (.ite c thenBranch none) => do
    emitCondition c
    let toElse ← emit (.branchIfFalse 0)
    emitStmt thenBranch
    patch toElse (← nextIndex)
  | .node _ (.ite c thenBranch (some elseBranch)) => do
    emitCondition c
    let toElse ← emit (.branchIfFalse 0)
    emitStmt thenBranch
    let toEnd ← emit (.jump 0)
    patch toElse (← nextIndex)
    emitStmt elseBranch
    patch toEnd (← nextIndex)
  | .node _ (.loop c body) => do
    let start ← nextIndex
    emitCondition c
    let toEnd ← emit (.branchIfFalse 0)
    emitStmt body
    push (.jump start)
    patch toEnd (← nextIndex)
  | .node _ (.block stmts) => emitBlock stmts
termination_by s => 2 * sizeOf s
decreasing_by
  all_goals
    simp_wf
    try simp
    try omega

/-- Emits statements in a scope of their own. -/
def emitBlock (stmts : List Stmt) : EmitM Unit := do
  pushScope
  emitStmts stmts
  popScope
termination_by 2 * sizeOf stmts + 1

/-- Emits statements in order. -/
def emitStmts : List Stmt → EmitM Unit
  | [] => pure ()
  | s :: rest => do
    emitStmt s
    emitStmts rest
termination_by stmts => 2 * sizeOf stmts
decreasing_by
  all_goals
    simp_wf
    try simp
    try omega

end

end EmitM

end CStack
