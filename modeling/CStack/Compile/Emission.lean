import CStack.Compile.Typing

/-!
# Emitting expressions

Every expression is emitted as code that leaves exactly one value on the operand stack, calls of
`void` functions included, so that an expression statement can always pop. An lvalue (a
variable, a field, a dereference) can instead be emitted as code that leaves its address.

A call `f(a, b)` leaves the stack as

    a b [defaults…] [receiver] callee  Call n  [LoadConstant 0, for void]

with each argument converted to its parameter's type and the defaults of omitted parameters
pushed as constants. Emission asks the typing pass for every type it needs, so a node emitted
after it was typed files no diagnostic twice.
-/

namespace CStack

namespace EmitM

/-- Pushes a literal converted to the representation of its type. -/
def emitLiteral (e : Expr) (v : Value) : EmitM Unit := do
  let t ← typeOf e
  push (.loadConstant (match t.valueKind? with
    | some k => v.convert k
    | none => v))

/-- Pushes the address of a field of the receiver. -/
def emitThisField (offset : Nat) : EmitM Unit := do
  push (.loadLocal 0)
  if offset > 0 then push (.offsetPointer offset)

/-- Pushes a function address. -/
def pushAddress (address : Nat) : EmitM Unit := push (.loadConstant (.pointer address.toUInt32))

/-- The constant pushed for an omitted parameter: its default, or the zero of its kind. -/
def omittedArgument (p : Parameter) : Value :=
  p.default.getD ((p.type.valueKind?.map Value.zero).getD (.int32 0))

/-- Emits the short-circuit evaluation of `left op right`, given code for each side; the result
is `int` `1` or `0`. -/
def emitLogical (op : LogicalOp) (left right : EmitM Unit) : EmitM Unit := do
  let k ← intKind
  let one := (Value.int64 1).convert k
  left
  let leftFalse ← emit (.branchIfFalse 0)
  let shortCircuit ← if op = .or then do
      push (.loadConstant one)
      let j ← emit (.jump 0)
      patch leftFalse (← nextIndex)
      pure (some j)
    else pure none
  right
  let rightFalse ← emit (.branchIfFalse 0)
  push (.loadConstant one)
  let skipFalse ← emit (.jump 0)
  let falseBranch ← emit (.loadConstant (Value.zero k))
  let stop ← nextIndex
  patch rightFalse falseBranch
  if op = .and then patch leftFalse falseBranch
  patch skipFalse stop
  if let some j := shortCircuit then patch j stop

mutual

/-- Emits an expression, leaving its value on the stack. -/
def emitExpr : Expr → EmitM Unit
  | e@(.node _ _ (.integer v)) => emitLiteral e (.int64 v)
  | e@(.node _ _ (.character c)) => emitLiteral e (.uint8 c)
  | e@(.node _ _ (.float b)) => emitLiteral e (.float64 b)
  | .node _ _ (.constant v) => push (.loadConstant v)
  | e@(.node _ _ (.variable name)) => do
    let some s ← variableSymbol e name | return
    if s.type.isStruct then return ← structValue e
    match s with
    | .local slot _ => push (.loadLocal slot)
    | .global address _ => push (.loadGlobal address)
    | .field offset _ =>
      emitThisField offset
      push .loadPointer
    | .function address _ => pushAddress address
    | .method _ _ => invalidInContext e
  | e@(.node _ _ .this) => do
    if (← typeOf e).isPointer then push (.loadLocal 0)
  | e@(.node _ _ (.member _ _)) => do
    let some (_, t) ← fieldOf e | return
    if t.isStruct then return ← structValue e
    emitMemberPointer e
    push .loadPointer
  | e@(.node _ _ (.arrow _ _)) => do
    let some (_, t) ← fieldOf e | return
    if t.isStruct then return ← structValue e
    emitMemberPointer e
    push .loadPointer
  | e@(.node _ span (.call f args)) => do
    if f.isError then return
    let ts ← typesOf args
    let some o ← callOverload e | return
    let some ft := o.type.callable? | do
      error .e2064 span ("'" ++ f.text ++ "' does not evaluate to a function taking " ++
        toString args.length ++ " arguments")
    let provided := args.length
    let required := ft.requiredCount
    let count := ft.params.length
    if provided < required || provided > count then
      let expected := if provided < required then required else count
      error .e1501 span ("'" ++ f.text ++ "' takes " ++ toString expected ++ " arguments, " ++
        toString provided ++ " provided")
      return
    emitArguments args ts ft.params
    for p in ft.params.drop provided do
      push (.loadConstant (omittedArgument p))
    emitCallee f o.callee
    push (.call count)
    if ft.ret.isVoid then push (.loadConstant (Value.zero (← intKind)))
  | e@(.node _ _ (.cast _ operand)) => do
    let target ← typeOf e
    let source ← typeOf operand
    emitExpr operand
    if source.castAllowed target then emitConversion source target
  | e@(.node _ _ (.unary op operand)) => do
    let result ← typeOf e
    let t ← typeOf operand
    emitExpr operand
    if op != .not then emitConversion t result
    push (.unary op)
  | e@(.node _ _ (.binary op l r)) => do
    let _ ← typeOf e
    let lt ← typeOf l
    let rt ← typeOf r
    match planBinary (← machine) (← registry) op lt rt with
    | .arithmetic t | .shift t =>
      emitExpr l
      emitConversion lt t
      emitExpr r
      emitConversion rt t
      push (.binary op)
    | .pointerOffset _ stride pointerFirst =>
      if pointerFirst then
        emitExpr l
        emitExpr r
      else
        emitExpr r
        emitExpr l
      push (if op = .sub then .subPointer stride else .addPointer stride)
    | .pointerCompare =>
      emitExpr l
      emitConversion lt CType.voidPointer
      emitExpr r
      emitConversion rt CType.voidPointer
      push (.binary op)
    | .invalid => pure ()
  | e@(.node _ _ (.logical op l r)) => do
    let _ ← typeOf e
    emitLogical op (emitExpr l) (emitExpr r)
  | .node _ _ (.assign target value) => do
    let tt ← typeOf target
    let vt ← typeOf value
    if tt.isStruct then return ← structValue target
    emitExpr value
    emitCast vt tt value.span
    push .dup
    emitPointer target
    push .storePointer
  | .node _ _ (.addressOf operand) => do
    if (← typeOf operand).isFunction then emitExpr operand else emitPointer operand
  | e@(.node _ _ (.deref operand)) => do
    match ← typeOf e with
    | .function _ => emitExpr operand
    | .struct _ => structValue e
    | _ =>
      emitExpr operand
      push .loadPointer
  | .node _ _ .error => pure ()
termination_by e => 8 * sizeOf e + 2
decreasing_by
  all_goals
    try subst_vars
    simp_wf
    try simp
    try omega

/-- Emits the address of the object an lvalue designates. -/
def emitPointer : Expr → EmitM Unit
  | e@(.node _ _ (.variable name)) => do
    match ← variableSymbol e name with
    | none => pure ()
    | some (.local slot _) => push (.loadLocalAddress slot)
    | some (.global address _) => push (.loadGlobalAddress address)
    | some (.field offset _) => emitThisField offset
    | some _ => notAnLvalue e
  | e@(.node _ _ (.member _ _)) => emitMemberPointer e
  | e@(.node _ _ (.arrow _ _)) => emitMemberPointer e
  | e@(.node _ _ (.deref operand)) => do
    let _ ← typeOf e
    emitExpr operand
  | .node _ _ .error => pure ()
  | e => notAnLvalue e
termination_by e => 8 * sizeOf e + 1
decreasing_by
  all_goals
    try subst_vars
    simp_wf
    try simp
    try omega

/-- Emits the address of the field a member access selects. -/
def emitMemberPointer : Expr → EmitM Unit
  | e@(.node _ _ (.member target _)) => do
    let some (offset, _) ← fieldOf e | return
    emitPointer target
    if offset > 0 then push (.offsetPointer offset)
  | e@(.node _ _ (.arrow target _)) => do
    let some (offset, _) ← fieldOf e | return
    emitExpr target
    if offset > 0 then push (.offsetPointer offset)
  | _ => pure ()
termination_by e => 8 * sizeOf e
decreasing_by
  all_goals
    try subst_vars
    simp_wf
    try simp
    try omega

/-- Emits each argument converted to its parameter's type. -/
def emitArguments : List Expr → List CType → List Parameter → EmitM Unit
  | a :: rest, t :: ts, p :: ps => do
    emitExpr a
    emitCast t p.type a.span
    emitArguments rest ts ps
  | _, _, _ => pure ()
termination_by args _ _ => 8 * sizeOf args
decreasing_by
  all_goals
    try subst_vars
    simp_wf
    try simp
    try omega

/-- Pushes the receiver of a method call and the callee. -/
def emitCallee : Expr → Callee → EmitM Unit
  | .node _ _ (.member target _), .method .address address => do
    emitPointer target
    pushAddress address
  | .node _ _ (.arrow target _), .method .pointer address => do
    emitExpr target
    pushAddress address
  | _, .method .this address => do
    push (.loadLocal 0)
    pushAddress address
  | _, .method _ address => pushAddress address
  | _, .function address => pushAddress address
  | f, .value => emitExpr f
  | _, .nothing => pure ()
termination_by f _ => 8 * sizeOf f + 3
decreasing_by
  all_goals
    try subst_vars
    simp_wf
    try simp
    try omega

end

end EmitM

end CStack
