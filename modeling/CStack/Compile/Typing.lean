import CStack.Compile.Context
import CStack.Compile.Operators

/-!
# Typing expressions

The static type of every expression, with the diagnostics typing finds. A node that fails to
type-check is typed `int`, so that its parents keep checking while the failure is reported once,
where it happens.

Typing a call resolves what it calls, which depends on the shape of the callee:

- `target.name(…)` and `pointer->name(…)`: the struct's methods of that name are ranked against
  the argument types and the best one wins, the first declared among equal scores; a field
  holding a function pointer is called through its value;
- `name(…)`: the name is resolved with the argument types (`resolveVariable`);
- anything else is called through its own value.

Types, variable symbols, selected fields and call targets are remembered per node, so the
functions here recurse on subexpressions and otherwise look the answer up.
-/

namespace CStack

namespace EmitM

/-- What a variable denotes when it is read or assigned, resolved once per node. -/
def variableSymbol (e : Expr) (name : String) : EmitM (Option Symbol) := do
  if let some s := (← get).memo.names[e.tag]? then return s
  let s ← resolveVariable name none e.span
  modify fun st => { st with memo := { st.memo with names := st.memo.names.insert e.tag s } }
  return s

/-- Reports an expression that has no meaning where it stands. -/
def invalidInContext (e : Expr) : EmitM Unit :=
  error .e0119 e.span ("'" ++ e.text ++ "' is not valid in the given context")

/-- Reports a struct used as a value. -/
def structValue (e : Expr) : EmitM Unit :=
  error .e0020 e.span ("'" ++ e.text ++ "' is a struct value; take its address instead")

/-- Reports an assignment to something that is not an object. -/
def notAnLvalue (e : Expr) : EmitM Unit :=
  error .e0131 e.span "The left-hand side of an assignment must be a variable, property or indexer"

/-- Reports a binary operator applied to operands it does not take. -/
def badOperands (e : Expr) (op : String) (left right : CType) : EmitM Unit :=
  error .e0019 e.span ("Operator '" ++ op ++ "' cannot be applied to operands of type '" ++
    left.text ++ "' and '" ++ right.text ++ "'")

/-- Reports a prefix operator applied to an operand it does not take. -/
def badOperand (e : Expr) (op : String) (operand : CType) : EmitM Unit :=
  error .e0019 e.span ("Operator '" ++ op ++ "' cannot be applied to operand of type '" ++
    operand.text ++ "'")

/-- The type of `this`: a pointer to the struct whose method is being emitted. -/
def thisType (e : Expr) : EmitM CType := do
  match (← get).function.owner with
  | some owner => return .pointer (.struct owner)
  | none =>
    error .e0103 e.span "The name 'this' does not exist in the current context"
    intType

/-- The result type of a prefix operator, if it takes the operand. -/
def unaryResult (m : Machine) : UnaryOp → CType → Option CType
  | .neg, .basic b => some (.basic (b.promote m))
  | .bitNot, .basic b => if b.kind != .float then some (.basic (b.promote m)) else none
  | .not, t => if t.isScalar then some (CType.int m) else none
  | _, _ => none

/-- A call through a value: typed as the function it can be called as, if any. -/
def Overload.ofValue (t : CType) : Overload :=
  ⟨match t.callable? with
    | some f => .function f
    | none => t, .value⟩

/-- The method of a struct called by `f`, ranked against the argument types. -/
def resolveMethod (f : Expr) (owner : StructId) (member : String) (args : List CType)
    (receiver : Receiver) : EmitM (Option Overload) := do
  let notFound : EmitM (Option Overload) := do
    error .e1061 f.span ("'" ++ member ++ "' not found in '" ++ owner.name ++ "'")
    return none
  let some st := (← registry).get? owner | notFound
  let candidates := st.methodsNamed member
  if candidates.isEmpty then
    if let some (_, t) := st.field? member then
      if t.callable?.isSome then return some (Overload.ofValue t)
    return ← notFound
  match pickOverload candidates args with
  | none =>
    mismatch f.text f.span
    return none
  | some i =>
    match ← resolveMethodFunction owner member i f.span with
    | some address => return some ⟨.function (candidates[i]?.getD default), .method receiver address⟩
    | none => return none

/-- The field a member access selects in the struct its target reaches, if it reaches one. -/
def selectField (e target : Expr) (member : String) (owner : Option StructId) :
    EmitM (Option (Nat × CType)) := do
  let some owner := owner | do invalidInContext target; return none
  let some st := (← registry).get? owner | do
    error .e0246 target.span ("The type '" ++ owner.name ++ "' could not be found")
    return none
  if let some found := st.field? member then return some found
  if st.hasMember member then
    invalidInContext e
    return none
  error .e1061 e.span ("'" ++ member ++ "' not found in '" ++ owner.name ++ "'")
  return none

mutual

/-- The static type of an expression, computed once per node. -/
def typeOf (e : Expr) : EmitM CType := do
  if let some t := (← get).memo.types[e.tag]? then return t
  let t ← typeOfNode e
  modify fun s => { s with memo := { s.memo with types := s.memo.types.insert e.tag t } }
  return t
termination_by 8 * sizeOf e + 3
decreasing_by
  all_goals
    try subst_vars
    simp_wf
    try simp
    try omega

/-- The types of a list of expressions, in order. -/
def typesOf : List Expr → EmitM (List CType)
  | [] => return []
  | a :: rest => return (← typeOf a) :: (← typesOf rest)
termination_by es => 8 * sizeOf es + 0
decreasing_by
  all_goals
    try subst_vars
    simp_wf
    try simp
    try omega

/-- The static type of a node, computed from its parts. -/
def typeOfNode : Expr → EmitM CType
  | .node _ _ (.integer v) => return integerLiteralType v (← machine)
  | .node _ _ (.character _) => return CType.char (← machine)
  | .node _ _ (.float _) => return CType.double (← machine)
  | .node _ _ (.constant v) => return constantType v (← machine)
  | e@(.node _ _ (.variable name)) => do
    match ← variableSymbol e name with
    | some s => return s.type
    | none => intType
  | e@(.node _ _ .this) => thisType e
  | e@(.node _ _ (.member _ _)) => do
    match ← fieldOf e with
    | some (_, t) => return t
    | none => intType
  | e@(.node _ _ (.arrow _ _)) => do
    match ← fieldOf e with
    | some (_, t) => return t
    | none => intType
  | e@(.node _ _ (.call f _)) => do
    if f.isError then return ← intType
    match ← callOverload e with
    | some o =>
      match o.type.callable? with
      | some ft => return ft.ret
      | none => intType
    | none => intType
  | .node _ span (.cast ty operand) => do
    let target ← resolveType ty span
    let source ← typeOf operand
    if !source.castAllowed target then error .e0030 span (conversionMessage source target)
    return target
  | e@(.node _ _ (.unary op operand)) => do
    let t ← typeOf operand
    match unaryResult (← machine) op t with
    | some r => return r
    | none =>
      badOperand e op.symbol t
      intType
  | e@(.node _ _ (.binary op l r)) => do
    let lt ← typeOf l
    let rt ← typeOf r
    let plan := planBinary (← machine) (← registry) op lt rt
    if op.isComparison && !plan.isInvalid then return ← intType
    match plan with
    | .arithmetic t | .shift t | .pointerOffset t _ _ => return t
    | .pointerCompare => intType
    | .invalid =>
      badOperands e op.symbol lt rt
      intType
  | e@(.node _ _ (.logical op l r)) => do
    let lt ← typeOf l
    let rt ← typeOf r
    if !lt.isScalar || !rt.isScalar then badOperands e op.symbol lt rt
    intType
  | .node _ _ (.assign target _) => typeOf target
  | .node _ _ (.addressOf operand) => return .pointer (← typeOf operand)
  | e@(.node _ _ (.deref operand)) => do
    let t ← typeOf operand
    match t with
    | .pointer inner =>
      if !inner.isVoid then return inner
      badOperand e "*" t
      intType
    | .function _ => return t
    | _ =>
      badOperand e "*" t
      intType
  | .node _ _ .error => intType
termination_by e => 8 * sizeOf e + 2
decreasing_by
  all_goals
    try subst_vars
    simp_wf
    try simp
    try omega

/-- The cell offset and type of the field a member access selects, resolved once per node. -/
def fieldOf (e : Expr) : EmitM (Option (Nat × CType)) := do
  if let some r := (← get).memo.fields[e.tag]? then return r
  let r ← resolveField e
  modify fun s => { s with memo := { s.memo with fields := s.memo.fields.insert e.tag r } }
  return r
termination_by 8 * sizeOf e + 1
decreasing_by
  all_goals
    try subst_vars
    simp_wf
    try simp
    try omega

/-- The field a member access selects. -/
def resolveField : Expr → EmitM (Option (Nat × CType))
  | e@(.node _ _ (.member target name)) => do
    let t ← typeOf target
    selectField e target name t.asStruct?
  | e@(.node _ _ (.arrow target name)) => do
    let t ← typeOf target
    selectField e target name (t.pointee?.bind CType.asStruct?)
  | e => do
    invalidInContext e
    return none
termination_by e => 8 * sizeOf e + 0
decreasing_by
  all_goals
    try subst_vars
    simp_wf
    try simp
    try omega

/-- What a call node calls, resolved once per node after typing its arguments. -/
def callOverload : Expr → EmitM (Option Overload)
  | .node tag _ (.call f args) => do
    if let some o := (← get).memo.calls[tag]? then return o
    let ts ← typesOf args
    let o ← resolveOverload f ts
    modify fun s => { s with memo := { s.memo with calls := s.memo.calls.insert tag o } }
    return o
  | _ => return none
termination_by e => 8 * sizeOf e + 1
decreasing_by
  all_goals
    try subst_vars
    simp_wf
    try simp
    try omega

/-- What a callee denotes, given the argument types of the call. -/
def resolveOverload : Expr → List CType → EmitM (Option Overload)
  | f@(.node _ _ (.member target name)), args => do
    match (← typeOf target).asStruct? with
    | some owner => resolveMethod f owner name args .address
    | none =>
      invalidInContext target
      return none
  | f@(.node _ _ (.arrow target name)), args => do
    match (← typeOf target).pointee?.bind CType.asStruct? with
    | some owner => resolveMethod f owner name args .pointer
    | none =>
      invalidInContext target
      return none
  | .node _ span (.variable name), args => do
    match ← resolveVariable name (some args) span with
    | none => return none
    | some (.function address t) => return some ⟨.function t, .function address⟩
    | some (.method address t) => return some ⟨.function t, .method .this address⟩
    | some s => return some (Overload.ofValue s.type)
  | .node _ _ .error, _ => return some ⟨← intType, .nothing⟩
  | f, _ => return some (Overload.ofValue (← typeOf f))
termination_by f _ => 8 * sizeOf f + 4
decreasing_by
  all_goals
    try subst_vars
    simp_wf
    try simp
    try omega

end

end EmitM

end CStack
