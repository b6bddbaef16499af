import Std.Data.HashMap
import CStack.Compile.Symbols
import CStack.Compile.Literal
import CStack.Bytecode.Instruction
import CStack.Diagnostic.Report

/-!
# The emission context

Expression and statement emission run in one monad, `EmitM`: it reads the machine, the struct
registry and the unit's symbol table, and it updates the diagnostic report, the per-node memo and
the state of the function being emitted (its code, its frame layout and its scopes).

Each expression node is typed and resolved once. Its type, the symbol a variable denotes, the
field a member access selects and the target a call reaches are kept in the memo under the
node's tag, so a node files its diagnostics the first time it is asked about and never again.
-/

namespace CStack

/-- What emission reads and never changes. -/
structure EmitEnv where
  machine : Machine
  registry : Registry
  symbols : SymbolTable

/-- A local variable: its first frame slot and its type. -/
structure LocalSymbol where
  slot : Nat
  type : CType

/-- The function being emitted. Scopes are innermost first; within a scope a later binding of a
name hides an earlier one. -/
structure FunctionState where
  name : String := ""
  returnType : CType := .void
  owner : Option StructId := none
  code : Array Instr := #[]
  frame : Array Kind := #[]
  scopes : List (List (String × LocalSymbol)) := [[]]

/-- How the receiver of a method call is pushed. -/
inductive Receiver where
  /-- For `target.method()`: the address of the target. -/
  | address
  /-- For `target->method()`: the target's value. -/
  | pointer
  /-- An unqualified call inside a method: the current receiver. -/
  | this
  deriving DecidableEq, Repr

/-- What pushing the callee of a call involves. -/
inductive Callee where
  /-- A method body, after its receiver. -/
  | method (receiver : Receiver) (address : Nat)
  /-- A function by its address. -/
  | function (address : Nat)
  /-- The callee expression's own value: a function pointer. -/
  | value
  /-- Nothing: the target failed to resolve. -/
  | nothing
  deriving DecidableEq, Repr

/-- A resolved call target: the type it is called as and how it is pushed. -/
structure Overload where
  type : CType
  callee : Callee

/-- What is known about nodes, by tag. `none` records a failure that was reported. -/
structure Memo where
  types : Std.HashMap Nat CType := {}
  names : Std.HashMap Nat (Option Symbol) := {}
  fields : Std.HashMap Nat (Option (Nat × CType)) := {}
  calls : Std.HashMap Nat (Option Overload) := {}

/-- What emission changes. -/
structure EmitState where
  report : Report
  memo : Memo := {}
  function : FunctionState := {}

/-- The emission monad. -/
abbrev EmitM := ReaderT EmitEnv (StateM EmitState)

namespace EmitM

/-- Files a diagnostic. -/
def error (code : Code) (span : Span) (message : String) : EmitM Unit :=
  modify fun s => { s with report := s.report.error code span message }

/-- The machine. -/
def machine : EmitM Machine := return (← read).machine

/-- The struct registry. -/
def registry : EmitM Registry := return (← read).registry

/-- The type `signed int`, also the type of anything that failed to type-check. -/
def intType : EmitM CType := return CType.int (← machine)

/-- The representation of `int`. -/
def intKind : EmitM Kind := return (CType.int (← machine)).valueKind?.getD .int32

/-- Resolves a written type, reporting an unknown struct and standing `int` in for it. -/
def resolveType (name : TypeName) (span : Span) : EmitM CType := do
  match (← registry).resolve (← machine) name with
  | .ok t => return t
  | .error e =>
    error .e0246 span e.message
    intType

/-- Appends an instruction and returns its index. -/
def emit (i : Instr) : EmitM Nat :=
  modifyGet fun s =>
    (s.function.code.size, { s with function := { s.function with code := s.function.code.push i } })

/-- Appends an instruction. -/
def push (i : Instr) : EmitM Unit := do
  let _ ← emit i

/-- The index the next instruction will get. -/
def nextIndex : EmitM Nat := return (← get).function.code.size

/-- Points the jump at an index to a target; anything else there is left alone. -/
def patch (at_ target : Nat) : EmitM Unit :=
  modify fun s =>
    let retarget : Instr → Instr
      | .jump _ => .jump target
      | .branchIfFalse _ => .branchIfFalse target
      | i => i
    { s with function := { s.function with code := s.function.code.modify at_ retarget } }

/-- Opens a scope. -/
def pushScope : EmitM Unit :=
  modify fun s => { s with function := { s.function with scopes := [] :: s.function.scopes } }

/-- Closes the innermost scope. -/
def popScope : EmitM Unit :=
  modify fun s => { s with function := { s.function with scopes := s.function.scopes.tail } }

/-- The cell kinds of a local of a type, and `int` for one that occupies no cell. -/
def localCells (t : CType) : EmitM (List Kind) := do
  let kinds := (← registry).cellKinds t
  if kinds.isEmpty then return [← intKind] else return kinds

/-- Allocates frame cells for a local and binds its name in the innermost scope, reporting a
name the innermost scope already has. -/
def declareLocal (name : String) (t : CType) (span : Span) : EmitM Nat := do
  let slot := (← get).function.frame.size
  let kinds ← localCells t
  let duplicate := match (← get).function.scopes with
    | scope :: _ => (scope.lookup name).isSome
    | [] => false
  modify fun s => { s with function := { s.function with frame := s.function.frame ++ kinds.toArray } }
  if duplicate then
    error .e0128 span ("A local variable named '" ++ name ++ "' is already defined in this scope")
  modify fun s => { s with function := { s.function with scopes := match s.function.scopes with
    | scope :: rest => ((name, ⟨slot, t⟩) :: scope) :: rest
    | [] => [] } }
  return slot

/-- Starts a function: a method's receiver takes slot `0`, then each parameter one slot. -/
def beginFunction (name : String) (f : FunctionType) (owner : Option StructId) (span : Span) :
    EmitM Unit := do
  modify fun s => { s with function :=
    { name, returnType := f.ret, owner, frame := if f.isInstance then #[.pointer] else #[] } }
  for p in f.params do
    let _ ← declareLocal p.name p.type span

/-- Ends a function, returning its code and frame layout. -/
def finishFunction : EmitM (Array Instr × Array Kind) :=
  modifyGet fun s => ((s.function.code, s.function.frame), { s with function := {} })

/-- Converts the value on the stack from one type to another without checking that the
conversion is implicit. A conversion to `bool` from anything else tests against zero. -/
def emitConversion (source target : CType) : EmitM Unit := do
  if source.same target || target.isVoid then return
  let (some fromKind, some toKind) := (source.valueKind?, target.valueKind?) | return
  if target.isBool && !source.isBool then
    push (.loadConstant (Value.zero fromKind))
    push (.binary .ne)
    if (← intKind) != toKind then push (.convert toKind)
    return
  if fromKind != toKind then push (.convert toKind)

/-- The text of a failed conversion. -/
def conversionMessage (source target : CType) : String :=
  "Cannot convert type '" ++ source.text ++ "' to '" ++ target.text ++ "'"

/-- Converts the value on the stack implicitly, reporting a conversion that is not implicit. -/
def emitCast (source target : CType) (span : Span) : EmitM Unit := do
  if source.score target == 0 then
    error .e0030 span (conversionMessage source target)
  else
    emitConversion source target

/-- Reports a call whose arguments fit no overload. -/
def mismatch (name : String) (span : Span) : EmitM Unit :=
  error .e1503 span ("'" ++ name ++ "' argument type mismatch")

/-- The address of the body of an overload of a struct's method; a method declared in its
struct but never defined is reported. -/
def resolveMethodFunction (owner : StructId) (name : String) (overload : Nat) (span : Span) :
    EmitM (Option Nat) := do
  let declared := ((← registry).get? owner).bind fun st => (st.methodsNamed name)[overload]?
  match declared with
  | none =>
    error .e1061 span ("'" ++ name ++ "' not found in '" ++ owner.name ++ "'")
    return none
  | some declared =>
    match (← read).symbols.methodDefinition owner name declared with
    | some address => return some address
    | none =>
      error .e2019 span ("'" ++ owner.name ++ "::" ++ name ++ "' is declared but never defined")
      return none

/-- A field or method of the receiver with a name, inside a method body: `none` when the
receiver has no member of that name, `some none` when one was found but failed to resolve. -/
def receiverSymbol (name : String) (args : Option (List CType)) (span : Span) :
    EmitM (Option (Option Symbol)) := do
  let some owner := (← get).function.owner | return none
  let some entry := (← registry).get? owner | return none
  if let some (offset, t) := entry.field? name then return some (some (.field offset t))
  let candidates := entry.methodsNamed name
  if candidates.isEmpty then return none
  let index := match args with
    | some ts => pickOverload candidates ts
    | none => some 0
  match index with
  | none =>
    mismatch name span
    return some none
  | some i =>
    match ← resolveMethodFunction owner name i span with
    | some address => return some (some (.method address (candidates[i]?.getD default)))
    | none => return some none

/-- What a bare name denotes: a local of an enclosing scope, then inside a method a field or
method of the receiver, then a global, then a free function or intrinsic. When the name is
called, `args` holds the argument types: overloaded methods and function sets are then ranked
by `pickOverload`, while a single free function is taken as it is so that the call itself
reports arity and conversion problems. -/
def resolveVariable (name : String) (args : Option (List CType)) (span : Span) :
    EmitM (Option Symbol) := do
  if let some l := (← get).function.scopes.findSome? (·.lookup name) then
    return some (.local l.slot l.type)
  match ← receiverSymbol name args span with
  | some found => return found
  | none => pure ()
  let symbols := (← read).symbols
  if let some g := symbols.global? name then
    return some (.global g.address g.type)
  let overloads := symbols.functionsNamed name
  if overloads.isEmpty then
    error .e0103 span ("The name '" ++ name ++ "' does not exist in the current context")
    return none
  let index := match args with
    | some ts => if overloads.length > 1 then pickOverload (overloads.map FunctionSymbol.type) ts else some 0
    | none => some 0
  match index.bind (overloads[·]?) with
  | none =>
    mismatch name span
    return none
  | some f =>
    match f.address with
    | some address => return some (.function address f.type)
    | none =>
      error .e2019 span ("'" ++ name ++ "' is declared but never defined")
      return none

end EmitM

end CStack
