import Mathlib
import CStack.Proofs.TypingRuns
import CStack.Proofs.DefaultArguments

/-!
# The code of an expression, computed

`EmitEnv.exprCode` computes the instructions that emitting an expression appends, from the static
analysis of `StaticTyping` alone, with no memo and no report: `none` exactly where emission files a
diagnostic. Jump targets are absolute, so the code is computed for the index its first instruction
will have. Each call instruction carries the function type the call site calls its callee as, which
is what a stack discipline for calls has to be stated against.

The module `EmissionRuns` proves that emission appends this code; `StackMap` reads the stack
discipline off it.
-/

namespace CStack

/-- An emitted instruction; a call also carries the function type its callee is called as. -/
structure Annotated where
  instr : Instr
  callee : Option FunctionType

namespace Annotated

/-- Instructions that are not calls. -/
def plain (is : List Instr) : List Annotated := is.map fun i => ⟨i, none⟩

@[simp] theorem plain_nil : plain [] = [] := rfl

@[simp] theorem plain_cons (i : Instr) (is : List Instr) : plain (i :: is) = ⟨i, none⟩ :: plain is := rfl

@[simp] theorem plain_append (is js : List Instr) : plain (is ++ js) = plain is ++ plain js :=
  List.map_append

@[simp] theorem length_plain (is : List Instr) : (plain is).length = is.length := List.length_map _

@[simp] theorem instr_plain (is : List Instr) : (plain is).map instr = is := by
  simp [plain, Function.comp_def]

end Annotated

open Annotated

/-- The instructions pushing the address of a field of the receiver. -/
def Instr.thisField (offset : Nat) : List Instr :=
  .loadLocal 0 :: (if offset > 0 then [.offsetPointer offset] else [])

/-- The instruction pushing a function address. -/
def Instr.functionAddress (address : Nat) : Instr := .loadConstant (.pointer address.toUInt32)

namespace EmitEnv

variable (env : EmitEnv) (sc : Scope)

/-- The instructions of an implicit conversion, which must be allowed. -/
def castCode (source target : CType) : Option (List Instr) :=
  if source.score target == 0 then none else some (env.conversionCode source target)

/-- The short-circuit code of `left op right` starting at `start`, given the code of each side:
`1` or `0` of kind `int` is left on the stack. -/
def logicalCode (op : LogicalOp) (start : Nat) (left right : List Annotated) : List Annotated :=
  let one := (Value.int64 1).convert env.intKind
  let leftBranch := start + left.length
  let rightStart := leftBranch + (if op = .or then 3 else 1)
  let rightBranch := rightStart + right.length
  let falseBranch := rightBranch + 3
  left ++ plain (.branchIfFalse (if op = .or then rightStart else falseBranch) ::
      (if op = .or then [.loadConstant one, .jump (falseBranch + 1)] else [])) ++
    right ++ plain [.branchIfFalse falseBranch, .loadConstant one, .jump (falseBranch + 1),
      .loadConstant (Value.zero env.intKind)]

/-- The code of a literal, converted to the representation of its type. -/
def literalCode (e : Expr) (v : Value) : Option (List Annotated) := do
  let t ← env.staticType sc e
  some (plain [.loadConstant (match t.valueKind? with
    | some k => v.convert k
    | none => v)])

mutual

/-- The code emitting an expression whose first instruction has index `start`. -/
def exprCode (start : Nat) : Expr → Option (List Annotated)
  | e@(.node _ _ (.integer v)) => env.literalCode sc e (.int64 v)
  | e@(.node _ _ (.character c)) => env.literalCode sc e (.uint8 c)
  | e@(.node _ _ (.float b)) => env.literalCode sc e (.float64 b)
  | .node _ _ (.constant v) => some (plain [.loadConstant v])
  | e@(.node _ _ (.variable _)) => do
    let s ← env.staticSymbol sc e
    if s.type.isStruct then none
    else
      match s with
      | .local slot _ => some (plain [.loadLocal slot])
      | .global address _ => some (plain [.loadGlobal address])
      | .field offset _ => some (plain (Instr.thisField offset ++ [.loadPointer]))
      | .function address _ => some (plain [Instr.functionAddress address])
      | .method _ _ => none
  | e@(.node _ _ .this) => do
    let t ← env.staticType sc e
    some (if t.isPointer then plain [.loadLocal 0] else [])
  | e@(.node _ _ (.member _ _)) | e@(.node _ _ (.arrow _ _)) => do
    let (_, t) ← env.staticField sc e
    if t.isStruct then none
    else
      let code ← memberPointerCode start e
      some (code ++ plain [.loadPointer])
  | e@(.node _ _ (.call f args)) =>
    if f.isError then some []
    else do
      let ts ← env.staticTypes sc args
      let o ← env.staticCall sc e
      let ft ← o.type.callable?
      let provided := args.length
      if provided < ft.requiredCount || provided > ft.params.length then none
      else
        let argCode ← argumentsCode start args ts ft.params
        let omitted := plain (omittedCode (ft.params.drop provided))
        let calleeCode ← calleeCode (start + argCode.length + omitted.length) f o.callee
        some (argCode ++ omitted ++ calleeCode ++ [⟨.call ft.params.length, some ft⟩] ++
          plain (if ft.ret.isVoid then [.loadConstant (Value.zero env.intKind)] else []))
  | e@(.node _ _ (.cast _ operand)) => do
    let target ← env.staticType sc e
    let source ← env.staticType sc operand
    let code ← exprCode start operand
    some (code ++ plain (if source.castAllowed target then env.conversionCode source target else []))
  | e@(.node _ _ (.unary op operand)) => do
    let result ← env.staticType sc e
    let t ← env.staticType sc operand
    let code ← exprCode start operand
    some (code ++ plain ((if op != .not then env.conversionCode t result else []) ++ [.unary op]))
  | e@(.node _ _ (.binary op l r)) => do
    let _ ← env.staticType sc e
    let lt ← env.staticType sc l
    let rt ← env.staticType sc r
    match planBinary env.machine env.registry op lt rt with
    | .arithmetic t | .shift t =>
      let lc ← exprCode start l
      let rc ← exprCode (start + lc.length + (env.conversionCode lt t).length) r
      some (lc ++ plain (env.conversionCode lt t) ++ rc ++
        plain (env.conversionCode rt t ++ [.binary op]))
    | .pointerOffset _ stride pointerFirst =>
      let offsetCode := plain [if op = .sub then .subPointer stride else .addPointer stride]
      if pointerFirst then
        let lc ← exprCode start l
        let rc ← exprCode (start + lc.length) r
        some (lc ++ rc ++ offsetCode)
      else
        let rc ← exprCode start r
        let lc ← exprCode (start + rc.length) l
        some (rc ++ lc ++ offsetCode)
    | .pointerCompare =>
      let lc ← exprCode start l
      let rc ← exprCode (start + lc.length + (env.conversionCode lt CType.voidPointer).length) r
      some (lc ++ plain (env.conversionCode lt CType.voidPointer) ++ rc ++
        plain (env.conversionCode rt CType.voidPointer ++ [.binary op]))
    | .invalid => some []
  | e@(.node _ _ (.logical op l r)) => do
    let _ ← env.staticType sc e
    let lc ← exprCode start l
    let rc ← exprCode (start + lc.length + (if op = .or then 3 else 1)) r
    some (env.logicalCode op start lc rc)
  | .node _ _ (.assign target value) => do
    let tt ← env.staticType sc target
    let vt ← env.staticType sc value
    if tt.isStruct then none
    else
      let vc ← exprCode start value
      let cast ← env.castCode vt tt
      let pc ← pointerCode (start + vc.length + cast.length + 1) target
      some (vc ++ plain (cast ++ [.dup]) ++ pc ++ plain [.storePointer])
  | .node _ _ (.addressOf operand) => do
    let t ← env.staticType sc operand
    if t.isFunction then exprCode start operand else pointerCode start operand
  | e@(.node _ _ (.deref operand)) => do
    match ← env.staticType sc e with
    | .function _ => exprCode start operand
    | .struct _ => none
    | _ =>
      let code ← exprCode start operand
      some (code ++ plain [.loadPointer])
  | .node _ _ .error => some []
termination_by e => 8 * sizeOf e + 2
decreasing_by
  all_goals
    try subst_vars
    simp_wf
    try simp
    try omega

/-- The code pushing the address of the object an lvalue designates. -/
def pointerCode (start : Nat) : Expr → Option (List Annotated)
  | e@(.node _ _ (.variable _)) => do
    match ← env.staticSymbol sc e with
    | .local slot _ => some (plain [.loadLocalAddress slot])
    | .global address _ => some (plain [.loadGlobalAddress address])
    | .field offset _ => some (plain (Instr.thisField offset))
    | _ => none
  | e@(.node _ _ (.member _ _)) | e@(.node _ _ (.arrow _ _)) => memberPointerCode start e
  | e@(.node _ _ (.deref operand)) => do
    let _ ← env.staticType sc e
    exprCode start operand
  | .node _ _ .error => some []
  | _ => none
termination_by e => 8 * sizeOf e + 1
decreasing_by
  all_goals
    try subst_vars
    simp_wf
    try simp
    try omega

/-- The code pushing the address of the field a member access selects. -/
def memberPointerCode (start : Nat) : Expr → Option (List Annotated)
  | e@(.node _ _ (.member target _)) => do
    let (offset, _) ← env.staticField sc e
    let code ← pointerCode start target
    some (code ++ plain (if offset > 0 then [.offsetPointer offset] else []))
  | e@(.node _ _ (.arrow target _)) => do
    let (offset, _) ← env.staticField sc e
    let code ← exprCode start target
    some (code ++ plain (if offset > 0 then [.offsetPointer offset] else []))
  | _ => some []
termination_by e => 8 * sizeOf e
decreasing_by
  all_goals
    try subst_vars
    simp_wf
    try simp
    try omega

/-- The code of the arguments of a call, each converted to its parameter's type. -/
def argumentsCode (start : Nat) : List Expr → List CType → List Parameter → Option (List Annotated)
  | a :: rest, t :: ts, p :: ps => do
    let code ← exprCode start a
    let cast ← env.castCode t p.type
    let restCode ← argumentsCode (start + code.length + cast.length) rest ts ps
    some (code ++ plain cast ++ restCode)
  | _, _, _ => some []
termination_by args _ _ => 8 * sizeOf args
decreasing_by
  all_goals
    try subst_vars
    simp_wf
    try simp
    try omega

/-- The code pushing the receiver of a method call and the callee. -/
def calleeCode (start : Nat) : Expr → Callee → Option (List Annotated)
  | .node _ _ (.member target _), .method .address address => do
    let code ← pointerCode start target
    some (code ++ plain [Instr.functionAddress address])
  | .node _ _ (.arrow target _), .method .pointer address => do
    let code ← exprCode start target
    some (code ++ plain [Instr.functionAddress address])
  | _, .method .this address => some (plain [.loadLocal 0, Instr.functionAddress address])
  | _, .method _ address => some (plain [Instr.functionAddress address])
  | _, .function address => some (plain [Instr.functionAddress address])
  | f, .value => exprCode start f
  | _, .nothing => some []
termination_by f _ => 8 * sizeOf f + 3
decreasing_by
  all_goals
    try subst_vars
    simp_wf
    try simp
    try omega

end

end EmitEnv

end CStack
