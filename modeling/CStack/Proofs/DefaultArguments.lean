import CStack.Proofs.CodeGrowth
import CStack.Proofs.StepCases

/-!
# Omitted arguments and explicit constants

A call that leaves out trailing parameters pushes each one's default as a constant, converted to
the parameter's representation once, when the signature was resolved (`Parameter.withDefault`
through `Value.convert`). The same call written out with the defaults as constant arguments
pushes each constant as it is and then converts it from the constant's type to the parameter's
(`emitCast`). The two routes meet when the conversion code of the explicit argument performs the
plain change of representation: for a parameter that is not `bool`, since a conversion to `bool`
from any other type compares with zero instead, and for a constant whose kind is the kind of its
own type on the machine, since a constant of a width no C type has is typed `long long` or
`double` while it keeps its kind.

`EmitEnv.conversionCode` is the code a conversion appends and `VmM.executeAll` runs instructions
one after another, as a frame runs them. The main statement, `omittedArguments_run_as_explicit`,
says that the code emitted for explicit trailing constants takes the interpreter, from every
state, to the very state the code of the omitted arguments does; the callee and the call that
follow are the same in both calls, so the callee's frame is entered with the same arguments.
-/

namespace CStack

namespace BasicType

theorem valueKind_eq_of_same {a b : BasicType} (h : a.same b = true) :
    a.valueKind = b.valueKind := by
  simp only [same, Bool.and_eq_true, beq_iff_eq] at h
  obtain ⟨⟨hkind, hsigned⟩, hsize⟩ := h
  simp only [valueKind, isSigned, hkind, hsigned, hsize]

end BasicType

theorem CType.valueKind?_eq_of_same {a b : CType} (h : a.same b = true) :
    a.valueKind? = b.valueKind? := by
  cases a <;> cases b <;> simp_all [CType.same, CType.valueKind?]
  exact BasicType.valueKind_eq_of_same h

/-- A value converted to the representation of a type, as a parameter's default is. -/
def Value.convertTo (v : Value) (t : CType) : Value :=
  match t.valueKind? with
  | some k => v.convert k
  | none => v

namespace Value

theorem convertTo_of_valueKind? {v : Value} {t : CType} (h : t.valueKind? = some v.kind) :
    v.convertTo t = v := by
  simp [convertTo, h, convert]

theorem convertTo_of_valueKind?_none {v : Value} {t : CType} (h : t.valueKind? = none) :
    v.convertTo t = v := by
  simp [convertTo, h]

end Value

namespace Parameter

/-- `v` is what a call written out in full passes for the parameter: the default it declares, or
the zero of its kind when it declares none. -/
def Declares (p : Parameter) (v : Value) : Prop :=
  p = Parameter.withDefault p.name p.type v ∨
    (p.default = none ∧ p.type.valueKind? = some v.kind ∧ v = Value.zero v.kind)

theorem omittedArgument_eq_convertTo {p : Parameter} {v : Value} (h : p.Declares v) :
    EmitM.omittedArgument p = v.convertTo p.type := by
  rcases h with hdefault | ⟨hnone, hkind, hzero⟩
  · rw [hdefault]
    rfl
  · simp only [EmitM.omittedArgument, hnone, hkind, Option.getD_none, Option.map_some,
      Option.getD_some, Value.convertTo, Value.convert, ↓reduceIte]
    exact hzero.symm

end Parameter

namespace EmitEnv

/-- The instructions converting a value from one type to another; a conversion to `bool` from
anything else compares with zero. -/
def conversionCode (env : EmitEnv) (source target : CType) : List Instr :=
  if source.same target || target.isVoid then []
  else
    match source.valueKind?, target.valueKind? with
    | some fromKind, some toKind =>
      if target.isBool && !source.isBool then
        [.loadConstant (Value.zero fromKind), .binary .ne] ++
          (if env.intKind != toKind then [.convert toKind] else [])
      else if fromKind != toKind then [.convert toKind] else []
    | _, _ => []

end EmitEnv

/-- A constant written as the argument of a parameter: the node's tag and span, and the
constant. -/
structure ConstantArgument where
  param : Parameter
  tag : Nat
  span : Span
  value : Value

namespace ConstantArgument

/-- The argument's expression node. -/
def expr (a : ConstantArgument) : Expr := .node a.tag a.span (.constant a.value)

/-- The argument's type on a machine: the type of its constant. -/
def type (a : ConstantArgument) (m : Machine) : CType := constantType a.value m

end ConstantArgument

/-- The code of explicit constant arguments: each constant, converted from its type to its
parameter's. -/
def EmitEnv.explicitCode (env : EmitEnv) : List ConstantArgument → List Instr
  | [] => []
  | a :: rest =>
    .loadConstant a.value :: env.conversionCode (a.type env.machine) a.param.type ++
      env.explicitCode rest

/-- The code a call pushes its omitted parameters with. -/
def omittedCode (ps : List Parameter) : List Instr :=
  ps.map fun p => .loadConstant (EmitM.omittedArgument p)

@[simp] theorem omittedCode_cons (p : Parameter) (ps : List Parameter) :
    omittedCode (p :: ps) = .loadConstant (EmitM.omittedArgument p) :: omittedCode ps := rfl

/-- `st` with instructions appended to the function being emitted. -/
def EmitState.appending (st : EmitState) (seg : List Instr) : EmitState :=
  { st with function := { st.function with code := st.function.code ++ seg.toArray } }

namespace EmitM

variable (env : EmitEnv) (st : EmitState)

@[simp] theorem appending_nil : st.appending [] = st := by
  simp [EmitState.appending]

theorem push_run_appending (i : Instr) : ((push i).run env).run st = ((), st.appending [i]) := by
  simp [EmitState.appending]

theorem appending_appending (seg seg' : List Instr) :
    (st.appending seg).appending seg' = st.appending (seg ++ seg') := by
  simp [EmitState.appending, Array.append_assoc]

theorem emitConversion_run (source target : CType) :
    ((emitConversion source target).run env).run st =
      ((), st.appending (env.conversionCode source target)) := by
  unfold emitConversion EmitEnv.conversionCode
  by_cases hsame : (source.same target || target.isVoid) = true
  · simp only [hsame, ↓reduceIte, appending_nil]
    rfl
  · simp only [hsame, Bool.false_eq_true, ↓reduceIte]
    cases source.valueKind? with
    | none => rfl
    | some fromKind =>
      cases target.valueKind? with
      | none => rfl
      | some toKind =>
        dsimp only
        by_cases hbool : (target.isBool && !source.isBool) = true
        · by_cases hint : env.intKind = toKind
          · simp only [hbool, hint, ↓reduceIte, run_bind, push_run_appending, intKind_run,
              bne_self_eq_false, Bool.false_eq_true, pure_run, appending_appending]
            rfl
          · simp only [hbool, hint, ↓reduceIte, run_bind, push_run_appending, intKind_run,
              bne_iff_ne, ne_eq, not_false_eq_true, pure_run, appending_appending]
            rfl
        · by_cases hkind : fromKind = toKind
          · simp only [hbool, hkind, bne_self_eq_false, Bool.false_eq_true, ↓reduceIte, pure_run,
              appending_nil]
          · simp only [hbool, hkind, bne_iff_ne, ne_eq, not_false_eq_true, ↓reduceIte,
              Bool.false_eq_true, push_run_appending]

theorem emitCast_run {source target : CType} (h : source.score target ≠ 0) (span : Span) :
    ((emitCast source target span).run env).run st =
      ((), st.appending (env.conversionCode source target)) := by
  unfold emitCast
  simp only [beq_iff_eq, h, ↓reduceIte]
  exact emitConversion_run env st source target

theorem emitExpr_constant_run (a : ConstantArgument) :
    ((emitExpr a.expr).run env).run st = ((), st.appending [.loadConstant a.value]) := by
  simp only [ConstantArgument.expr, emitExpr]
  exact push_run_appending env st _

theorem emitArguments_constants (args : List ConstantArgument)
    (hcast : ∀ a ∈ args, (a.type env.machine).score a.param.type ≠ 0) :
    ((emitArguments (args.map ConstantArgument.expr) (args.map (·.type env.machine))
        (args.map ConstantArgument.param)).run env).run st =
      ((), st.appending (env.explicitCode args)) := by
  induction args generalizing st with
  | nil =>
    simp only [List.map_nil, emitArguments, EmitEnv.explicitCode, appending_nil]
    rfl
  | cons a rest ih =>
    simp only [List.map_cons, emitArguments, run_bind, emitExpr_constant_run,
      emitCast_run env _ (hcast a List.mem_cons_self), appending_appending,
      ih _ fun b hb => hcast b (List.mem_cons_of_mem a hb), EmitEnv.explicitCode]
    rfl

theorem omittedArguments_run (ps : List Parameter) :
    ((ForIn.forIn ps PUnit.unit fun p _ => do
        push (.loadConstant (omittedArgument p))
        pure (ForInStep.yield PUnit.unit) : EmitM PUnit).run env).run st =
      (PUnit.unit, st.appending (omittedCode ps)) := by
  induction ps generalizing st with
  | nil => simp only [List.forIn_nil, omittedCode, List.map_nil, appending_nil]; rfl
  | cons p ps ih =>
    simp only [List.forIn_cons, run_bind, push_run_appending, pure_run, ih, appending_appending,
      omittedCode, List.map_cons]
    rfl

end EmitM

namespace VmM

/-- Runs instructions one after another, as a frame runs them, whatever each returns. -/
def executeAll : List Instr → VmM Unit
  | [] => pure ()
  | i :: is => do
    let _ ← execute i
    executeAll is

variable (s : Interpreter)

theorem executeAll_loadConstant (v : Value) (rest : List Instr) :
    (executeAll (.loadConstant v :: rest)).run s =
      (executeAll rest).run { s with stack := s.stack.push v } := rfl

theorem executeAll_convert (k : Kind) (rest : List Instr) (h : s.floor < s.stack.size) :
    (executeAll (.convert k :: rest)).run s =
      (executeAll rest).run
        { s with stack := s.stack.pop.push ((s.stack.back?.getD default).convert k) } := by
  simp only [executeAll, execute, EStateM.run_bind, EStateM.run_get, pop_run, h, ↓reduceIte]
  rfl

theorem executeAll_constant (env : EmitEnv) {v : Value} {t : CType} (hbool : t.isBool = false)
    (hkind : (constantType v env.machine).valueKind? = some v.kind) (rest : List Instr)
    (hs : s.floor ≤ s.stack.size) :
    (executeAll (.loadConstant v :: env.conversionCode (constantType v env.machine) t ++ rest)).run s =
      (executeAll rest).run { s with stack := s.stack.push (v.convertTo t) } := by
  rw [List.cons_append, executeAll_loadConstant]
  unfold EmitEnv.conversionCode
  by_cases hsame : ((constantType v env.machine).same t || t.isVoid) = true
  · -- nothing is appended: the type has the constant's kind, or no representation at all
    have hconvert : v.convertTo t = v := by
      rcases Bool.or_eq_true_iff.mp hsame with hsame | hvoid
      · exact Value.convertTo_of_valueKind? ((CType.valueKind?_eq_of_same hsame) ▸ hkind)
      · cases t <;> simp_all [CType.isVoid, CType.valueKind?, Value.convertTo]
    rw [if_pos hsame, List.nil_append, hconvert]
  rw [if_neg hsame, hkind]
  cases ht : t.valueKind? with
  | none =>
    rw [List.nil_append, Value.convertTo_of_valueKind?_none ht]
  | some k =>
    simp only [hbool, Bool.false_and, Bool.false_eq_true, ↓reduceIte, bne_iff_ne, ne_eq]
    by_cases hk : v.kind = k
    · rw [if_neg (fun h => h hk), List.nil_append, Value.convertTo_of_valueKind? (hk ▸ ht)]
    · -- one conversion instruction, run on the constant just pushed
      have hpushed : s.floor < (s.stack.push v).size := by
        rw [Array.size_push]
        omega
      rw [if_pos hk, List.singleton_append, executeAll_convert _ k rest hpushed]
      simp [Value.convertTo, ht]

theorem executeAll_explicitCode (env : EmitEnv) {args : List ConstantArgument}
    (hdeclared : ∀ a ∈ args, a.param.Declares a.value)
    (hbool : ∀ a ∈ args, a.param.type.isBool = false)
    (hkind : ∀ a ∈ args, (a.type env.machine).valueKind? = some a.value.kind)
    (rest : List Instr) (hs : s.floor ≤ s.stack.size) :
    (executeAll (env.explicitCode args ++ rest)).run s =
      (executeAll (omittedCode (args.map ConstantArgument.param) ++ rest)).run s := by
  induction args generalizing s with
  | nil => rfl
  | cons a args ih =>
    have ha := List.mem_cons_self (a := a) (l := args)
    have hpushed : ∀ w : Value, ({ s with stack := s.stack.push w } : Interpreter).floor ≤
        ({ s with stack := s.stack.push w } : Interpreter).stack.size := by
      intro w
      simp only [Interpreter.floor_stack, Array.size_push]
      omega
    rw [EmitEnv.explicitCode, List.append_assoc, ConstantArgument.type,
      executeAll_constant s env (hbool a ha) (hkind a ha) _ hs, List.map_cons, omittedCode_cons,
      List.cons_append, executeAll_loadConstant, Parameter.omittedArgument_eq_convertTo (hdeclared a ha)]
    exact ih _ (fun b hb => hdeclared b (List.mem_cons_of_mem a hb))
      (fun b hb => hbool b (List.mem_cons_of_mem a hb))
      (fun b hb => hkind b (List.mem_cons_of_mem a hb)) (hpushed _)

end VmM

open EmitM in
/-- Omitted trailing arguments behave as the same defaults written out as constant arguments,
for parameters that are not `bool` and constants of the kind of their own type on the machine.
The explicit constants, whose conversions to their parameters are allowed, append their code and
file nothing; the loop of a call that pushes the omitted parameters appends theirs; and from
every interpreter state whose stack stands at or above its floor, the first code followed by any
code runs exactly as the second followed by the same code, so the callee and the call that
follow find the same arguments. -/
theorem omittedArguments_run_as_explicit (env : EmitEnv) (st : EmitState)
    (args : List ConstantArgument) (hdeclared : ∀ a ∈ args, a.param.Declares a.value)
    (hbool : ∀ a ∈ args, a.param.type.isBool = false)
    (hkind : ∀ a ∈ args, (a.type env.machine).valueKind? = some a.value.kind)
    (hcast : ∀ a ∈ args, (a.type env.machine).score a.param.type ≠ 0) :
    ((emitArguments (args.map ConstantArgument.expr) (args.map (·.type env.machine))
        (args.map ConstantArgument.param)).run env).run st =
      ((), st.appending (env.explicitCode args)) ∧
    ((ForIn.forIn (args.map ConstantArgument.param) PUnit.unit fun p _ => do
        push (.loadConstant (omittedArgument p))
        pure (ForInStep.yield PUnit.unit) : EmitM PUnit).run env).run st =
      (PUnit.unit, st.appending (omittedCode (args.map ConstantArgument.param))) ∧
    ∀ (rest : List Instr) (s : Interpreter), s.floor ≤ s.stack.size →
      (VmM.executeAll (env.explicitCode args ++ rest)).run s =
        (VmM.executeAll (omittedCode (args.map ConstantArgument.param) ++ rest)).run s :=
  ⟨emitArguments_constants env st args hcast, omittedArguments_run env st _,
    fun rest s hs => VmM.executeAll_explicitCode s env hdeclared hbool hkind rest hs⟩

open EmitM in
/-- The default `7` of an `int` parameter, on the desktop machine. -/
theorem omittedArguments_run_as_explicit_intSeven :
    let env : EmitEnv := ⟨Machine.desktop, {}, {}⟩
    let st : EmitState := { report := {} }
    let args : List ConstantArgument :=
      [⟨Parameter.withDefault "by" (CType.int Machine.desktop) (.int64 7), 0, Span.none, .int64 7⟩]
    (∀ a ∈ args, a.param.Declares a.value) ∧ (∀ a ∈ args, a.param.type.isBool = false) ∧
    (∀ a ∈ args, (a.type env.machine).valueKind? = some a.value.kind) ∧
    (∀ a ∈ args, (a.type env.machine).score a.param.type ≠ 0) ∧
    ((emitArguments (args.map ConstantArgument.expr) (args.map (·.type env.machine))
        (args.map ConstantArgument.param)).run env).run st =
      ((), st.appending (env.explicitCode args)) ∧
    ((ForIn.forIn (args.map ConstantArgument.param) PUnit.unit fun p _ => do
        push (.loadConstant (omittedArgument p))
        pure (ForInStep.yield PUnit.unit) : EmitM PUnit).run env).run st =
      (PUnit.unit, st.appending (omittedCode (args.map ConstantArgument.param))) ∧
    ∀ (rest : List Instr) (s : Interpreter), s.floor ≤ s.stack.size →
      (VmM.executeAll (env.explicitCode args ++ rest)).run s =
        (VmM.executeAll (omittedCode (args.map ConstantArgument.param) ++ rest)).run s := by
  intro env st args
  have hdeclared : ∀ a ∈ args, a.param.Declares a.value := by
    simp only [args, List.mem_singleton, forall_eq]
    exact Or.inl rfl
  have hbool : ∀ a ∈ args, a.param.type.isBool = false := by
    simp only [args, List.mem_singleton, forall_eq]
    rfl
  have hkind : ∀ a ∈ args, (a.type env.machine).valueKind? = some a.value.kind := by
    simp only [args, List.mem_singleton, forall_eq]
    rfl
  have hcast : ∀ a ∈ args, (a.type env.machine).score a.param.type ≠ 0 := by
    simp only [args, List.mem_singleton, forall_eq]
    decide
  exact ⟨hdeclared, hbool, hkind, hcast,
    omittedArguments_run_as_explicit env st args hdeclared hbool hkind hcast⟩

end CStack
