import CStack.Proofs.Resolution

/-!
# Emission only appends code

Every emission function, run from any state, leaves the code emitted before it as it was and
appends instructions after it; the jumps and branches among them target no index past the end of
what it appended. Forward jumps are emitted with a placeholder target and patched once the target
is known, but always within the code the same run appended, so the growth is the same as if the
final instructions had been appended in order.

The typing functions append nothing. The short-circuit code of `&&` and `||` and the code of `if`
and `while` statements are computed exactly (`logicalLayout`, `ifLayout`, `whileLayout`): the
code of their parts with the branches around it. Whether that code runs as the source means is
the subject of `ControlFlow`.
-/

namespace CStack

namespace Instr

/-- The index a jump or branch continues at. -/
def target? : Instr → Option Nat
  | .jump t | .branchIfFalse t => some t
  | _ => none

end Instr

/-- Every jump and branch of `seg` targets at most `bound`. -/
def JumpsWithin (seg : List Instr) (bound : Nat) : Prop :=
  ∀ i ∈ seg, ∀ t, i.target? = some t → t ≤ bound

namespace JumpsWithin

variable {seg seg' : List Instr} {bound bound' : Nat}

theorem nil (bound : Nat) : JumpsWithin [] bound := fun _ h => nomatch h

theorem mono (h : JumpsWithin seg bound) (hle : bound ≤ bound') : JumpsWithin seg bound' :=
  fun i hi t ht => Nat.le_trans (h i hi t ht) hle

theorem append (h : JumpsWithin seg bound) (h' : JumpsWithin seg' bound) :
    JumpsWithin (seg ++ seg') bound := by
  intro i hi t ht
  rcases List.mem_append.mp hi with hi | hi
  · exact h i hi t ht
  · exact h' i hi t ht

theorem cons {i : Instr} (hi : ∀ t, i.target? = some t → t ≤ bound) (h : JumpsWithin seg bound) :
    JumpsWithin (i :: seg) bound := by
  intro j hj t ht
  rcases List.mem_cons.mp hj with rfl | hj
  · exact hi t ht
  · exact h j hj t ht

end JumpsWithin

/-- A jump or branch pointed at a target; other instructions are left alone. -/
def Instr.retarget (target : Nat) : Instr → Instr
  | .jump _ => .jump target
  | .branchIfFalse _ => .branchIfFalse target
  | i => i

/-- The representation of `int` on the machine code is emitted for. -/
def EmitEnv.intKind (env : EmitEnv) : Kind := (CType.int env.machine).valueKind?.getD .int32

/-- The code of `left op right` at index `a`, given the code of each side: the left side and a
branch on its value (for `||`, with `1` pushed and a jump past the rest when it is true), the
right side and a branch on its value, then `1` and a jump past the `0` both branches go to. -/
def logicalLayout (k : Kind) (op : LogicalOp) (a : Nat) (ls rs : List Instr) : List Instr :=
  let one := (Value.int64 1).convert k
  let rightStart := a + ls.length + (if op = .or then 3 else 1)
  let falseBranch := rightStart + rs.length + 3
  ls ++ (.branchIfFalse (if op = .or then rightStart else falseBranch) ::
      (if op = .or then [.loadConstant one, .jump (falseBranch + 1)] else [])) ++
    rs ++ [.branchIfFalse falseBranch, .loadConstant one, .jump (falseBranch + 1),
      .loadConstant (Value.zero k)]

/-- The code of `if (c) t` or `if (c) t else e` at index `a`, given the code of its parts: the
condition and a branch past the then-branch on its value, the then-branch, and before an
else-branch a jump past it. -/
def ifLayout (a : Nat) (cs ts : List Instr) : Option (List Instr) → List Instr
  | none => cs ++ .branchIfFalse (a + cs.length + 1 + ts.length) :: ts
  | some es =>
    cs ++ .branchIfFalse (a + cs.length + 1 + ts.length + 1) :: ts ++
      .jump (a + cs.length + 1 + ts.length + 1 + es.length) :: es

/-- The code of `while (c) body` at index `a`: the condition and a branch past the loop on its
value, the body, and a jump back to the condition. -/
def whileLayout (a : Nat) (cs bs : List Instr) : List Instr :=
  cs ++ .branchIfFalse (a + cs.length + 1 + bs.length + 1) :: bs ++ [.jump a]

namespace EmitM

/-- Run from any state, `x` appends instructions to the code of the function being emitted,
leaving the code before them alone, and each of its jumps and branches targets at most the end of
what it appended. -/
def Appends {α : Type} (x : EmitM α) : Prop :=
  ∀ env st, ∃ seg : List Instr,
    (((x.run env).run st).2.function.code = st.function.code ++ seg.toArray) ∧
      JumpsWithin seg (st.function.code.size + seg.length)

namespace Appends

variable {α β : Type} {x : EmitM α}

theorem of_code (h : ∀ env st, ((x.run env).run st).2.function.code = st.function.code) :
    Appends x :=
  fun env st => ⟨[], by rw [h]; simp, .nil _⟩

theorem of_report (h : ∀ env st, ∃ a r, (x.run env).run st = (a, { st with report := r })) :
    Appends x :=
  of_code fun env st => by
    obtain ⟨a, r, hrun⟩ := h env st
    rw [hrun]

theorem pure (a : α) : Appends (Pure.pure a : EmitM α) := of_code fun _ _ => rfl

theorem bind {f : α → EmitM β} (hx : Appends x) (hf : ∀ a, Appends (f a)) : Appends (x >>= f) := by
  intro env st
  obtain ⟨seg₁, hcode₁, hjumps₁⟩ := hx env st
  obtain ⟨seg₂, hcode₂, hjumps₂⟩ := hf ((x.run env).run st).1 env ((x.run env).run st).2
  refine ⟨seg₁ ++ seg₂, ?_, ?_⟩
  · rw [run_bind, hcode₂, hcode₁, Array.append_assoc, List.append_toArray seg₁ seg₂]
  · rw [hcode₁, Array.size_append, List.size_toArray] at hjumps₂
    rw [List.length_append, ← Nat.add_assoc]
    exact (hjumps₁.mono (by omega)).append hjumps₂

theorem get {f : EmitState → EmitM α} (hf : ∀ s, Appends (f s)) :
    Appends (MonadState.get >>= f) :=
  fun env st => hf st env st

theorem read {f : EmitEnv → EmitM α} (hf : ∀ e, Appends (f e)) : Appends (MonadReader.read >>= f) :=
  fun env st => hf env env st

theorem of_modify {f : EmitState → EmitState} (hf : ∀ s, (f s).function.code = s.function.code) :
    Appends (modify f : EmitM Unit) :=
  of_code fun _ st => hf st

theorem error (code : Code) (span : Span) (message : String) : Appends (error code span message) :=
  of_code fun _ _ => rfl

theorem ite {c : Prop} [Decidable c] {y : EmitM α} (hx : Appends x) (hy : Appends y) :
    Appends (if c then x else y) := by
  split
  · exact hx
  · exact hy

theorem push {i : Instr} (hi : i.target? = none) : Appends (push i) := by
  intro env st
  refine ⟨[i], ?_, ?_⟩
  · simp only [EmitM.push, EmitM.emit, run_bind]
    rfl
  · exact JumpsWithin.cons (fun t ht => by simp [hi] at ht) (.nil _)

theorem of_run {f : EmitEnv → EmitState → α} (h : ∀ env st, ∃ r, (x.run env).run st =
    (f env st, { st with report := r }) ∧ True) : Appends x :=
  of_report fun env st => by
    obtain ⟨r, hrun, -⟩ := h env st
    exact ⟨_, r, hrun⟩

theorem machine : Appends machine := of_code fun _ _ => rfl

theorem registry : Appends registry := of_code fun _ _ => rfl

theorem intType : Appends intType := of_code fun _ _ => rfl

theorem intKind : Appends intKind := of_code fun _ _ => rfl

theorem resolveVariable (name : String) (args : Option (List CType)) (span : Span) :
    Appends (resolveVariable name args span) :=
  of_report fun env st => by
    obtain ⟨r, hrun, -⟩ := resolveVariable_run env st name args span
    exact ⟨_, r, hrun⟩

theorem resolveMethod (f : Expr) (owner : StructId) (member : String) (args : List CType)
    (receiver : Receiver) : Appends (resolveMethod f owner member args receiver) :=
  of_report fun env st => by
    obtain ⟨r, hrun, -⟩ := resolveMethod_run env st f owner member args receiver
    exact ⟨_, r, hrun⟩

theorem selectField (e target : Expr) (member : String) (owner : Option StructId) :
    Appends (selectField e target member owner) :=
  of_report fun env st => by
    obtain ⟨r, hrun, -⟩ := selectField_run env st e target member owner
    exact ⟨_, r, hrun⟩

theorem resolveType (ty : TypeName) (span : Span) : Appends (resolveType ty span) :=
  of_report fun env st => by
    obtain ⟨r, hrun, -⟩ := resolveType_run env st ty span
    exact ⟨_, r, hrun⟩

theorem invalidInContext (e : Expr) : Appends (invalidInContext e) := error _ _ _

theorem structValue (e : Expr) : Appends (structValue e) := error _ _ _

theorem notAnLvalue (e : Expr) : Appends (notAnLvalue e) := error _ _ _

theorem badOperand (e : Expr) (op : String) (t : CType) : Appends (badOperand e op t) :=
  error _ _ _

theorem badOperands (e : Expr) (op : String) (l r : CType) : Appends (badOperands e op l r) :=
  error _ _ _

end Appends

open Appends

/-! ### Running the primitives that append and patch -/

section Primitives

variable (env : EmitEnv) (st : EmitState) {α : Type}

@[simp] theorem emit_run (i : Instr) :
    ((emit i).run env).run st =
      (st.function.code.size, { st with function := { st.function with code := st.function.code.push i } }) :=
  rfl

@[simp] theorem push_run (i : Instr) :
    ((push i).run env).run st =
      ((), { st with function := { st.function with code := st.function.code.push i } }) :=
  rfl

@[simp] theorem intKind_run : (intKind.run env).run st = (env.intKind, st) := rfl

@[simp] theorem patch_run (p target : Nat) :
    ((patch p target).run env).run st =
      ((), { st with function := { st.function with
        code := st.function.code.modify p (Instr.retarget target) } }) :=
  rfl

/-! The same primitives followed by more code, so that `simp` runs a block of them without
touching the code it calls in between. -/

@[simp] theorem emit_bind_run (i : Instr) (f : Nat → EmitM α) :
    ((emit i >>= f).run env).run st = ((f st.function.code.size).run env).run
      { st with function := { st.function with code := st.function.code.push i } } := rfl

@[simp] theorem push_bind_run (i : Instr) (f : Unit → EmitM α) :
    ((push i >>= f).run env).run st = ((f ()).run env).run
      { st with function := { st.function with code := st.function.code.push i } } := rfl

@[simp] theorem nextIndex_bind_run (f : Nat → EmitM α) :
    ((nextIndex >>= f).run env).run st = ((f st.function.code.size).run env).run st := rfl

@[simp] theorem patch_bind_run (p target : Nat) (f : Unit → EmitM α) :
    ((patch p target >>= f).run env).run st = ((f ()).run env).run
      { st with function := { st.function with
        code := st.function.code.modify p (Instr.retarget target) } } := rfl

@[simp] theorem intKind_bind_run (f : Kind → EmitM α) :
    ((intKind >>= f).run env).run st = ((f env.intKind).run env).run st := rfl

end Primitives

theorem List.modify_append_of_le {α : Type} {xs ys : List α} {i : Nat} {f : α → α}
    (h : xs.length ≤ i) : (xs ++ ys).modify i f = xs ++ ys.modify (i - xs.length) f := by
  induction xs generalizing i with
  | nil => simp
  | cons x xs ih =>
    cases i with
    | zero => simp at h
    | succ i =>
      simp only [List.cons_append, List.modify_succ_cons, List.length_cons, Nat.add_sub_add_right]
      rw [ih (by simpa using h)]

/-! ### Typing appends nothing -/

theorem variableSymbol_appends (e : Expr) (name : String) : Appends (variableSymbol e name) := by
  unfold variableSymbol
  refine Appends.get fun s => ?_
  split
  · exact Appends.pure _
  · refine (Appends.resolveVariable _ _ _).bind fun _ => (of_modify ?_).bind fun _ => Appends.pure _
    exact fun _ => rfl

theorem thisType_appends (e : Expr) : Appends (thisType e) := by
  unfold thisType
  refine Appends.get fun s => ?_
  split
  · exact Appends.pure _
  · exact (Appends.error _ _ _).bind fun _ => Appends.intType

mutual

theorem typeOf_appends (n : Expr) : Appends (typeOf n) := by
  unfold typeOf
  refine Appends.get fun s => ?_
  split
  · exact Appends.pure _
  · refine (typeOfNode_appends n).bind fun _ => (of_modify ?_).bind fun _ => Appends.pure _
    exact fun _ => rfl
termination_by 8 * sizeOf n + 3
decreasing_by
  all_goals
    try subst_vars
    simp_wf
    try simp
    try omega

theorem typesOf_appends (args : List Expr) : Appends (typesOf args) := by
  match args with
  | [] =>
    simp only [typesOf]
    exact Appends.pure _
  | a :: rest =>
    simp only [typesOf]
    exact (typeOf_appends a).bind fun _ => (typesOf_appends rest).bind fun _ => Appends.pure _
termination_by 8 * sizeOf args
decreasing_by
  all_goals
    try subst_vars
    simp_wf
    try simp
    try omega

theorem typeOfNode_appends (n : Expr) : Appends (typeOfNode n) := by
  match n with
  | .node tag span k =>
    cases k with
    | integer v | character v | float v | constant v =>
      simp only [typeOfNode]
      exact Appends.machine.bind fun _ => Appends.pure _
    | «variable» name =>
      simp only [typeOfNode]
      refine (variableSymbol_appends _ _).bind fun r => ?_
      cases r
      · exact Appends.intType
      · exact Appends.pure _
    | this =>
      simp only [typeOfNode]
      exact thisType_appends _
    | member target name | arrow target name =>
      simp only [typeOfNode]
      refine (fieldOf_appends _).bind fun r => ?_
      cases r
      · exact Appends.intType
      · exact Appends.pure _
    | call f args =>
      simp only [typeOfNode]
      split
      · exact Appends.intType.bind fun _ => Appends.pure _
      · refine (callOverload_appends _).bind fun r => ?_
        cases r with
        | none => exact Appends.intType
        | some o =>
          dsimp only
          split
          · exact Appends.pure _
          · exact Appends.intType
    | cast ty operand =>
      simp only [typeOfNode]
      refine (Appends.resolveType _ _).bind fun _ => (typeOf_appends operand).bind fun _ => ?_
      split
      · exact (Appends.error _ _ _).bind fun _ => Appends.pure _
      · exact Appends.pure _
    | unary op operand =>
      simp only [typeOfNode]
      refine (typeOf_appends operand).bind fun _ => Appends.machine.bind fun _ => ?_
      split
      · exact Appends.pure _
      · exact (Appends.badOperand _ _ _).bind fun _ => Appends.intType
    | binary op l r =>
      simp only [typeOfNode]
      refine (typeOf_appends l).bind fun _ => (typeOf_appends r).bind fun _ =>
        Appends.machine.bind fun _ => Appends.registry.bind fun _ => ?_
      split
      · exact Appends.intType.bind fun _ => Appends.pure _
      · split
        · exact Appends.pure _
        · exact Appends.pure _
        · exact Appends.pure _
        · exact Appends.intType
        · exact (Appends.badOperands _ _ _ _).bind fun _ => Appends.intType
    | logical op l r =>
      simp only [typeOfNode]
      refine (typeOf_appends l).bind fun _ => (typeOf_appends r).bind fun _ => ?_
      split
      · exact (Appends.badOperands _ _ _ _).bind fun _ => Appends.intType
      · exact Appends.intType
    | assign target value =>
      simp only [typeOfNode]
      exact typeOf_appends target
    | addressOf operand =>
      simp only [typeOfNode]
      exact (typeOf_appends operand).bind fun _ => Appends.pure _
    | deref operand =>
      simp only [typeOfNode]
      refine (typeOf_appends operand).bind fun t => ?_
      split
      · exact Appends.ite (Appends.pure _) ((Appends.badOperand _ _ _).bind fun _ => Appends.intType)
      · exact Appends.pure _
      · exact (Appends.badOperand _ _ _).bind fun _ => Appends.intType
    | error =>
      simp only [typeOfNode]
      exact Appends.intType
termination_by 8 * sizeOf n + 2
decreasing_by
  all_goals
    try subst_vars
    simp_wf
    try simp
    try omega

theorem fieldOf_appends (n : Expr) : Appends (fieldOf n) := by
  unfold fieldOf
  refine Appends.get fun s => ?_
  split
  · exact Appends.pure _
  · refine (resolveField_appends n).bind fun _ => (of_modify ?_).bind fun _ => Appends.pure _
    exact fun _ => rfl
termination_by 8 * sizeOf n + 1
decreasing_by
  all_goals
    try subst_vars
    simp_wf
    try simp
    try omega

theorem resolveField_appends (n : Expr) : Appends (resolveField n) := by
  match n with
  | .node tag span (.member target name) =>
    simp only [resolveField]
    exact (typeOf_appends target).bind fun _ => Appends.selectField _ _ _ _
  | .node tag span (.arrow target name) =>
    simp only [resolveField]
    exact (typeOf_appends target).bind fun _ => Appends.selectField _ _ _ _
  | .node tag span (.integer _) | .node tag span (.character _) | .node tag span (.float _)
  | .node tag span (.constant _) | .node tag span (.variable _) | .node tag span .this
  | .node tag span (.call _ _) | .node tag span (.cast _ _) | .node tag span (.unary _ _)
  | .node tag span (.binary _ _ _) | .node tag span (.logical _ _ _)
  | .node tag span (.assign _ _) | .node tag span (.addressOf _) | .node tag span (.deref _)
  | .node tag span .error =>
    simp only [resolveField]
    exact (Appends.invalidInContext _).bind fun _ => Appends.pure _
termination_by 8 * sizeOf n
decreasing_by
  all_goals
    try subst_vars
    simp_wf
    try simp
    try omega

theorem callOverload_appends (n : Expr) : Appends (callOverload n) := by
  match n with
  | .node tag span (.call f args) =>
    simp only [callOverload]
    refine Appends.get fun s => ?_
    split
    · exact Appends.pure _
    · refine (typesOf_appends args).bind fun ts => (resolveOverload_appends f ts).bind fun _ =>
        (of_modify ?_).bind fun _ => Appends.pure _
      exact fun _ => rfl
  | .node tag span (.integer _) | .node tag span (.character _) | .node tag span (.float _)
  | .node tag span (.constant _) | .node tag span (.variable _) | .node tag span .this
  | .node tag span (.member _ _) | .node tag span (.arrow _ _) | .node tag span (.cast _ _)
  | .node tag span (.unary _ _) | .node tag span (.binary _ _ _)
  | .node tag span (.logical _ _ _) | .node tag span (.assign _ _)
  | .node tag span (.addressOf _) | .node tag span (.deref _) | .node tag span .error =>
    simp only [callOverload]
    exact Appends.pure _
termination_by 8 * sizeOf n + 1
decreasing_by
  all_goals
    try subst_vars
    simp_wf
    try simp
    try omega

theorem resolveOverload_appends (f : Expr) (args : List CType) :
    Appends (resolveOverload f args) := by
  match f with
  | .node tag span (.member target name) =>
    simp only [resolveOverload]
    refine (typeOf_appends target).bind fun _ => ?_
    split
    · exact Appends.resolveMethod _ _ _ _ _
    · exact (Appends.invalidInContext _).bind fun _ => Appends.pure _
  | .node tag span (.arrow target name) =>
    simp only [resolveOverload]
    refine (typeOf_appends target).bind fun _ => ?_
    split
    · exact Appends.resolveMethod _ _ _ _ _
    · exact (Appends.invalidInContext _).bind fun _ => Appends.pure _
  | .node tag span (.variable name) =>
    simp only [resolveOverload]
    refine (Appends.resolveVariable _ _ _).bind fun r => ?_
    split <;> exact Appends.pure _
  | .node tag span .error =>
    simp only [resolveOverload]
    exact Appends.intType.bind fun _ => Appends.pure _
  | .node tag span (.integer _) | .node tag span (.character _) | .node tag span (.float _)
  | .node tag span (.constant _) | .node tag span .this | .node tag span (.call _ _)
  | .node tag span (.cast _ _) | .node tag span (.unary _ _) | .node tag span (.binary _ _ _)
  | .node tag span (.logical _ _ _) | .node tag span (.assign _ _)
  | .node tag span (.addressOf _) | .node tag span (.deref _) =>
    simp only [resolveOverload]
    exact (typeOf_appends _).bind fun _ => Appends.pure _
termination_by 8 * sizeOf f + 4
decreasing_by
  all_goals
    try subst_vars
    simp_wf
    try simp
    try omega

end

/-! ### The short-circuit code -/

theorem length_logicalLayout (k : Kind) (op : LogicalOp) (a : Nat) (ls rs : List Instr) :
    (logicalLayout k op a ls rs).length =
      ls.length + (if op = .or then 3 else 1) + rs.length + 4 := by
  cases op <;> simp [logicalLayout] <;> omega

theorem emitLogical_code {op : LogicalOp} {left right : EmitM Unit} (hleft : Appends left)
    (hright : Appends right) (env : EmitEnv) (st : EmitState) :
    ∃ ls rs, (((left.run env).run st).2.function.code = st.function.code ++ ls.toArray) ∧
      (∃ st', st'.function.code.size =
          st.function.code.size + ls.length + (if op = .or then 3 else 1) ∧
        (((right.run env).run st').2.function.code = st'.function.code ++ rs.toArray)) ∧
      JumpsWithin ls (st.function.code.size + ls.length) ∧
      JumpsWithin rs (st.function.code.size + ls.length + (if op = .or then 3 else 1) + rs.length) ∧
      (((emitLogical op left right).run env).run st).2.function.code =
        st.function.code ++ (logicalLayout env.intKind op st.function.code.size ls rs).toArray := by
  generalize hrun : ((emitLogical op left right).run env).run st = r
  obtain ⟨u, st'⟩ := r
  obtain ⟨ls, hf₁, hj₁⟩ := hleft env st
  -- split on the operator while the run is still folded: a split after unfolding abstracts the
  -- whole block, which the kernel then has to check again in each case
  cases op <;>
  unfold emitLogical at hrun <;>
  simp only [intKind_bind_run] at hrun <;>
  rw [run_bind] at hrun <;>
  generalize ((left.run env).run st).1 = a₁ at hrun <;>
  generalize ((left.run env).run st).2 = st₁ at hrun hf₁ <;>
  simp only [emit_bind_run, push_bind_run, nextIndex_bind_run, patch_bind_run, pure_bind,
    ↓reduceIte, reduceCtorEq] at hrun <;>
  rw [run_bind] at hrun <;>
  obtain ⟨rs, hf₂, hj₂⟩ := hright env _ <;>
  have hrs := hf₂ <;>
  generalize ((right.run env).run _).1 = a₂ at hrun <;>
  generalize ((right.run env).run _).2 = st₂ at hrun hf₂ <;>
  simp only [emit_bind_run, push_bind_run, nextIndex_bind_run, patch_bind_run, patch_run,
    pure_run] at hrun <;>
  cases hrun <;>
  refine ⟨ls, rs, hf₁, ⟨_, ?_, hrs⟩, hj₁, ?_, ?_⟩
  all_goals
    simp only at hf₁ hf₂ hj₂
    have hsize : st₁.function.code.size = st.function.code.size + ls.length := by
      simp [hf₁]
  case and.refl.refine_1 | or.refl.refine_1 =>
    simp only [Array.size_push, Array.size_modify, hsize, ↓reduceIte, reduceCtorEq]
  case and.refl.refine_2 | or.refl.refine_2 =>
    refine hj₂.mono (Nat.le_of_eq ?_)
    simp only [Array.size_push, Array.size_modify, hsize, ↓reduceIte, reduceCtorEq] <;> omega
  case and.refl.refine_3 | or.refl.refine_3 =>
    rw [hf₂]
    apply Array.ext'
    simp (disch := omega) only [Array.toList_modify, Array.toList_push, Array.toList_append,
      hf₁, List.modify_append_of_le, List.append_assoc, List.cons_append, List.nil_append,
      List.length_append, List.length_cons, List.length_nil, ← Array.length_toList,
      Nat.add_sub_cancel_left, Nat.sub_self, Nat.zero_add, List.modify_zero_cons,
      List.modify_succ_cons, logicalLayout, Instr.retarget, reduceCtorEq, ↓reduceIte,
      List.append_cancel_left_eq, List.cons.injEq, Instr.branchIfFalse.injEq, Instr.jump.injEq,
      and_true, true_and]
    omega

theorem jumpsWithin_logicalLayout {k : Kind} {op : LogicalOp} {a : Nat} {ls rs : List Instr}
    (hl : JumpsWithin ls (a + ls.length))
    (hr : JumpsWithin rs (a + ls.length + (if op = .or then 3 else 1) + rs.length)) :
    JumpsWithin (logicalLayout k op a ls rs) (a + (logicalLayout k op a ls rs).length) := by
  rw [length_logicalLayout]
  unfold logicalLayout
  refine (((hl.mono (by omega)).append ?_).append (hr.mono (by omega))).append ?_
  all_goals
    intro i hi t ht
    cases op <;> simp only [List.mem_cons, List.mem_nil_iff, or_false, reduceCtorEq, ↓reduceIte]
      at hi <;> rcases hi with rfl | rfl | rfl | rfl <;>
      simp only [Instr.target?, Option.some.injEq, reduceCtorEq, ↓reduceIte] at ht ⊢ <;> omega

theorem Appends.logical {op : LogicalOp} {left right : EmitM Unit} (hleft : Appends left)
    (hright : Appends right) : Appends (emitLogical op left right) := by
  intro env st
  obtain ⟨ls, rs, -, -, hl, hr, hcode⟩ := emitLogical_code hleft hright env st
  exact ⟨_, hcode, jumpsWithin_logicalLayout hl hr⟩

/-! ### Emitting expressions appends -/

theorem Appends.forIn {β : Type} (xs : List β) {f : β → PUnit → EmitM (ForInStep PUnit)}
    (hf : ∀ x, Appends (f x PUnit.unit)) : Appends (ForIn.forIn xs PUnit.unit f) := by
  induction xs with
  | nil => exact Appends.pure _
  | cons x xs ih =>
    rw [List.forIn_cons]
    refine (hf x).bind fun step => ?_
    cases step with
    | done b => exact Appends.pure _
    | yield b => exact ih

theorem Appends.conversion (source target : CType) : Appends (emitConversion source target) := by
  unfold emitConversion
  split
  · exact Appends.pure _
  split
  · split
    · refine (Appends.push rfl).bind fun _ => (Appends.push rfl).bind fun _ =>
        Appends.intKind.bind fun _ => ?_
      dsimp only
      split
      · exact (Appends.push rfl).bind fun _ => Appends.pure _
      · exact Appends.pure _
    · split
      · exact Appends.push rfl
      · exact Appends.pure _
  · exact Appends.pure _

theorem Appends.cast (source target : CType) (span : Span) :
    Appends (emitCast source target span) := by
  unfold emitCast
  split
  · exact Appends.error _ _ _
  · exact Appends.conversion _ _

theorem Appends.thisField (offset : Nat) : Appends (emitThisField offset) := by
  unfold emitThisField
  refine (Appends.push rfl).bind fun _ => ?_
  split
  · exact Appends.push rfl
  · exact Appends.pure _

theorem Appends.address (address : Nat) : Appends (pushAddress address) := Appends.push rfl

theorem Appends.literal (e : Expr) (v : Value) : Appends (emitLiteral e v) := by
  unfold emitLiteral
  exact (typeOf_appends e).bind fun _ => Appends.push rfl

mutual

theorem emitExpr_appends (n : Expr) : Appends (emitExpr n) := by
  match n with
  | .node tag span k =>
    cases k with
    | integer v | character v | float v =>
      simp only [emitExpr]
      exact Appends.literal _ _
    | constant v =>
      simp only [emitExpr]
      exact Appends.push rfl
    | «variable» name =>
      simp only [emitExpr]
      refine (variableSymbol_appends _ _).bind fun r => ?_
      split
      · split
        · exact Appends.structValue _
        · split
          · exact Appends.push rfl
          · exact Appends.push rfl
          · exact (Appends.thisField _).bind fun _ => Appends.push rfl
          · exact Appends.address _
          · exact Appends.invalidInContext _
      · exact Appends.pure _
    | this =>
      simp only [emitExpr]
      refine (typeOf_appends _).bind fun _ => ?_
      split
      · exact Appends.push rfl
      · exact Appends.pure _
    | member target name | arrow target name =>
      simp only [emitExpr]
      refine (fieldOf_appends _).bind fun r => ?_
      split
      · split
        · exact Appends.structValue _
        · exact (emitMemberPointer_appends _).bind fun _ => Appends.push rfl
      · exact Appends.pure _
    | call f args =>
      simp only [emitExpr]
      split
      · exact Appends.pure _
      refine (typesOf_appends args).bind fun ts => (callOverload_appends _).bind fun r => ?_
      split
      · split
        · split
          · exact (Appends.error _ _ _).bind fun _ => Appends.pure _
          · refine (emitArguments_appends args ts _).bind fun _ =>
              (Appends.forIn _ fun _ => (Appends.push rfl).bind fun _ => Appends.pure _).bind
                fun _ => (emitCallee_appends f _).bind fun _ => (Appends.push rfl).bind fun _ => ?_
            split
            · exact Appends.intKind.bind fun _ => Appends.push rfl
            · exact Appends.pure _
        · exact Appends.error _ _ _
      · exact Appends.pure _
    | cast ty operand =>
      simp only [emitExpr]
      refine (typeOf_appends _).bind fun _ => (typeOf_appends operand).bind fun _ =>
        (emitExpr_appends operand).bind fun _ => ?_
      split
      · exact Appends.conversion _ _
      · exact Appends.pure _
    | unary op operand =>
      simp only [emitExpr]
      refine (typeOf_appends _).bind fun _ => (typeOf_appends operand).bind fun _ =>
        (emitExpr_appends operand).bind fun _ => ?_
      split
      · exact (Appends.conversion _ _).bind fun _ => Appends.push rfl
      · exact Appends.push rfl
    | binary op l r =>
      simp only [emitExpr]
      refine (typeOf_appends _).bind fun _ => (typeOf_appends l).bind fun _ =>
        (typeOf_appends r).bind fun _ => Appends.machine.bind fun _ => Appends.registry.bind
          fun _ => ?_
      split
      · exact (emitExpr_appends l).bind fun _ => (Appends.conversion _ _).bind fun _ =>
          (emitExpr_appends r).bind fun _ => (Appends.conversion _ _).bind fun _ => Appends.push rfl
      · exact (emitExpr_appends l).bind fun _ => (Appends.conversion _ _).bind fun _ =>
          (emitExpr_appends r).bind fun _ => (Appends.conversion _ _).bind fun _ => Appends.push rfl
      · split
        · exact (emitExpr_appends l).bind fun _ => (emitExpr_appends r).bind fun _ =>
            Appends.push (by split <;> rfl)
        · exact (emitExpr_appends r).bind fun _ => (emitExpr_appends l).bind fun _ =>
            Appends.push (by split <;> rfl)
      · exact (emitExpr_appends l).bind fun _ => (Appends.conversion _ _).bind fun _ =>
          (emitExpr_appends r).bind fun _ => (Appends.conversion _ _).bind fun _ => Appends.push rfl
      · exact Appends.pure _
    | logical op l r =>
      simp only [emitExpr]
      exact (typeOf_appends _).bind fun _ =>
        Appends.logical (emitExpr_appends l) (emitExpr_appends r)
    | assign target value =>
      simp only [emitExpr]
      refine (typeOf_appends target).bind fun _ => (typeOf_appends value).bind fun _ => ?_
      split
      · exact Appends.structValue _
      · exact (emitExpr_appends value).bind fun _ => (Appends.cast _ _ _).bind fun _ =>
          (Appends.push rfl).bind fun _ => (emitPointer_appends target).bind fun _ => Appends.push rfl
    | addressOf operand =>
      simp only [emitExpr]
      refine (typeOf_appends operand).bind fun _ => ?_
      split
      · exact emitExpr_appends operand
      · exact emitPointer_appends operand
    | deref operand =>
      simp only [emitExpr]
      refine (typeOf_appends _).bind fun _ => ?_
      split
      · exact emitExpr_appends operand
      · exact Appends.structValue _
      · exact (emitExpr_appends operand).bind fun _ => Appends.push rfl
    | error =>
      simp only [emitExpr]
      exact Appends.pure _
termination_by 8 * sizeOf n + 2
decreasing_by
  all_goals
    try subst_vars
    simp_wf
    try simp
    try omega

theorem emitPointer_appends (n : Expr) : Appends (emitPointer n) := by
  match n with
  | .node tag span (.variable name) =>
    simp only [emitPointer]
    refine (variableSymbol_appends _ _).bind fun r => ?_
    split
    · exact Appends.pure _
    · exact Appends.push rfl
    · exact Appends.push rfl
    · exact Appends.thisField _
    · exact Appends.notAnLvalue _
  | .node tag span (.member target name) =>
    simp only [emitPointer]
    exact emitMemberPointer_appends _
  | .node tag span (.arrow target name) =>
    simp only [emitPointer]
    exact emitMemberPointer_appends _
  | .node tag span (.deref operand) =>
    simp only [emitPointer]
    exact (typeOf_appends _).bind fun _ => emitExpr_appends operand
  | .node tag span .error =>
    simp only [emitPointer]
    exact Appends.pure _
  | .node tag span (.integer _) | .node tag span (.character _) | .node tag span (.float _)
  | .node tag span (.constant _) | .node tag span .this | .node tag span (.call _ _)
  | .node tag span (.cast _ _) | .node tag span (.unary _ _) | .node tag span (.binary _ _ _)
  | .node tag span (.logical _ _ _) | .node tag span (.assign _ _)
  | .node tag span (.addressOf _) =>
    simp only [emitPointer]
    exact Appends.notAnLvalue _
termination_by 8 * sizeOf n + 1
decreasing_by
  all_goals
    try subst_vars
    simp_wf
    try simp
    try omega

theorem emitMemberPointer_appends (n : Expr) : Appends (emitMemberPointer n) := by
  match n with
  | .node tag span (.member target name) =>
    simp only [emitMemberPointer]
    refine (fieldOf_appends _).bind fun r => ?_
    split
    · refine (emitPointer_appends target).bind fun _ => ?_
      split
      · exact Appends.push rfl
      · exact Appends.pure _
    · exact Appends.pure _
  | .node tag span (.arrow target name) =>
    simp only [emitMemberPointer]
    refine (fieldOf_appends _).bind fun r => ?_
    split
    · refine (emitExpr_appends target).bind fun _ => ?_
      split
      · exact Appends.push rfl
      · exact Appends.pure _
    · exact Appends.pure _
  | .node tag span (.integer _) | .node tag span (.character _) | .node tag span (.float _)
  | .node tag span (.constant _) | .node tag span (.variable _) | .node tag span .this
  | .node tag span (.call _ _) | .node tag span (.cast _ _) | .node tag span (.unary _ _)
  | .node tag span (.binary _ _ _) | .node tag span (.logical _ _ _)
  | .node tag span (.assign _ _) | .node tag span (.addressOf _) | .node tag span (.deref _)
  | .node tag span .error =>
    simp only [emitMemberPointer]
    exact Appends.pure _
termination_by 8 * sizeOf n
decreasing_by
  all_goals
    try subst_vars
    simp_wf
    try simp
    try omega

theorem emitArguments_appends (args : List Expr) (ts : List CType) (ps : List Parameter) :
    Appends (emitArguments args ts ps) := by
  match args, ts, ps with
  | a :: rest, t :: ts, p :: ps =>
    simp only [emitArguments]
    exact (emitExpr_appends a).bind fun _ => (Appends.cast _ _ _).bind fun _ =>
      emitArguments_appends rest ts ps
  | [], _, _ | _ :: _, [], _ | _ :: _, _ :: _, [] =>
    simp only [emitArguments]
    exact Appends.pure _
termination_by 8 * sizeOf args
decreasing_by
  all_goals
    try subst_vars
    simp_wf
    try simp
    try omega

theorem emitCallee_appends (f : Expr) (callee : Callee) : Appends (emitCallee f callee) := by
  match f, callee with
  | .node tag span k, .method .address address =>
    cases k
    case member target name =>
      simp only [emitCallee]
      exact (emitPointer_appends target).bind fun _ => Appends.address _
    all_goals
      simp only [emitCallee]
      exact Appends.address _
  | .node tag span k, .method .pointer address =>
    cases k
    case arrow target name =>
      simp only [emitCallee]
      exact (emitExpr_appends target).bind fun _ => Appends.address _
    all_goals
      simp only [emitCallee]
      exact Appends.address _
  | _, .method .this address =>
    simp only [emitCallee]
    exact (Appends.push rfl).bind fun _ => Appends.address _
  | _, .function address =>
    simp only [emitCallee]
    exact Appends.address _
  | f, .value =>
    simp only [emitCallee]
    exact emitExpr_appends f
  | _, .nothing =>
    simp only [emitCallee]
    exact Appends.pure _
termination_by 8 * sizeOf f + 3
decreasing_by
  all_goals
    try subst_vars
    simp_wf
    try simp
    try omega

end

/-! ### Emitting statements appends -/

theorem Appends.condition (c : Expr) (hc : Appends (emitExpr c)) : Appends (emitCondition c) := by
  unfold emitCondition
  refine (typeOf_appends c).bind fun _ => ?_
  split
  · exact Appends.structValue _
  · exact hc

theorem Appends.ret (span : Span) (value : Option Expr) : Appends (emitReturn span value) := by
  unfold emitReturn
  refine Appends.get fun s => ?_
  dsimp only
  split
  · split
    · exact Appends.error _ _ _
    · exact (typeOf_appends _).bind fun _ => (emitExpr_appends _).bind fun _ =>
        (Appends.cast _ _ _).bind fun _ => Appends.push rfl
  · split
    · exact Appends.push rfl
    · exact Appends.error _ _ _

theorem Appends.implicitReturn (returnType : CType) :
    Appends (emitImplicitReturn returnType) := by
  unfold emitImplicitReturn
  dsimp only
  split
  · exact (Appends.push rfl).bind fun _ => Appends.push rfl
  · exact Appends.push rfl

theorem Appends.localCells (t : CType) : Appends (localCells t) := by
  unfold EmitM.localCells
  refine Appends.registry.bind fun _ => ?_
  dsimp only
  split
  · exact Appends.intKind.bind fun _ => Appends.pure _
  · exact Appends.pure _

theorem Appends.declareLocal (name : String) (t : CType) (span : Span) :
    Appends (declareLocal name t span) := by
  unfold EmitM.declareLocal
  refine Appends.get fun _ => (Appends.localCells t).bind fun _ => Appends.get fun _ => ?_
  dsimp only
  refine (of_modify ?_).bind fun _ => ?_
  · exact fun _ => rfl
  refine Appends.ite ?_ ?_
  · refine (Appends.error _ _ _).bind fun _ => (of_modify ?_).bind fun _ => Appends.pure _
    exact fun _ => rfl
  · refine (of_modify ?_).bind fun _ => Appends.pure _
    exact fun _ => rfl

theorem Appends.declaration (span : Span) (name : String) (type : TypeName) (init : Option Expr) :
    Appends (emitLocal span name type init) := by
  unfold emitLocal
  refine (Appends.resolveType _ _).bind fun _ => (Appends.declareLocal _ _ _).bind fun _ => ?_
  split
  · split
    · exact Appends.structValue _
    · exact (typeOf_appends _).bind fun _ => (emitExpr_appends _).bind fun _ =>
        (Appends.cast _ _ _).bind fun _ => Appends.push rfl
  · exact Appends.pure _

theorem ite_code {span : Span} {c : Expr} {t : Stmt} (hc : Appends (emitCondition c))
    (ht : Appends (emitStmt t)) (env : EmitEnv) (st : EmitState) :
    ∃ cs ts, (((emitCondition c).run env).run st).2.function.code =
        st.function.code ++ cs.toArray ∧
      (∃ st', st'.function.code.size = st.function.code.size + cs.length + 1 ∧
        (((emitStmt t).run env).run st').2.function.code = st'.function.code ++ ts.toArray) ∧
      JumpsWithin cs (st.function.code.size + cs.length) ∧
      JumpsWithin ts (st.function.code.size + cs.length + 1 + ts.length) ∧
      (((emitStmt (.node span (.ite c t none))).run env).run st).2.function.code =
        st.function.code ++ (ifLayout st.function.code.size cs ts none).toArray := by
  generalize hrun : ((emitStmt (.node span (.ite c t none))).run env).run st = r
  obtain ⟨u, st'⟩ := r
  simp only [emitStmt] at hrun
  obtain ⟨_, st₁, h₁, hrun⟩ := run_bind_eq hrun
  obtain ⟨cs, hf₁, hj₁⟩ := hc env st
  have hcs := hf₁
  rw [h₁] at hf₁
  simp only [emit_bind_run] at hrun
  obtain ⟨_, st₂, h₂, hrun⟩ := run_bind_eq hrun
  obtain ⟨ts, hf₂, hj₂⟩ := ht env _
  have hts := hf₂
  rw [h₂] at hf₂
  simp only [nextIndex_bind_run, patch_run] at hrun
  cases hrun
  simp only at hf₁ hf₂ hj₂
  have hsize : st₁.function.code.size = st.function.code.size + cs.length := by simp [hf₁]
  refine ⟨cs, ts, hcs, ⟨_, ?_, hts⟩, hj₁, hj₂.mono (Nat.le_of_eq ?_), ?_⟩
  · simp only [Array.size_push, hsize]
  · simp only [Array.size_push, hsize] <;> omega
  · rw [hf₂]
    apply Array.ext'
    simp (disch := omega) only [Array.toList_modify, Array.toList_push, Array.toList_append, hf₁,
      List.modify_append_of_le, List.append_assoc, List.cons_append, List.nil_append,
      List.length_append, List.length_cons, ← Array.length_toList,
      Nat.add_sub_cancel_left, Nat.sub_self, List.modify_zero_cons, ifLayout, Instr.retarget,
      List.append_cancel_left_eq, List.cons.injEq, Instr.branchIfFalse.injEq, and_true]
    omega

theorem iteElse_code {span : Span} {c : Expr} {t e : Stmt} (hc : Appends (emitCondition c))
    (ht : Appends (emitStmt t)) (he : Appends (emitStmt e)) (env : EmitEnv) (st : EmitState) :
    ∃ cs ts es, (((emitCondition c).run env).run st).2.function.code =
        st.function.code ++ cs.toArray ∧
      (∃ st', st'.function.code.size = st.function.code.size + cs.length + 1 ∧
        (((emitStmt t).run env).run st').2.function.code = st'.function.code ++ ts.toArray) ∧
      (∃ st', st'.function.code.size = st.function.code.size + cs.length + 1 + ts.length + 1 ∧
        (((emitStmt e).run env).run st').2.function.code = st'.function.code ++ es.toArray) ∧
      JumpsWithin cs (st.function.code.size + cs.length) ∧
      JumpsWithin ts (st.function.code.size + cs.length + 1 + ts.length) ∧
      JumpsWithin es (st.function.code.size + cs.length + 1 + ts.length + 1 + es.length) ∧
      (((emitStmt (.node span (.ite c t (some e)))).run env).run st).2.function.code =
        st.function.code ++ (ifLayout st.function.code.size cs ts (some es)).toArray := by
  generalize hrun : ((emitStmt (.node span (.ite c t (some e)))).run env).run st = r
  obtain ⟨u, st'⟩ := r
  simp only [emitStmt] at hrun
  obtain ⟨_, st₁, h₁, hrun⟩ := run_bind_eq hrun
  obtain ⟨cs, hf₁, hj₁⟩ := hc env st
  have hcs := hf₁
  rw [h₁] at hf₁
  simp only [emit_bind_run] at hrun
  obtain ⟨_, st₂, h₂, hrun⟩ := run_bind_eq hrun
  obtain ⟨ts, hf₂, hj₂⟩ := ht env _
  have hts := hf₂
  rw [h₂] at hf₂
  simp only [emit_bind_run, nextIndex_bind_run, patch_bind_run] at hrun
  obtain ⟨_, st₃, h₃, hrun⟩ := run_bind_eq hrun
  obtain ⟨es, hf₃, hj₃⟩ := he env _
  have hes := hf₃
  rw [h₃] at hf₃
  simp only [nextIndex_bind_run, patch_run] at hrun
  cases hrun
  simp only at hf₁ hf₂ hj₂ hf₃ hj₃
  have hsize₁ : st₁.function.code.size = st.function.code.size + cs.length := by simp [hf₁]
  have hsize₂ : st₂.function.code.size = st.function.code.size + cs.length + 1 + ts.length := by
    simp only [hf₂, Array.size_append, Array.size_push, hsize₁, List.size_toArray] <;> omega
  refine ⟨cs, ts, es, hcs, ⟨_, ?_, hts⟩, ⟨_, ?_, hes⟩, hj₁, hj₂.mono (Nat.le_of_eq ?_),
    hj₃.mono (Nat.le_of_eq ?_), ?_⟩
  · simp only [Array.size_push, hsize₁]
  · simp only [Array.size_modify, Array.size_push, hsize₂]
  · simp only [Array.size_push, hsize₁] <;> omega
  · simp only [Array.size_modify, Array.size_push, hsize₂] <;> omega
  · rw [hf₃, hsize₂, hf₂]
    apply Array.ext'
    simp (disch := omega) only [Array.toList_modify, Array.toList_push, Array.toList_append,
      hf₁, List.modify_append_of_le, List.append_assoc, List.cons_append, List.nil_append,
      List.length_append, List.length_cons, List.length_nil, ← Array.length_toList,
      Nat.add_sub_cancel_left, Nat.sub_self, List.modify_zero_cons, ifLayout, Instr.retarget,
      List.append_cancel_left_eq]
    rw [show st.function.code.toList.length + cs.length + 1 + ts.length -
        st.function.code.toList.length - cs.length = ts.length + 1 by omega,
      List.modify_succ_cons, List.modify_append_of_le (Nat.le_refl _), Nat.sub_self,
      List.modify_zero_cons]
    simp only [Instr.retarget, List.cons.injEq, Instr.branchIfFalse.injEq, Instr.jump.injEq,
      List.append_cancel_left_eq, and_true]
    omega

theorem loop_code {span : Span} {c : Expr} {body : Stmt} (hc : Appends (emitCondition c))
    (hb : Appends (emitStmt body)) (env : EmitEnv) (st : EmitState) :
    ∃ cs bs, (((emitCondition c).run env).run st).2.function.code =
        st.function.code ++ cs.toArray ∧
      (∃ st', st'.function.code.size = st.function.code.size + cs.length + 1 ∧
        (((emitStmt body).run env).run st').2.function.code = st'.function.code ++ bs.toArray) ∧
      JumpsWithin cs (st.function.code.size + cs.length) ∧
      JumpsWithin bs (st.function.code.size + cs.length + 1 + bs.length) ∧
      (((emitStmt (.node span (.loop c body))).run env).run st).2.function.code =
        st.function.code ++ (whileLayout st.function.code.size cs bs).toArray := by
  generalize hrun : ((emitStmt (.node span (.loop c body))).run env).run st = r
  obtain ⟨u, st'⟩ := r
  simp only [emitStmt, nextIndex_bind_run] at hrun
  obtain ⟨_, st₁, h₁, hrun⟩ := run_bind_eq hrun
  obtain ⟨cs, hf₁, hj₁⟩ := hc env st
  have hcs := hf₁
  rw [h₁] at hf₁
  simp only [emit_bind_run] at hrun
  obtain ⟨_, st₂, h₂, hrun⟩ := run_bind_eq hrun
  obtain ⟨bs, hf₂, hj₂⟩ := hb env _
  have hbs := hf₂
  rw [h₂] at hf₂
  simp only [push_bind_run, nextIndex_bind_run, patch_run] at hrun
  cases hrun
  simp only at hf₁ hf₂ hj₂
  have hsize : st₁.function.code.size = st.function.code.size + cs.length := by simp [hf₁]
  refine ⟨cs, bs, hcs, ⟨_, ?_, hbs⟩, hj₁, hj₂.mono (Nat.le_of_eq ?_), ?_⟩
  · simp only [Array.size_push, hsize]
  · simp only [Array.size_push, hsize] <;> omega
  · rw [hf₂]
    apply Array.ext'
    simp (disch := omega) only [Array.toList_modify, Array.toList_push, Array.toList_append,
      hf₁, List.modify_append_of_le, List.append_assoc, List.cons_append, List.nil_append,
      List.length_append, List.length_cons, ← Array.length_toList, Nat.add_sub_cancel_left,
      Nat.sub_self, List.modify_zero_cons, whileLayout, Instr.retarget,
      List.append_cancel_left_eq, List.cons.injEq, Instr.branchIfFalse.injEq, and_true,
      List.length_nil]
    omega

theorem jumpsWithin_ifLayout {a : Nat} {cs ts : List Instr} {es : Option (List Instr)}
    (hc : JumpsWithin cs (a + cs.length)) (ht : JumpsWithin ts (a + cs.length + 1 + ts.length))
    (he : ∀ e, es = some e → JumpsWithin e (a + cs.length + 1 + ts.length + 1 + e.length)) :
    JumpsWithin (ifLayout a cs ts es) (a + (ifLayout a cs ts es).length) := by
  cases es with
  | none =>
    simp only [ifLayout, List.length_append, List.length_cons]
    refine (hc.mono (by omega)).append (JumpsWithin.cons ?_ (ht.mono (by omega)))
    intro t h
    simp only [Instr.target?, Option.some.injEq] at h
    omega
  | some es =>
    have he := he es rfl
    simp only [ifLayout, List.length_append, List.length_cons]
    refine ((hc.mono (by omega)).append (JumpsWithin.cons ?_ (ht.mono (by omega)))).append
      (JumpsWithin.cons ?_ (he.mono (by omega)))
    all_goals
      intro t h
      simp only [Instr.target?, Option.some.injEq] at h
      omega

theorem jumpsWithin_whileLayout {a : Nat} {cs bs : List Instr}
    (hc : JumpsWithin cs (a + cs.length)) (hb : JumpsWithin bs (a + cs.length + 1 + bs.length)) :
    JumpsWithin (whileLayout a cs bs) (a + (whileLayout a cs bs).length) := by
  simp only [whileLayout, List.length_append, List.length_cons, List.length_nil]
  refine ((hc.mono (by omega)).append (JumpsWithin.cons ?_ (hb.mono (by omega)))).append
    (JumpsWithin.cons ?_ (.nil _))
  all_goals
    intro t h
    simp only [Instr.target?, Option.some.injEq] at h
    omega

mutual

theorem emitStmt_appends (s : Stmt) : Appends (emitStmt s) := by
  match s with
  | .node span k =>
    cases k with
    | expr e =>
      simp only [emitStmt]
      split
      · exact Appends.pure _
      · exact (emitExpr_appends e).bind fun _ => Appends.push rfl
    | var name type init =>
      simp only [emitStmt]
      exact Appends.declaration _ _ _ _
    | ret value =>
      simp only [emitStmt]
      exact Appends.ret _ _
    | ite c t e =>
      have hc := Appends.condition c (emitExpr_appends c)
      intro env st
      cases e with
      | none =>
        obtain ⟨cs, ts, -, -, hcs, hts, hcode⟩ := ite_code hc (emitStmt_appends t) env st
        exact ⟨_, hcode, jumpsWithin_ifLayout hcs hts fun _ h => nomatch h⟩
      | some e =>
        obtain ⟨cs, ts, es, -, -, -, hcs, hts, hes, hcode⟩ :=
          iteElse_code hc (emitStmt_appends t) (emitStmt_appends e) env st
        exact ⟨_, hcode, jumpsWithin_ifLayout hcs hts fun _ h => by cases h; exact hes⟩
    | loop c body =>
      intro env st
      obtain ⟨cs, bs, -, -, hcs, hbs, hcode⟩ :=
        loop_code (Appends.condition c (emitExpr_appends c)) (emitStmt_appends body) env st
      exact ⟨_, hcode, jumpsWithin_whileLayout hcs hbs⟩
    | block stmts =>
      simp only [emitStmt]
      exact emitBlock_appends stmts
termination_by 2 * sizeOf s
decreasing_by
  all_goals
    simp_wf
    try simp
    try omega

theorem emitBlock_appends (stmts : List Stmt) : Appends (emitBlock stmts) := by
  unfold emitBlock
  refine (of_modify ?_).bind fun _ => (emitStmts_appends stmts).bind fun _ => of_modify ?_
  all_goals exact fun _ => rfl
termination_by 2 * sizeOf stmts + 1
decreasing_by
  all_goals
    simp_wf
    try simp
    try omega

theorem emitStmts_appends (stmts : List Stmt) : Appends (emitStmts stmts) := by
  match stmts with
  | [] =>
    simp only [emitStmts]
    exact Appends.pure _
  | s :: rest =>
    simp only [emitStmts]
    exact (emitStmt_appends s).bind fun _ => emitStmts_appends rest
termination_by 2 * sizeOf stmts
decreasing_by
  all_goals
    simp_wf
    try simp
    try omega

end

end EmitM

end CStack
