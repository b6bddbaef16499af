import CStack.Proofs.CodeGrowth

/-!
# What typing and emitting an expression can change

Typing and emitting an expression read the environment and the state, file diagnostics, remember
what they learnt about nodes and append code to the function being emitted. Each fact of the
form "these functions never do X" is kept by the few ways the functions combine their steps, so
this module walks the mutual recursion of the typing and emission functions once: every property
of emission actions closed under those ways (`ReportsClosed`) holds of each typing and emission
function. Those ways touch the report only by filing diagnostics, so a property may also say that
the report only grows; every `EmissionClosed` property, which allows any change of the report, is
one.

The property proved with it here is `KeepsShape`: the function being emitted changes only in its
code, so its name, return type, owner, frame layout and local scopes are left as they were.
Statements are where locals come and go; expressions never declare one.
-/

namespace CStack

namespace EmitM

/-- A property of emission actions that the ways typing and emission combine their steps keep:
returning a value, sequencing, branching on the state, steps that only file diagnostics or
read, updates that leave the function being emitted alone, appending an instruction that does
not jump, and the short-circuit code around two sides that have the property. -/
structure EmissionClosed (P : {α : Type} → EmitM α → Prop) : Prop where
  pure {α : Type} (a : α) : P (Pure.pure a : EmitM α)
  bind {α β : Type} {x : EmitM α} {f : α → EmitM β} : P x → (∀ a, P (f a)) → P (x >>= f)
  get {α : Type} {f : EmitState → EmitM α} : (∀ s, P (f s)) → P (MonadState.get >>= f)
  report {α : Type} {x : EmitM α} :
    (∀ env st, ∃ a r, (x.run env).run st = (a, { st with report := r })) → P x
  function {f : EmitState → EmitState} : (∀ s, (f s).function = s.function) → P (modify f)
  push {i : Instr} : i.target? = none → P (push i)
  logical {op : LogicalOp} {l r : EmitM Unit} : P l → P r → P (emitLogical op l r)

/-- The same closure asked of fewer steps: of those that touch the state only by filing
diagnostics, and of updates that leave both the function being emitted and the report alone. The
walk below needs no more, so a property that says the report only grows is one too. -/
structure ReportsClosed (P : {α : Type} → EmitM α → Prop) : Prop where
  pure {α : Type} (a : α) : P (Pure.pure a : EmitM α)
  bind {α β : Type} {x : EmitM α} {f : α → EmitM β} : P x → (∀ a, P (f a)) → P (x >>= f)
  get {α : Type} {f : EmitState → EmitM α} : (∀ s, P (f s)) → P (MonadState.get >>= f)
  report {α : Type} {x : EmitM α} :
    (∀ env st, ∃ a r, (x.run env).run st = (a, { st with report := r }) ∧ st.report.Extends r) →
      P x
  function {f : EmitState → EmitState} :
    (∀ s, (f s).function = s.function ∧ (f s).report = s.report) → P (modify f)
  push {i : Instr} : i.target? = none → P (push i)
  logical {op : LogicalOp} {l r : EmitM Unit} : P l → P r → P (emitLogical op l r)

theorem EmissionClosed.reportsClosed {P : {α : Type} → EmitM α → Prop} (hP : EmissionClosed P) :
    ReportsClosed P where
  pure := hP.pure
  bind := hP.bind
  get := hP.get
  report h := hP.report fun env st => by
    obtain ⟨a, r, hrun, -⟩ := h env st
    exact ⟨a, r, hrun⟩
  function h := hP.function fun s => (h s).1
  push := hP.push
  logical := hP.logical

namespace ReportsClosed

variable {P : {α : Type} → EmitM α → Prop} (hP : ReportsClosed P)
include hP

theorem machine : P machine := hP.report fun env st => ⟨env.machine, st.report, rfl, .refl _⟩

theorem registry : P registry := hP.report fun env st => ⟨env.registry, st.report, rfl, .refl _⟩

theorem intType : P intType :=
  hP.report fun env st => ⟨CType.int env.machine, st.report, rfl, .refl _⟩

theorem intKind : P intKind :=
  hP.report fun env st => ⟨(CType.int env.machine).valueKind?.getD .int32, st.report, rfl, .refl _⟩

theorem error (code : Code) (span : Span) (message : String) : P (error code span message) :=
  hP.report fun _ st => ⟨(), st.report.error code span message, rfl, Report.extends_error _ _ _⟩

theorem resolveVariable (name : String) (args : Option (List CType)) (span : Span) :
    P (resolveVariable name args span) :=
  hP.report fun env st => by
    obtain ⟨r, hrun, hafter⟩ := resolveVariable_run env st name args span
    exact ⟨_, r, hrun, hafter.extends⟩

theorem resolveMethod (f : Expr) (owner : StructId) (member : String) (args : List CType)
    (receiver : Receiver) : P (resolveMethod f owner member args receiver) :=
  hP.report fun env st => by
    obtain ⟨r, hrun, hafter⟩ := resolveMethod_run env st f owner member args receiver
    exact ⟨_, r, hrun, hafter.extends⟩

theorem selectField (e target : Expr) (member : String) (owner : Option StructId) :
    P (selectField e target member owner) :=
  hP.report fun env st => by
    obtain ⟨r, hrun, hafter⟩ := selectField_run env st e target member owner
    exact ⟨_, r, hrun, hafter.extends⟩

theorem resolveType (ty : TypeName) (span : Span) : P (resolveType ty span) :=
  hP.report fun env st => by
    obtain ⟨r, hrun, hafter⟩ := resolveType_run env st ty span
    exact ⟨_, r, hrun, hafter.extends⟩

theorem forIn {β : Type} (xs : List β) {f : β → PUnit → EmitM (ForInStep PUnit)}
    (hf : ∀ x, P (f x PUnit.unit)) : P (ForIn.forIn xs PUnit.unit f) := by
  induction xs with
  | nil => exact hP.pure _
  | cons x xs ih =>
    rw [List.forIn_cons]
    refine hP.bind (hf x) fun step => ?_
    cases step with
    | done b => exact hP.pure _
    | yield b => exact ih

theorem conversion (source target : CType) : P (emitConversion source target) := by
  unfold emitConversion
  split
  · exact hP.pure _
  split
  · split
    · refine hP.bind (hP.push rfl) fun _ => hP.bind (hP.push rfl) fun _ =>
        hP.bind hP.intKind fun _ => ?_
      dsimp only
      split
      · exact hP.bind (hP.push rfl) fun _ => hP.pure _
      · exact hP.pure _
    · split
      · exact hP.push rfl
      · exact hP.pure _
  · exact hP.pure _

theorem cast (source target : CType) (span : Span) : P (emitCast source target span) := by
  unfold emitCast
  split
  · exact hP.error _ _ _
  · exact hP.conversion _ _

theorem thisField (offset : Nat) : P (emitThisField offset) := by
  unfold emitThisField
  refine hP.bind (hP.push rfl) fun _ => ?_
  split
  · exact hP.push rfl
  · exact hP.pure _

theorem variableSymbol (e : Expr) (name : String) : P (variableSymbol e name) := by
  unfold EmitM.variableSymbol
  refine hP.get fun s => ?_
  split
  · exact hP.pure _
  · exact hP.bind (hP.resolveVariable _ _ _) fun _ =>
      hP.bind (hP.function fun _ => ⟨rfl, rfl⟩) fun _ => hP.pure _

theorem thisType (e : Expr) : P (thisType e) := by
  unfold EmitM.thisType
  refine hP.get fun s => ?_
  split
  · exact hP.pure _
  · exact hP.bind (hP.error _ _ _) fun _ => hP.intType

end ReportsClosed

variable {P : {α : Type} → EmitM α → Prop}

/-! ### Every typing function has each closed property -/

mutual

theorem typeOf_closed (hP : ReportsClosed P) (n : Expr) : P (typeOf n) := by
  unfold typeOf
  refine hP.get fun s => ?_
  split
  · exact hP.pure _
  · exact hP.bind (typeOfNode_closed hP n) fun _ =>
      hP.bind (hP.function fun _ => ⟨rfl, rfl⟩) fun _ => hP.pure _
termination_by 8 * sizeOf n + 3
decreasing_by
  all_goals
    try subst_vars
    simp_wf
    try simp
    try omega

theorem typesOf_closed (hP : ReportsClosed P) (args : List Expr) : P (typesOf args) := by
  match args with
  | [] =>
    simp only [typesOf]
    exact hP.pure _
  | a :: rest =>
    simp only [typesOf]
    exact hP.bind (typeOf_closed hP a) fun _ => hP.bind (typesOf_closed hP rest) fun _ =>
      hP.pure _
termination_by 8 * sizeOf args
decreasing_by
  all_goals
    try subst_vars
    simp_wf
    try simp
    try omega

theorem typeOfNode_closed (hP : ReportsClosed P) (n : Expr) : P (typeOfNode n) := by
  match n with
  | .node tag span k =>
    cases k with
    | integer v | character v | float v | constant v =>
      simp only [typeOfNode]
      exact hP.bind hP.machine fun _ => hP.pure _
    | «variable» name =>
      simp only [typeOfNode]
      refine hP.bind (hP.variableSymbol _ _) fun r => ?_
      cases r
      · exact hP.intType
      · exact hP.pure _
    | this =>
      simp only [typeOfNode]
      exact hP.thisType _
    | member target name | arrow target name =>
      simp only [typeOfNode]
      refine hP.bind (fieldOf_closed hP _) fun r => ?_
      cases r
      · exact hP.intType
      · exact hP.pure _
    | call f args =>
      simp only [typeOfNode]
      split
      · exact hP.intType
      · refine hP.bind (callOverload_closed hP _) fun r => ?_
        cases r with
        | none => exact hP.intType
        | some o =>
          dsimp only
          split
          · exact hP.pure _
          · exact hP.intType
    | cast ty operand =>
      simp only [typeOfNode]
      refine hP.bind (hP.resolveType _ _) fun _ => hP.bind (typeOf_closed hP operand) fun _ => ?_
      split
      · exact hP.bind (hP.error _ _ _) fun _ => hP.pure _
      · exact hP.pure _
    | unary op operand =>
      simp only [typeOfNode]
      refine hP.bind (typeOf_closed hP operand) fun _ => hP.bind hP.machine fun _ => ?_
      split
      · exact hP.pure _
      · exact hP.bind (hP.error _ _ _) fun _ => hP.intType
    | binary op l r =>
      simp only [typeOfNode]
      refine hP.bind (typeOf_closed hP l) fun _ => hP.bind (typeOf_closed hP r) fun _ =>
        hP.bind hP.machine fun _ => hP.bind hP.registry fun _ => ?_
      split
      · exact hP.intType
      · split
        · exact hP.pure _
        · exact hP.pure _
        · exact hP.pure _
        · exact hP.intType
        · exact hP.bind (hP.error _ _ _) fun _ => hP.intType
    | logical op l r =>
      simp only [typeOfNode]
      refine hP.bind (typeOf_closed hP l) fun _ => hP.bind (typeOf_closed hP r) fun _ => ?_
      split
      · exact hP.bind (hP.error _ _ _) fun _ => hP.intType
      · exact hP.intType
    | assign target value =>
      simp only [typeOfNode]
      exact typeOf_closed hP target
    | addressOf operand =>
      simp only [typeOfNode]
      exact hP.bind (typeOf_closed hP operand) fun _ => hP.pure _
    | deref operand =>
      simp only [typeOfNode]
      refine hP.bind (typeOf_closed hP operand) fun t => ?_
      split
      · split
        · exact hP.pure _
        · exact hP.bind (hP.error _ _ _) fun _ => hP.intType
      · exact hP.pure _
      · exact hP.bind (hP.error _ _ _) fun _ => hP.intType
    | error =>
      simp only [typeOfNode]
      exact hP.intType
termination_by 8 * sizeOf n + 2
decreasing_by
  all_goals
    try subst_vars
    simp_wf
    try simp
    try omega

theorem fieldOf_closed (hP : ReportsClosed P) (n : Expr) : P (fieldOf n) := by
  unfold fieldOf
  refine hP.get fun s => ?_
  split
  · exact hP.pure _
  · exact hP.bind (resolveField_closed hP n) fun _ =>
      hP.bind (hP.function fun _ => ⟨rfl, rfl⟩) fun _ => hP.pure _
termination_by 8 * sizeOf n + 1
decreasing_by
  all_goals
    try subst_vars
    simp_wf
    try simp
    try omega

theorem resolveField_closed (hP : ReportsClosed P) (n : Expr) : P (resolveField n) := by
  match n with
  | .node tag span (.member target name) =>
    simp only [resolveField]
    exact hP.bind (typeOf_closed hP target) fun _ => hP.selectField _ _ _ _
  | .node tag span (.arrow target name) =>
    simp only [resolveField]
    exact hP.bind (typeOf_closed hP target) fun _ => hP.selectField _ _ _ _
  | .node tag span (.integer _) | .node tag span (.character _) | .node tag span (.float _)
  | .node tag span (.constant _) | .node tag span (.variable _) | .node tag span .this
  | .node tag span (.call _ _) | .node tag span (.cast _ _) | .node tag span (.unary _ _)
  | .node tag span (.binary _ _ _) | .node tag span (.logical _ _ _)
  | .node tag span (.assign _ _) | .node tag span (.addressOf _) | .node tag span (.deref _)
  | .node tag span .error =>
    simp only [resolveField]
    exact hP.bind (hP.error _ _ _) fun _ => hP.pure _
termination_by 8 * sizeOf n
decreasing_by
  all_goals
    try subst_vars
    simp_wf
    try simp
    try omega

theorem callOverload_closed (hP : ReportsClosed P) (n : Expr) : P (callOverload n) := by
  match n with
  | .node tag span (.call f args) =>
    simp only [callOverload]
    refine hP.get fun s => ?_
    split
    · exact hP.pure _
    · exact hP.bind (typesOf_closed hP args) fun ts => hP.bind (resolveOverload_closed hP f ts)
        fun _ => hP.bind (hP.function fun _ => ⟨rfl, rfl⟩) fun _ => hP.pure _
  | .node tag span (.integer _) | .node tag span (.character _) | .node tag span (.float _)
  | .node tag span (.constant _) | .node tag span (.variable _) | .node tag span .this
  | .node tag span (.member _ _) | .node tag span (.arrow _ _) | .node tag span (.cast _ _)
  | .node tag span (.unary _ _) | .node tag span (.binary _ _ _)
  | .node tag span (.logical _ _ _) | .node tag span (.assign _ _)
  | .node tag span (.addressOf _) | .node tag span (.deref _) | .node tag span .error =>
    simp only [callOverload]
    exact hP.pure _
termination_by 8 * sizeOf n + 1
decreasing_by
  all_goals
    try subst_vars
    simp_wf
    try simp
    try omega

theorem resolveOverload_closed (hP : ReportsClosed P) (f : Expr) (args : List CType) :
    P (resolveOverload f args) := by
  match f with
  | .node tag span (.member target name) =>
    simp only [resolveOverload]
    refine hP.bind (typeOf_closed hP target) fun _ => ?_
    split
    · exact hP.resolveMethod _ _ _ _ _
    · exact hP.bind (hP.error _ _ _) fun _ => hP.pure _
  | .node tag span (.arrow target name) =>
    simp only [resolveOverload]
    refine hP.bind (typeOf_closed hP target) fun _ => ?_
    split
    · exact hP.resolveMethod _ _ _ _ _
    · exact hP.bind (hP.error _ _ _) fun _ => hP.pure _
  | .node tag span (.variable name) =>
    simp only [resolveOverload]
    refine hP.bind (hP.resolveVariable _ _ _) fun r => ?_
    split <;> exact hP.pure _
  | .node tag span .error =>
    simp only [resolveOverload]
    exact hP.bind hP.intType fun _ => hP.pure _
  | .node tag span (.integer _) | .node tag span (.character _) | .node tag span (.float _)
  | .node tag span (.constant _) | .node tag span .this | .node tag span (.call _ _)
  | .node tag span (.cast _ _) | .node tag span (.unary _ _) | .node tag span (.binary _ _ _)
  | .node tag span (.logical _ _ _) | .node tag span (.assign _ _)
  | .node tag span (.addressOf _) | .node tag span (.deref _) =>
    simp only [resolveOverload]
    exact hP.bind (typeOf_closed hP _) fun _ => hP.pure _
termination_by 8 * sizeOf f + 4
decreasing_by
  all_goals
    try subst_vars
    simp_wf
    try simp
    try omega

end

theorem ReportsClosed.literal (hP : ReportsClosed P) (e : Expr) (v : Value) :
    P (emitLiteral e v) := by
  unfold emitLiteral
  exact hP.bind (typeOf_closed hP e) fun _ => hP.push rfl

/-! ### Every emission function has each closed property -/

mutual

theorem emitExpr_closed (hP : ReportsClosed P) (n : Expr) : P (emitExpr n) := by
  match n with
  | .node tag span k =>
    cases k with
    | integer v | character v | float v =>
      simp only [emitExpr]
      exact hP.literal _ _
    | constant v =>
      simp only [emitExpr]
      exact hP.push rfl
    | «variable» name =>
      simp only [emitExpr]
      refine hP.bind (hP.variableSymbol _ _) fun r => ?_
      split
      · split
        · exact hP.error _ _ _
        · split
          · exact hP.push rfl
          · exact hP.push rfl
          · exact hP.bind (hP.thisField _) fun _ => hP.push rfl
          · exact hP.push rfl
          · exact hP.error _ _ _
      · exact hP.pure _
    | this =>
      simp only [emitExpr]
      refine hP.bind (typeOf_closed hP _) fun _ => ?_
      split
      · exact hP.push rfl
      · exact hP.pure _
    | member target name | arrow target name =>
      simp only [emitExpr]
      refine hP.bind (fieldOf_closed hP _) fun r => ?_
      split
      · split
        · exact hP.error _ _ _
        · exact hP.bind (emitMemberPointer_closed hP _) fun _ => hP.push rfl
      · exact hP.pure _
    | call f args =>
      simp only [emitExpr]
      split
      · exact hP.pure _
      refine hP.bind (typesOf_closed hP args) fun ts => hP.bind (callOverload_closed hP _) fun r => ?_
      split
      · split
        · split
          · exact hP.bind (hP.error _ _ _) fun _ => hP.pure _
          · refine hP.bind (emitArguments_closed hP args ts _) fun _ =>
              hP.bind (hP.forIn _ fun _ => hP.bind (hP.push rfl) fun _ => hP.pure _) fun _ =>
                hP.bind (emitCallee_closed hP f _) fun _ => hP.bind (hP.push rfl) fun _ => ?_
            split
            · exact hP.bind hP.intKind fun _ => hP.push rfl
            · exact hP.pure _
        · exact hP.error _ _ _
      · exact hP.pure _
    | cast ty operand =>
      simp only [emitExpr]
      refine hP.bind (typeOf_closed hP _) fun _ => hP.bind (typeOf_closed hP operand) fun _ =>
        hP.bind (emitExpr_closed hP operand) fun _ => ?_
      split
      · exact hP.conversion _ _
      · exact hP.pure _
    | unary op operand =>
      simp only [emitExpr]
      refine hP.bind (typeOf_closed hP _) fun _ => hP.bind (typeOf_closed hP operand) fun _ =>
        hP.bind (emitExpr_closed hP operand) fun _ => ?_
      split
      · exact hP.bind (hP.conversion _ _) fun _ => hP.push rfl
      · exact hP.push rfl
    | binary op l r =>
      simp only [emitExpr]
      refine hP.bind (typeOf_closed hP _) fun _ => hP.bind (typeOf_closed hP l) fun _ =>
        hP.bind (typeOf_closed hP r) fun _ => hP.bind hP.machine fun _ =>
          hP.bind hP.registry fun _ => ?_
      split
      · exact hP.bind (emitExpr_closed hP l) fun _ => hP.bind (hP.conversion _ _) fun _ =>
          hP.bind (emitExpr_closed hP r) fun _ => hP.bind (hP.conversion _ _) fun _ => hP.push rfl
      · exact hP.bind (emitExpr_closed hP l) fun _ => hP.bind (hP.conversion _ _) fun _ =>
          hP.bind (emitExpr_closed hP r) fun _ => hP.bind (hP.conversion _ _) fun _ => hP.push rfl
      · split
        · exact hP.bind (emitExpr_closed hP l) fun _ => hP.bind (emitExpr_closed hP r) fun _ =>
            hP.push (by split <;> rfl)
        · exact hP.bind (emitExpr_closed hP r) fun _ => hP.bind (emitExpr_closed hP l) fun _ =>
            hP.push (by split <;> rfl)
      · exact hP.bind (emitExpr_closed hP l) fun _ => hP.bind (hP.conversion _ _) fun _ =>
          hP.bind (emitExpr_closed hP r) fun _ => hP.bind (hP.conversion _ _) fun _ => hP.push rfl
      · exact hP.pure _
    | logical op l r =>
      simp only [emitExpr]
      exact hP.bind (typeOf_closed hP _) fun _ =>
        hP.logical (emitExpr_closed hP l) (emitExpr_closed hP r)
    | assign target value =>
      simp only [emitExpr]
      refine hP.bind (typeOf_closed hP target) fun _ => hP.bind (typeOf_closed hP value) fun _ => ?_
      split
      · exact hP.error _ _ _
      · exact hP.bind (emitExpr_closed hP value) fun _ => hP.bind (hP.cast _ _ _) fun _ =>
          hP.bind (hP.push rfl) fun _ => hP.bind (emitPointer_closed hP target) fun _ =>
            hP.push rfl
    | addressOf operand =>
      simp only [emitExpr]
      refine hP.bind (typeOf_closed hP operand) fun _ => ?_
      split
      · exact emitExpr_closed hP operand
      · exact emitPointer_closed hP operand
    | deref operand =>
      simp only [emitExpr]
      refine hP.bind (typeOf_closed hP _) fun _ => ?_
      split
      · exact emitExpr_closed hP operand
      · exact hP.error _ _ _
      · exact hP.bind (emitExpr_closed hP operand) fun _ => hP.push rfl
    | error =>
      simp only [emitExpr]
      exact hP.pure _
termination_by 8 * sizeOf n + 2
decreasing_by
  all_goals
    try subst_vars
    simp_wf
    try simp
    try omega

theorem emitPointer_closed (hP : ReportsClosed P) (n : Expr) : P (emitPointer n) := by
  match n with
  | .node tag span (.variable name) =>
    simp only [emitPointer]
    refine hP.bind (hP.variableSymbol _ _) fun r => ?_
    split
    · exact hP.pure _
    · exact hP.push rfl
    · exact hP.push rfl
    · exact hP.thisField _
    · exact hP.error _ _ _
  | .node tag span (.member target name) =>
    simp only [emitPointer]
    exact emitMemberPointer_closed hP _
  | .node tag span (.arrow target name) =>
    simp only [emitPointer]
    exact emitMemberPointer_closed hP _
  | .node tag span (.deref operand) =>
    simp only [emitPointer]
    exact hP.bind (typeOf_closed hP _) fun _ => emitExpr_closed hP operand
  | .node tag span .error =>
    simp only [emitPointer]
    exact hP.pure _
  | .node tag span (.integer _) | .node tag span (.character _) | .node tag span (.float _)
  | .node tag span (.constant _) | .node tag span .this | .node tag span (.call _ _)
  | .node tag span (.cast _ _) | .node tag span (.unary _ _) | .node tag span (.binary _ _ _)
  | .node tag span (.logical _ _ _) | .node tag span (.assign _ _)
  | .node tag span (.addressOf _) =>
    simp only [emitPointer]
    exact hP.error _ _ _
termination_by 8 * sizeOf n + 1
decreasing_by
  all_goals
    try subst_vars
    simp_wf
    try simp
    try omega

theorem emitMemberPointer_closed (hP : ReportsClosed P) (n : Expr) :
    P (emitMemberPointer n) := by
  match n with
  | .node tag span (.member target name) =>
    simp only [emitMemberPointer]
    refine hP.bind (fieldOf_closed hP _) fun r => ?_
    split
    · refine hP.bind (emitPointer_closed hP target) fun _ => ?_
      split
      · exact hP.push rfl
      · exact hP.pure _
    · exact hP.pure _
  | .node tag span (.arrow target name) =>
    simp only [emitMemberPointer]
    refine hP.bind (fieldOf_closed hP _) fun r => ?_
    split
    · refine hP.bind (emitExpr_closed hP target) fun _ => ?_
      split
      · exact hP.push rfl
      · exact hP.pure _
    · exact hP.pure _
  | .node tag span (.integer _) | .node tag span (.character _) | .node tag span (.float _)
  | .node tag span (.constant _) | .node tag span (.variable _) | .node tag span .this
  | .node tag span (.call _ _) | .node tag span (.cast _ _) | .node tag span (.unary _ _)
  | .node tag span (.binary _ _ _) | .node tag span (.logical _ _ _)
  | .node tag span (.assign _ _) | .node tag span (.addressOf _) | .node tag span (.deref _)
  | .node tag span .error =>
    simp only [emitMemberPointer]
    exact hP.pure _
termination_by 8 * sizeOf n
decreasing_by
  all_goals
    try subst_vars
    simp_wf
    try simp
    try omega

theorem emitArguments_closed (hP : ReportsClosed P) (args : List Expr) (ts : List CType)
    (ps : List Parameter) : P (emitArguments args ts ps) := by
  match args, ts, ps with
  | a :: rest, t :: ts, p :: ps =>
    simp only [emitArguments]
    exact hP.bind (emitExpr_closed hP a) fun _ => hP.bind (hP.cast _ _ _) fun _ =>
      emitArguments_closed hP rest ts ps
  | [], _, _ | _ :: _, [], _ | _ :: _, _ :: _, [] =>
    simp only [emitArguments]
    exact hP.pure _
termination_by 8 * sizeOf args
decreasing_by
  all_goals
    try subst_vars
    simp_wf
    try simp
    try omega

theorem emitCallee_closed (hP : ReportsClosed P) (f : Expr) (callee : Callee) :
    P (emitCallee f callee) := by
  match f, callee with
  | .node tag span k, .method .address address =>
    cases k
    case member target name =>
      simp only [emitCallee]
      exact hP.bind (emitPointer_closed hP target) fun _ => hP.push rfl
    all_goals
      simp only [emitCallee]
      exact hP.push rfl
  | .node tag span k, .method .pointer address =>
    cases k
    case arrow target name =>
      simp only [emitCallee]
      exact hP.bind (emitExpr_closed hP target) fun _ => hP.push rfl
    all_goals
      simp only [emitCallee]
      exact hP.push rfl
  | _, .method .this address =>
    simp only [emitCallee]
    exact hP.bind (hP.push rfl) fun _ => hP.push rfl
  | _, .function address =>
    simp only [emitCallee]
    exact hP.push rfl
  | f, .value =>
    simp only [emitCallee]
    exact emitExpr_closed hP f
  | _, .nothing =>
    simp only [emitCallee]
    exact hP.pure _
termination_by 8 * sizeOf f + 3
decreasing_by
  all_goals
    try subst_vars
    simp_wf
    try simp
    try omega

end

theorem emitCondition_closed (hP : ReportsClosed P) (c : Expr) : P (emitCondition c) := by
  unfold emitCondition
  refine hP.bind (typeOf_closed hP c) fun _ => ?_
  split
  · exact hP.error _ _ _
  · exact emitExpr_closed hP c

theorem emitReturn_closed (hP : ReportsClosed P) (span : Span) (value : Option Expr) :
    P (emitReturn span value) := by
  unfold emitReturn
  refine hP.get fun s => ?_
  dsimp only
  split
  · split
    · exact hP.error _ _ _
    · exact hP.bind (typeOf_closed hP _) fun _ => hP.bind (emitExpr_closed hP _) fun _ =>
        hP.bind (hP.cast _ _ _) fun _ => hP.push rfl
  · split
    · exact hP.push rfl
    · exact hP.error _ _ _

theorem emitLogical_of_steps {P : {α : Type} → EmitM α → Prop}
    (pure : ∀ {α : Type} (a : α), P (Pure.pure a : EmitM α))
    (bind : ∀ {α β : Type} {x : EmitM α} {f : α → EmitM β}, P x → (∀ a, P (f a)) → P (x >>= f))
    (emit : ∀ i, P (emit i)) (patch : ∀ p target, P (patch p target)) (nextIndex : P nextIndex)
    (intKind : P intKind) (push : ∀ i, P (push i)) {op : LogicalOp} {l r : EmitM Unit}
    (hl : P l) (hr : P r) : P (emitLogical op l r) := by
  -- with the operator fixed the block is a plain chain of binds
  cases op <;> unfold emitLogical <;> simp only [reduceCtorEq, ↓reduceIte, pure_bind]
  case and =>
    exact bind intKind fun _ => bind hl fun _ => bind (emit _) fun _ => bind hr fun _ =>
      bind (emit _) fun _ => bind (push _) fun _ => bind (emit _) fun _ => bind (emit _) fun _ =>
        bind nextIndex fun _ => bind (patch _ _) fun _ => bind (patch _ _) fun _ =>
          bind (patch _ _) fun _ => pure _
  case or =>
    exact bind intKind fun _ => bind hl fun _ => bind (emit _) fun _ => bind (push _) fun _ =>
      bind (emit _) fun _ => bind nextIndex fun _ => bind (patch _ _) fun _ => bind hr fun _ =>
        bind (emit _) fun _ => bind (push _) fun _ => bind (emit _) fun _ => bind (emit _) fun _ =>
          bind nextIndex fun _ => bind (patch _ _) fun _ => bind (patch _ _) fun _ => patch _ _

end EmitM

/-- The function being emitted, less its code: its name, return type, owner, frame layout and
scopes. -/
def FunctionState.shape (f : FunctionState) : FunctionState := { f with code := #[] }

namespace EmitM

/-- Run from any state, `x` changes the function being emitted only in its code. -/
def KeepsShape {α : Type} (x : EmitM α) : Prop :=
  ∀ env st, ((x.run env).run st).2.function.shape = st.function.shape

namespace KeepsShape

variable {α β : Type} {x : EmitM α}

theorem pure (a : α) : KeepsShape (Pure.pure a : EmitM α) := fun _ _ => rfl

theorem bind {f : α → EmitM β} (hx : KeepsShape x) (hf : ∀ a, KeepsShape (f a)) :
    KeepsShape (x >>= f) := fun env st => by
  rw [run_bind]
  exact (hf _ env _).trans (hx env st)

theorem emit (i : Instr) : KeepsShape (emit i) := fun _ _ => rfl

theorem patch (p target : Nat) : KeepsShape (patch p target) := fun _ _ => rfl

theorem nextIndex : KeepsShape nextIndex := fun _ _ => rfl

theorem push (i : Instr) : KeepsShape (push i) := fun _ _ => rfl

theorem intKind : KeepsShape intKind := fun _ _ => rfl

theorem logical {op : LogicalOp} {l r : EmitM Unit} (hl : KeepsShape l) (hr : KeepsShape r) :
    KeepsShape (emitLogical op l r) :=
  emitLogical_of_steps pure bind emit patch nextIndex intKind push hl hr

end KeepsShape

theorem keepsShape_closed : EmissionClosed KeepsShape where
  pure := KeepsShape.pure
  bind := KeepsShape.bind
  get hf := fun env st => hf st env st
  report h := fun env st => by
    obtain ⟨a, r, hrun⟩ := h env st
    rw [hrun]
  function hf := fun _ st => congrArg FunctionState.shape (hf st)
  push _ := KeepsShape.push _
  logical := KeepsShape.logical

end EmitM

end CStack
