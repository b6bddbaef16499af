import CStack.Proofs.Monad

/-!
# Name resolution as functions

The compiler resolves names inside `EmitM`, filing a diagnostic where a lookup fails. What a
lookup finds depends only on the environment and on the place in a function body where it is
made: the struct whose method is being emitted and the local scopes, together a `Scope`. Each
lookup is stated here as a plain function of those, and each monadic resolver is proved, once, to
return that function's value and to touch nothing but the report, where it files one diagnostic
exactly when the lookup fails.

Reports only grow: a diagnostic once filed is never taken back, so a run that ends with no
errors met no failure on the way.
-/

namespace CStack

/-! ### Reports keep what was filed -/

namespace Report

variable {r r₁ r₂ : Report}

/-- Every remembered key belongs to a filed diagnostic, as in every report a compilation
builds. -/
def Consistent (r : Report) : Prop := r.seen ≠ [] → r.hasErrors = true

theorem consistent_empty (config : ReportConfig) : (Report.empty config).Consistent :=
  fun h => absurd rfl h

@[simp] theorem hasErrors_accept (d : Diagnostic) : (r.accept d).hasErrors = true := by
  unfold accept hasErrors
  split <;> simp

theorem Consistent.hasErrors_error (h : r.Consistent) (code : Code) (span : Span)
    (message : String) : (r.error code span message).hasErrors = true := by
  unfold error add
  dsimp only
  split
  · split
    · rename_i k _ hseen
      exact h (List.ne_nil_of_mem (List.contains_iff_mem.mp hseen))
    · exact hasErrors_accept _
  · exact hasErrors_accept _

theorem Consistent.error (h : r.Consistent) (code : Code) (span : Span) (message : String) :
    (r.error code span message).Consistent :=
  fun _ => h.hasErrors_error code span message

theorem hasErrors_error (h : r.hasErrors = true) (code : Code) (span : Span) (message : String) :
    (r.error code span message).hasErrors = true := by
  unfold error add
  dsimp only
  split
  · split
    · exact h
    · exact hasErrors_accept _
  · exact hasErrors_accept _

/-- `r₂` keeps what `r₁` has: its consistency and its errors. -/
def Extends (r₁ r₂ : Report) : Prop :=
  (r₁.Consistent → r₂.Consistent) ∧ (r₁.hasErrors = true → r₂.hasErrors = true)

/-- Some diagnostic was filed between `r₁` and `r₂`, so `r₂` has errors if `r₁` was
consistent. -/
def ErrorSince (r₁ r₂ : Report) : Prop := r₁.Consistent → r₂.hasErrors = true

theorem Extends.refl (r : Report) : r.Extends r := ⟨id, id⟩

theorem Extends.trans (h₁ : r.Extends r₁) (h₂ : r₁.Extends r₂) : r.Extends r₂ :=
  ⟨h₂.1 ∘ h₁.1, h₂.2 ∘ h₁.2⟩

theorem extends_error (code : Code) (span : Span) (message : String) :
    r.Extends (r.error code span message) :=
  ⟨fun h => h.error code span message, fun h => hasErrors_error h code span message⟩

theorem errorSince_error (code : Code) (span : Span) (message : String) :
    r.ErrorSince (r.error code span message) :=
  fun h => h.hasErrors_error code span message

theorem ErrorSince.trans (h₁ : r.ErrorSince r₁) (h₂ : r₁.Extends r₂) : r.ErrorSince r₂ :=
  fun h => h₂.2 (h₁ h)

theorem Extends.trans_errorSince (h₁ : r.Extends r₁) (h₂ : r₁.ErrorSince r₂) :
    r.ErrorSince r₂ :=
  fun h => h₂ (h₁.1 h)

/-- The report after a lookup: unchanged when it succeeded, with one diagnostic more when it
failed. -/
def After (r r' : Report) (ok : Bool) : Prop :=
  if ok then r' = r else ∃ code span message, r' = r.error code span message

theorem After.extends {ok : Bool} (h : r.After r₁ ok) : r.Extends r₁ := by
  unfold After at h
  split at h
  · exact h ▸ Extends.refl r
  · obtain ⟨code, span, message, rfl⟩ := h
    exact extends_error code span message

theorem After.errorSince (h : r.After r₁ false) : r.ErrorSince r₁ := by
  obtain ⟨code, span, message, rfl⟩ := h
  exact errorSince_error code span message

theorem after_error (code : Code) (span : Span) (message : String) :
    r.After (r.error code span message) false :=
  ⟨code, span, message, rfl⟩

@[simp] theorem after_true : r.After r₁ true ↔ r₁ = r := by simp [After]

end Report

/-! ### Lookups -/

/-- Where in a function body a name is looked up: the struct whose method is being emitted, and
the local scopes, innermost first. -/
structure Scope where
  owner : Option StructId
  locals : List (List (String × LocalSymbol))

/-- The scope a function state looks names up in. -/
def FunctionState.scope (f : FunctionState) : Scope := ⟨f.owner, f.scopes⟩

namespace EmitEnv

variable (env : EmitEnv)

/-- The address of the body of the `overload`-th declared method of a struct with a name. -/
def methodFunction (owner : StructId) (name : String) (overload : Nat) : Option Nat :=
  ((env.registry.get? owner).bind fun st => (st.methodsNamed name)[overload]?).bind
    (env.symbols.methodDefinition owner name)

/-- A field or method of the receiver: `none` when the receiver has no member of the name,
`some none` when one was found but failed to resolve. -/
def receiverSymbol (owner : Option StructId) (name : String) (args : Option (List CType)) :
    Option (Option Symbol) :=
  match owner with
  | none => none
  | some owner =>
    match env.registry.get? owner with
    | none => none
    | some entry =>
      match entry.field? name with
      | some (offset, t) => some (some (.field offset t))
      | none =>
        let candidates := entry.methodsNamed name
        if candidates.isEmpty then none
        else
          let index := match args with
            | some ts => pickOverload candidates ts
            | none => some 0
          match index with
          | none => some none
          | some i => some ((env.methodFunction owner name i).map fun address =>
              .method address (candidates[i]?.getD default))

/-- The free function a name calls, among the overloads it has. -/
def functionSymbol (name : String) (args : Option (List CType)) : Option Symbol :=
  let overloads := env.symbols.functionsNamed name
  let index := match args with
    | some ts => if overloads.length > 1 then pickOverload (overloads.map FunctionSymbol.type) ts
      else some 0
    | none => some 0
  match index.bind (overloads[·]?) with
  | none => none
  | some f => f.address.map fun address => .function address f.type

/-- What a bare name denotes: a local, a member of the receiver, a global, then a function. -/
def nameSymbol (sc : Scope) (name : String) (args : Option (List CType)) : Option Symbol :=
  match sc.locals.findSome? (·.lookup name) with
  | some l => some (.local l.slot l.type)
  | none =>
    match env.receiverSymbol sc.owner name args with
    | some found => found
    | none =>
      match env.symbols.global? name with
      | some g => some (.global g.address g.type)
      | none => env.functionSymbol name args

/-- The method of a struct a member call reaches, or a field holding a function pointer. -/
def method (owner : StructId) (member : String) (args : List CType) (receiver : Receiver) :
    Option Overload :=
  match env.registry.get? owner with
  | none => none
  | some st =>
    let candidates := st.methodsNamed member
    if candidates.isEmpty then
      match st.field? member with
      | some (_, t) => if t.callable?.isSome then some (EmitM.Overload.ofValue t) else none
      | none => none
    else
      match pickOverload candidates args with
      | none => none
      | some i => (env.methodFunction owner member i).map fun address =>
          ⟨.function (candidates[i]?.getD default), .method receiver address⟩

/-- The field a member access selects in the struct its target reaches. -/
def field (owner : Option StructId) (member : String) : Option (Nat × CType) :=
  (owner.bind env.registry.get?).bind (·.field? member)

end EmitEnv

/-! ### Each resolver computes its lookup -/

namespace EmitM

variable (env : EmitEnv) (st : EmitState)

theorem run_bind {α β : Type} (x : EmitM α) (f : α → EmitM β) :
    ((x >>= f).run env).run st =
      ((f ((x.run env).run st).1).run env).run ((x.run env).run st).2 := rfl

theorem run_bind_eq {env : EmitEnv} {st : EmitState} {α β : Type} {x : EmitM α}
    {f : α → EmitM β} {b : β} {st' : EmitState}
    (h : ((x >>= f).run env).run st = (b, st')) :
    ∃ a st₁, (x.run env).run st = (a, st₁) ∧ ((f a).run env).run st₁ = (b, st') :=
  ⟨_, _, rfl, h⟩

@[simp] theorem pure_run {α : Type} (a : α) : ((pure a : EmitM α).run env).run st = (a, st) := rfl

@[simp] theorem modify_run (f : EmitState → EmitState) :
    ((modify f : EmitM Unit).run env).run st = ((), f st) := rfl

@[simp] theorem machine_run : (machine.run env).run st = (env.machine, st) := rfl

@[simp] theorem intType_run : (intType.run env).run st = (CType.int env.machine, st) := rfl

theorem resolveMethodFunction_run (owner : StructId) (name : String) (overload : Nat)
    (span : Span) :
    ∃ r, ((resolveMethodFunction owner name overload span).run env).run st =
        (env.methodFunction owner name overload, { st with report := r }) ∧
      st.report.After r (env.methodFunction owner name overload).isSome := by
  unfold resolveMethodFunction EmitEnv.methodFunction
  simp only [run_bind, registry_run, StateT.run_pure, Id.pure_fst, Id.pure_snd]
  split
  · rename_i hdeclared
    simp only [hdeclared, Option.bind_none, run_bind, error_run, Id.pure_snd]
    exact ⟨_, rfl, Report.after_error _ _ _⟩
  · rename_i declared hdeclared
    simp only [hdeclared, Option.bind_some, run_bind, read_run, StateT.run_pure, Id.pure_fst,
      Id.pure_snd]
    split
    · rename_i address haddr
      simp only [haddr, Option.isSome_some, Report.after_true, exists_eq_right]
      rfl
    · rename_i haddr
      simp only [haddr, run_bind, error_run, Id.pure_snd]
      exact ⟨_, rfl, Report.after_error _ _ _⟩

theorem receiverSymbol_run (name : String) (args : Option (List CType)) (span : Span) :
    ∃ r, ((receiverSymbol name args span).run env).run st =
        (env.receiverSymbol st.function.owner name args, { st with report := r }) ∧
      st.report.After r ((env.receiverSymbol st.function.owner name args).all (·.isSome)) := by
  unfold receiverSymbol EmitEnv.receiverSymbol
  simp only [run_bind, get_run, Id.pure_fst, Id.pure_snd]
  cases st.function.owner with
  | none => exact ⟨st.report, rfl, by simp⟩
  | some owner =>
    simp only [run_bind, registry_run, StateT.run_pure, Id.pure_fst, Id.pure_snd]
    cases env.registry.get? owner with
    | none => exact ⟨st.report, rfl, by simp⟩
    | some entry =>
      dsimp only
      cases entry.field? name with
      | some field => exact ⟨st.report, rfl, by simp⟩
      | none =>
        dsimp only
        split
        · exact ⟨st.report, rfl, by simp⟩
        · cases args with
          | none =>
            obtain ⟨r, hrun, hafter⟩ := resolveMethodFunction_run env st owner name 0 span
            simp only [run_bind, hrun]
            revert hafter
            cases env.methodFunction owner name 0 <;> exact fun h => ⟨r, rfl, by simpa using h⟩
          | some ts =>
            dsimp only
            cases pickOverload (entry.methodsNamed name) ts with
            | none =>
              simp only [mismatch, run_bind, error_run, Id.pure_snd]
              exact ⟨_, rfl, Report.after_error _ _ _⟩
            | some i =>
              obtain ⟨r, hrun, hafter⟩ := resolveMethodFunction_run env st owner name i span
              simp only [run_bind, hrun]
              revert hafter
              cases env.methodFunction owner name i <;> exact fun h => ⟨r, rfl, by simpa using h⟩

theorem resolveVariable_run (name : String) (args : Option (List CType)) (span : Span) :
    ∃ r, ((resolveVariable name args span).run env).run st =
        (env.nameSymbol st.function.scope name args, { st with report := r }) ∧
      st.report.After r (env.nameSymbol st.function.scope name args).isSome := by
  unfold resolveVariable EmitEnv.nameSymbol FunctionState.scope
  simp only [run_bind, get_run, Id.pure_fst, Id.pure_snd]
  cases st.function.scopes.findSome? (·.lookup name) with
  | some l => exact ⟨st.report, rfl, by simp⟩
  | none =>
    dsimp only
    obtain ⟨r, hrun, hafter⟩ := receiverSymbol_run env st name args span
    simp only [run_bind, hrun]
    revert hafter
    cases env.receiverSymbol st.function.owner name args with
    | some found => exact fun h => ⟨r, rfl, by simpa using h⟩
    | none =>
      intro hafter
      simp only [Option.all_none, Report.after_true] at hafter
      subst hafter
      simp only [run_bind, read_run, StateT.run_pure, Id.pure_fst, Id.pure_snd]
      cases env.symbols.global? name with
      | some g => exact ⟨st.report, rfl, by simp⟩
      | none =>
        dsimp only
        by_cases hempty : (env.symbols.functionsNamed name).isEmpty = true
        · simp only [hempty, ↓reduceIte]
          have hnone : env.functionSymbol name args = none := by
            rw [List.isEmpty_iff] at hempty
            cases args <;> simp [EmitEnv.functionSymbol, hempty]
          simp only [hnone, run_bind, error_run, Id.pure_snd]
          exact ⟨_, rfl, Report.after_error _ _ _⟩
        · simp only [hempty, ↓reduceIte, Bool.false_eq_true]
          unfold EmitEnv.functionSymbol
          cases args <;> dsimp only
          case' some ts =>
            by_cases hlen : (env.symbols.functionsNamed name).length > 1 <;>
              simp only [hlen, ↓reduceIte]
          all_goals
            split
            · rename_i hpick
              simp only [hpick, mismatch, run_bind, error_run, Id.pure_snd]
              exact ⟨_, rfl, Report.after_error _ _ _⟩
            · rename_i f hpick
              -- the two sides may share one matcher, which the split has then already decided
              try simp only [hpick]
              cases f.address with
              | some address => exact ⟨st.report, rfl, by simp⟩
              | none =>
                simp only [run_bind, error_run, Id.pure_snd]
                exact ⟨_, rfl, Report.after_error _ _ _⟩

theorem resolveMethod_run (f : Expr) (owner : StructId) (member : String) (args : List CType)
    (receiver : Receiver) :
    ∃ r, ((resolveMethod f owner member args receiver).run env).run st =
        (env.method owner member args receiver, { st with report := r }) ∧
      st.report.After r (env.method owner member args receiver).isSome := by
  unfold resolveMethod EmitEnv.method
  simp only [run_bind, registry_run, StateT.run_pure, Id.pure_fst, Id.pure_snd]
  cases env.registry.get? owner with
  | none =>
    simp only [run_bind, error_run, Id.pure_snd]
    exact ⟨_, rfl, Report.after_error _ _ _⟩
  | some entry =>
    dsimp only
    by_cases hempty : (entry.methodsNamed member).isEmpty = true
    · simp only [hempty, ↓reduceIte]
      cases entry.field? member with
      | some field =>
        dsimp only
        by_cases hcallable : field.2.callable?.isSome = true
        · simp only [hcallable, ↓reduceIte]
          exact ⟨st.report, rfl, by simp⟩
        · simp only [hcallable, ↓reduceIte, Bool.false_eq_true, run_bind, error_run, Id.pure_snd]
          exact ⟨_, rfl, Report.after_error _ _ _⟩
      | none =>
        simp only [run_bind, error_run, Id.pure_snd]
        exact ⟨_, rfl, Report.after_error _ _ _⟩
    · simp only [hempty, ↓reduceIte, Bool.false_eq_true]
      cases pickOverload (entry.methodsNamed member) args with
      | none =>
        simp only [mismatch, run_bind, error_run, Id.pure_snd]
        exact ⟨_, rfl, Report.after_error _ _ _⟩
      | some i =>
        obtain ⟨r, hrun, hafter⟩ := resolveMethodFunction_run env st owner member i f.span
        simp only [run_bind, hrun]
        revert hafter
        cases env.methodFunction owner member i <;> exact fun h => ⟨r, rfl, by simpa using h⟩

theorem selectField_run (e target : Expr) (member : String) (owner : Option StructId) :
    ∃ r, ((selectField e target member owner).run env).run st =
        (env.field owner member, { st with report := r }) ∧
      st.report.After r (env.field owner member).isSome := by
  unfold selectField EmitEnv.field
  cases owner with
  | none =>
    simp only [invalidInContext, run_bind, error_run, Id.pure_snd]
    exact ⟨_, rfl, Report.after_error _ _ _⟩
  | some owner =>
    simp only [run_bind, registry_run, StateT.run_pure, Id.pure_fst, Id.pure_snd, Option.bind_some]
    cases env.registry.get? owner with
    | none =>
      simp only [run_bind, error_run, Id.pure_snd]
      exact ⟨_, rfl, Report.after_error _ _ _⟩
    | some entry =>
      simp only [Option.bind_some]
      cases entry.field? member with
      | some found => exact ⟨st.report, rfl, by simp⟩
      | none =>
        dsimp only
        by_cases hmember : entry.hasMember member = true
        · simp only [hmember, ↓reduceIte, invalidInContext, run_bind, error_run, Id.pure_snd]
          exact ⟨_, rfl, Report.after_error _ _ _⟩
        · simp only [hmember, ↓reduceIte, Bool.false_eq_true, run_bind, error_run, Id.pure_snd]
          exact ⟨_, rfl, Report.after_error _ _ _⟩

theorem resolveType_run (ty : TypeName) (span : Span) :
    ∃ r, ((resolveType ty span).run env).run st =
        (((env.registry.resolve env.machine ty).toOption).getD (CType.int env.machine),
          { st with report := r }) ∧
      st.report.After r (env.registry.resolve env.machine ty).toOption.isSome := by
  unfold resolveType
  simp only [run_bind, registry_run, machine_run, StateT.run_pure, Id.pure_fst, Id.pure_snd]
  cases env.registry.resolve env.machine ty with
  | ok t => exact ⟨st.report, rfl, by simp [Except.toOption]⟩
  | error err =>
    simp only [run_bind, error_run, intType_run]
    exact ⟨_, rfl, by simpa [Except.toOption] using Report.after_error _ _ _⟩

end EmitM

end CStack
