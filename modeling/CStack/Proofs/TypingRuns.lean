import CStack.Proofs.StaticTyping

/-!
# Typing runs compute the static types

The typing functions of the compiler (`typeOf` and the functions it calls) are proved here to
return the static analysis of `EmitEnv.staticType` and its companions. The argument is one
induction that follows the functions' own recursion: each run starts from a state whose memo
agrees with the static analysis on an expression `e` whose nodes have tags of their own, types a
part of `e`, and ends, if no diagnostic was filed, with the static result and a memo that still
agrees. A memo hit returns what the memo agrees on; a miss computes the node from its parts, whose
runs the induction covers, and stores the result at the node's own tag.
-/

namespace CStack

namespace EmitM

open EmitState

variable {env : EmitEnv} {e : Expr}

/-- What a typing run from `st` to `st'` guarantees: it analysed only `tags`, and when it ends
without errors from a valid state, `ok` holds of the scope it ran in and the end state is
valid. -/
def TypingRun (env : EmitEnv) (e : Expr) (tags : List Nat) (st st' : EmitState)
    (ok : Scope → Prop) : Prop :=
  st.Analysed tags st' ∧
    (st'.report.hasErrors = false → st.Valid env e → ok st.function.scope ∧ st'.Valid env e)

variable {tags : List Nat} {st st₁ st' : EmitState} {ok : Scope → Prop}

theorem TypingRun.of_pure (h : st.Valid env e → ok st.function.scope) :
    TypingRun env e tags st st ok :=
  ⟨.refl tags st, fun _ hv => ⟨h hv, hv⟩⟩

theorem TypingRun.of_error {code : Code} {span : Span} {message : String}
    (hrest : ({ st with report := st.report.error code span message } : EmitState).Analysed tags st') :
    TypingRun env e tags st st' ok := by
  refine ⟨⟨hrest.function, hrest.memo, (Report.extends_error code span message).trans hrest.report⟩,
    fun hok hv => ?_⟩
  have herrors := hrest.hasErrors (Report.errorSince_error code span message) hv.2
  simp [hok] at herrors

theorem TypingRun.bind {P Q R : Scope → Prop} (h₁ : TypingRun env e tags st st₁ P)
    (h₂ : TypingRun env e tags st₁ st' Q) (h : ∀ sc, P sc → Q sc → R sc) :
    TypingRun env e tags st st' R := by
  refine ⟨h₁.1.trans h₂.1, fun hok hv => ?_⟩
  have hok₁ : st₁.report.hasErrors = false := by
    cases h₁₂ : st₁.report.hasErrors
    · rfl
    · simp [h₂.1.report.2 h₁₂] at hok
  obtain ⟨hP, hv₁⟩ := h₁.2 hok₁ hv
  obtain ⟨hQ, hv'⟩ := h₂.2 hok hv₁
  rw [h₁.1.function] at hQ
  exact ⟨h _ hP hQ, hv'⟩

theorem TypingRun.seq {P Q : Scope → Prop} (h₁ : TypingRun env e tags st st₁ P)
    (h₂ : TypingRun env e tags st₁ st' Q) : TypingRun env e tags st st' fun sc => P sc ∧ Q sc :=
  h₁.bind h₂ fun _ => And.intro

theorem TypingRun.mono {tags' : List Nat} {ok' : Scope → Prop} (h : TypingRun env e tags st st' ok)
    (hsub : tags ⊆ tags') (hok : ∀ sc, ok sc → ok' sc) : TypingRun env e tags' st st' ok' :=
  ⟨h.1.mono hsub, fun hno hv => (h.2 hno hv).imp (hok _) id⟩

/-! ### The primitives of typing -/

section Primitives

variable (he : e.TagsDistinct)
include he

theorem variableSymbol_spec {tag : Nat} {span : Span} {name : String}
    (hn : Expr.node tag span (.variable name) ∈ e.nodes) {r : Option Symbol}
    (hrun : ((variableSymbol (.node tag span (.variable name)) name).run env).run st = (r, st')) :
    TypingRun env e [tag] st st' fun sc => ∃ s, r = some s ∧ env.nameSymbol sc name none = some s := by
  unfold variableSymbol at hrun
  simp only [run_bind, get_run, Id.pure_fst, Id.pure_snd] at hrun
  split at hrun
  · -- a hit returns what the memo agrees on
    rename_i r₀ hhit
    simp only [Expr.tag, pure_run] at hhit hrun
    obtain ⟨rfl, rfl⟩ := hrun
    exact .of_pure fun hv => hv.1.names _ hn r hhit
  · obtain ⟨rep, hres, hafter⟩ := resolveVariable_run env st name none span
    simp only [Expr.span, run_bind, hres, modify_run, pure_run] at hrun
    obtain ⟨rfl, rfl⟩ := hrun
    revert hafter
    cases hs : env.nameSymbol st.function.scope name none with
    | none =>
      intro hafter
      obtain ⟨code, span', message, rfl⟩ := hafter
      exact .of_error ⟨rfl, Memo.within_insertName (List.mem_singleton_self _) _, .refl _⟩
    | some s =>
      intro hafter
      simp only [Option.isSome_some, Report.after_true] at hafter
      subst hafter
      refine ⟨⟨rfl, Memo.within_insertName (List.mem_singleton_self _) _, .refl _⟩,
        fun _ hv => ⟨⟨s, rfl, hs⟩, ?_, hv.2⟩⟩
      exact hv.1.insertName he hn hs

end Primitives

theorem TypingRun.of_after {r : Report} {okay : Bool} {P : Prop} (hafter : st.report.After r okay)
    (hP : okay = true → P) : TypingRun env e tags st { st with report := r } fun _ => P := by
  cases okay with
  | true =>
    simp only [Report.after_true] at hafter
    subst hafter
    exact .of_pure fun _ => hP rfl
  | false =>
    obtain ⟨code, span, message, rfl⟩ := hafter
    exact .of_error (.refl tags _)

theorem TypingRun.of_lookup {r : Report} {okay : Bool} (hafter : st.report.After r okay)
    (hok : okay = true → ok st.function.scope) : TypingRun env e tags st { st with report := r } ok := by
  cases okay with
  | true =>
    simp only [Report.after_true] at hafter
    subst hafter
    exact .of_pure fun _ => hok rfl
  | false =>
    obtain ⟨code, span, message, rfl⟩ := hafter
    exact .of_error (.refl tags _)

theorem TypingRun.part {xs : List Expr} {tag : Nat} {span : Span} {k : ExprKind}
    (h : TypingRun env e (xs.map Expr.tag) st st' ok) (hxs : xs ⊆ k.nodes) :
    TypingRun env e (Expr.node tag span k).tags st st' ok :=
  h.mono (Expr.part_tags hxs) fun _ h => h

/-! ### Typing computes the static analysis -/

section Typing

variable (he : e.TagsDistinct)
include he

theorem TypingRun.storeType {n : Expr} (hn : n ∈ e.nodes) (htag : n.tag ∈ tags) {t : CType}
    (h : TypingRun env e tags st st₁ fun sc => env.staticType sc n = some t) :
    TypingRun env e tags st { st₁ with memo := { st₁.memo with types := st₁.memo.types.insert n.tag t } }
      fun sc => env.staticType sc n = some t := by
  refine ⟨h.1.trans ⟨rfl, Memo.within_insertType htag t, .refl _⟩, fun hok hv => ?_⟩
  obtain ⟨hstatic, hv₁⟩ := h.2 hok hv
  refine ⟨hstatic, hv₁.1.insertType he hn ?_, hv₁.2⟩
  rw [h.1.function]
  exact hstatic

theorem TypingRun.storeField {n : Expr} (hn : n ∈ e.nodes) (htag : n.tag ∈ tags)
    {r : Option (Nat × CType)}
    (h : TypingRun env e tags st st₁ fun sc => env.staticField sc n = r ∧ r.isSome) :
    TypingRun env e tags st { st₁ with memo := { st₁.memo with fields := st₁.memo.fields.insert n.tag r } }
      fun sc => env.staticField sc n = r ∧ r.isSome := by
  refine ⟨h.1.trans ⟨rfl, Memo.within_insertField htag r, .refl _⟩, fun hok hv => ?_⟩
  obtain ⟨⟨hstatic, hsome⟩, hv₁⟩ := h.2 hok hv
  obtain ⟨f, rfl⟩ := Option.isSome_iff_exists.mp hsome
  refine ⟨⟨hstatic, hsome⟩, hv₁.1.insertField he hn ?_, hv₁.2⟩
  rw [h.1.function]
  exact hstatic

theorem TypingRun.storeCall {n : Expr} (hn : n ∈ e.nodes) (htag : n.tag ∈ tags)
    {r : Option Overload}
    (h : TypingRun env e tags st st₁ fun sc => env.staticCall sc n = r ∧ r.isSome) :
    TypingRun env e tags st { st₁ with memo := { st₁.memo with calls := st₁.memo.calls.insert n.tag r } }
      fun sc => env.staticCall sc n = r ∧ r.isSome := by
  refine ⟨h.1.trans ⟨rfl, Memo.within_insertCall htag r, .refl _⟩, fun hok hv => ?_⟩
  obtain ⟨⟨hstatic, hsome⟩, hv₁⟩ := h.2 hok hv
  obtain ⟨o, rfl⟩ := Option.isSome_iff_exists.mp hsome
  refine ⟨⟨hstatic, hsome⟩, hv₁.1.insertCall he hn ?_, hv₁.2⟩
  rw [h.1.function]
  exact hstatic

end Typing

mutual

theorem typeOf_spec (he : e.TagsDistinct) (n : Expr) (hn : n.nodes ⊆ e.nodes) {st st' : EmitState}
    {t : CType}
    (hrun : ((typeOf n).run env).run st = (t, st')) :
    TypingRun env e n.tags st st' fun sc => env.staticType sc n = some t := by
  unfold typeOf at hrun
  simp only [run_bind, get_run, Id.pure_fst, Id.pure_snd] at hrun
  split at hrun
  · -- a hit returns what the memo agrees on
    rename_i t₀ hhit
    simp only [pure_run] at hrun
    obtain ⟨rfl, rfl⟩ := hrun
    exact .of_pure fun hv => hv.1.types n (hn (Expr.mem_nodes_self n)) t hhit
  · obtain ⟨t₀, st₁, h₁, hrun⟩ := run_bind_eq hrun
    simp only [modify_run, run_bind, pure_run] at hrun
    obtain ⟨rfl, rfl⟩ := hrun
    exact (typeOfNode_spec he n hn h₁).storeType he (hn (Expr.mem_nodes_self n))
      (Expr.tag_mem_tags (Expr.mem_nodes_self n))
termination_by 8 * sizeOf n + 3
decreasing_by
  all_goals
    try subst_vars
    simp_wf
    try simp
    try omega

theorem typeOfNode_spec (he : e.TagsDistinct) (n : Expr) (hn : n.nodes ⊆ e.nodes)
    {st st' : EmitState} {t : CType}
    (hrun : ((typeOfNode n).run env).run st = (t, st')) :
    TypingRun env e n.tags st st' fun sc => env.staticType sc n = some t := by
  match n, hn, hrun with
  | .node tag span k, hn, hrun =>
    have part : ∀ {c : Expr}, c.nodes ⊆ k.nodes →
        c.nodes ⊆ e.nodes ∧ c.tags ⊆ (Expr.node tag span k).tags := fun h =>
      ⟨fun x hx => hn (List.mem_cons_of_mem _ (h hx)),
        Expr.tags_subset fun x hx => List.mem_cons_of_mem _ (h hx)⟩
    cases k with
    | integer v | character v | float v | constant v =>
      simp only [typeOfNode, run_bind, machine_run, pure_run] at hrun
      obtain ⟨rfl, rfl⟩ := hrun
      exact .of_pure fun _ => by simp [EmitEnv.staticType]
    | «variable» name =>
      simp only [typeOfNode] at hrun
      obtain ⟨r, st₁, h₁, hrun⟩ := run_bind_eq hrun
      have hsymbol := variableSymbol_spec he (hn (Expr.mem_nodes_self _)) h₁
      cases r with
      | none =>
        simp only [intType_run] at hrun
        obtain ⟨rfl, rfl⟩ := hrun
        exact hsymbol.mono (Expr.singleton_tag_subset (.node tag span (.variable name))) fun _ ⟨_, hnone, _⟩ => nomatch hnone
      | some s =>
        simp only [pure_run] at hrun
        obtain ⟨rfl, rfl⟩ := hrun
        refine hsymbol.mono (Expr.singleton_tag_subset (.node tag span (.variable name))) fun sc ⟨s', hs, hname⟩ => ?_
        cases hs
        simp [EmitEnv.staticType, hname]
    | this =>
      simp only [typeOfNode, thisType, run_bind, get_run, Id.pure_fst, Id.pure_snd] at hrun
      cases howner : st.function.owner with
      | none =>
        simp only [howner, run_bind, error_run, intType_run] at hrun
        obtain ⟨rfl, rfl⟩ := hrun
        exact .of_error (.refl _ _)
      | some owner =>
        simp only [howner, pure_run] at hrun
        obtain ⟨rfl, rfl⟩ := hrun
        exact .of_pure fun _ => by simp [EmitEnv.staticType, FunctionState.scope, howner]
    | member target name | arrow target name =>
      simp only [typeOfNode] at hrun
      obtain ⟨r, st₁, h₁, hrun⟩ := run_bind_eq hrun
      have hfield := fieldOf_spec he _ hn h₁
      cases r with
      | none =>
        simp only [intType_run] at hrun
        obtain ⟨rfl, rfl⟩ := hrun
        exact hfield.mono (List.Subset.refl _) fun _ ⟨_, hsome⟩ => nomatch hsome
      | some f =>
        obtain ⟨offset, ft⟩ := f
        simp only [pure_run] at hrun
        obtain ⟨rfl, rfl⟩ := hrun
        exact hfield.mono (List.Subset.refl _) fun _ ⟨hf, _⟩ => by
          simp [EmitEnv.staticType, hf]
    | call f args =>
      simp only [typeOfNode] at hrun
      by_cases hf : f.isError = true
      · simp only [hf, ↓reduceIte, intType_run] at hrun
        obtain ⟨rfl, rfl⟩ := hrun
        exact .of_pure fun _ => by simp [EmitEnv.staticType, hf]
      · simp only [hf, ↓reduceIte, Bool.false_eq_true] at hrun
        obtain ⟨r, st₁, h₁, hrun⟩ := run_bind_eq hrun
        have hcall := callOverload_spec he tag span f args hn h₁
        cases r with
        | none =>
          simp only [intType_run] at hrun
          obtain ⟨rfl, rfl⟩ := hrun
          exact hcall.mono (List.Subset.refl _) fun _ ⟨_, hsome⟩ => nomatch hsome
        | some o =>
          have hresult : t = env.callResult o ∧ st' = st₁ := by
            unfold EmitEnv.callResult
            cases hc : o.type.callable? <;> simp only [hc, pure_run, intType_run] at hrun <;>
              exact ⟨(Prod.mk.inj hrun).1.symm, (Prod.mk.inj hrun).2.symm⟩
          obtain ⟨rfl, rfl⟩ := hresult
          exact hcall.mono (List.Subset.refl _) fun _ ⟨ho, _⟩ => by
            simp [EmitEnv.staticType, hf, ho]
    | cast ty operand =>
      simp only [typeOfNode] at hrun
      obtain ⟨target, st₁, h₁, hrun⟩ := run_bind_eq hrun
      obtain ⟨rep, hres, hafter⟩ := resolveType_run env st ty span
      rw [hres] at h₁
      obtain ⟨htarget, rfl⟩ := Prod.mk.inj h₁
      obtain ⟨source, st₂, h₂, hrun⟩ := run_bind_eq hrun
      have hoperand := typeOf_spec he operand (part (by simp [ExprKind.nodes])).1 h₂
      have hresolved : TypingRun env e (Expr.node tag span (.cast ty operand)).tags st
          { st with report := rep } fun _ =>
            (env.registry.resolve env.machine ty).toOption = some target :=
        .of_after hafter fun hsome => by
          obtain ⟨a, ha⟩ := Option.isSome_iff_exists.mp hsome
          simp [← htarget, ha]
      have hcheck : TypingRun env e (Expr.node tag span (.cast ty operand)).tags st₂ st'
          fun _ => source.castAllowed target = true ∧ t = target := by
        by_cases hallowed : source.castAllowed target = true
        · simp only [hallowed, Bool.not_true, Bool.false_eq_true, ↓reduceIte, pure_run] at hrun
          obtain ⟨rfl, rfl⟩ := hrun
          exact .of_pure fun _ => ⟨hallowed, rfl⟩
        · simp only [hallowed, Bool.not_false, ↓reduceIte, run_bind, error_run, pure_run] at hrun
          obtain ⟨rfl, rfl⟩ := hrun
          exact .of_error (.refl _ _)
      refine hresolved.bind ((hoperand.mono (part (by simp [ExprKind.nodes])).2 fun _ h => h).seq
        hcheck) fun sc hres ⟨hsource, hallowed, ht⟩ => ?_
      subst ht
      simp [EmitEnv.staticType, hres, hsource, hallowed]
    | unary op operand =>
      simp only [typeOfNode] at hrun
      obtain ⟨t₁, st₁, h₁, hrun⟩ := run_bind_eq hrun
      have hoperand := typeOf_spec he operand (part (by simp [ExprKind.nodes])).1 h₁
      simp only [run_bind, machine_run] at hrun
      have hresult : TypingRun env e (Expr.node tag span (.unary op operand)).tags st₁ st'
          fun _ => unaryResult env.machine op t₁ = some t := by
        cases hu : unaryResult env.machine op t₁ with
        | none =>
          simp only [hu, badOperand, run_bind, error_run, intType_run] at hrun
          obtain ⟨rfl, rfl⟩ := hrun
          exact .of_error (.refl _ _)
        | some r =>
          simp only [hu, pure_run] at hrun
          obtain ⟨rfl, rfl⟩ := hrun
          exact .of_pure fun _ => rfl
      exact (hoperand.mono (part (by simp [ExprKind.nodes])).2 fun _ h => h).bind hresult
        fun sc ho hu => by simp [EmitEnv.staticType, ho, hu]
    | binary op l r =>
      simp only [typeOfNode] at hrun
      obtain ⟨lt, st₁, h₁, hrun⟩ := run_bind_eq hrun
      obtain ⟨rt, st₂, h₂, hrun⟩ := run_bind_eq hrun
      have hl := typeOf_spec he l (part (by simp [ExprKind.nodes])).1 h₁
      have hr := typeOf_spec he r (part (by simp [ExprKind.nodes])).1 h₂
      simp only [run_bind, machine_run, registry_run, StateT.run_pure, Id.pure_fst, Id.pure_snd]
        at hrun
      have hresult : TypingRun env e (Expr.node tag span (.binary op l r)).tags st₂ st'
          fun _ => env.binaryType op lt rt = some t := by
        unfold EmitEnv.binaryType
        by_cases hcompare :
            (op.isComparison && !(planBinary env.machine env.registry op lt rt).isInvalid) = true
        · simp only [hcompare, ↓reduceIte, intType_run] at hrun ⊢
          obtain ⟨rfl, rfl⟩ := hrun
          exact .of_pure fun _ => rfl
        · simp only [hcompare, ↓reduceIte, Bool.false_eq_true] at hrun ⊢
          split at hrun
          all_goals first
            | (simp only [pure_run, intType_run] at hrun
               obtain ⟨rfl, rfl⟩ := hrun
               exact .of_pure fun _ => by simp_all)
            | (simp only [badOperands, run_bind, error_run, intType_run] at hrun
               obtain ⟨rfl, rfl⟩ := hrun
               exact .of_error (.refl _ _))
      exact (hl.mono (part (by simp [ExprKind.nodes])).2 fun _ h => h).bind
        ((hr.mono (part (by simp [ExprKind.nodes])).2 fun _ h => h).seq hresult)
          fun sc hl ⟨hr, hb⟩ => by simp [EmitEnv.staticType, hl, hr, hb]
    | logical op l r =>
      simp only [typeOfNode] at hrun
      obtain ⟨lt, st₁, h₁, hrun⟩ := run_bind_eq hrun
      obtain ⟨rt, st₂, h₂, hrun⟩ := run_bind_eq hrun
      have hl := typeOf_spec he l (part (by simp [ExprKind.nodes])).1 h₁
      have hr := typeOf_spec he r (part (by simp [ExprKind.nodes])).1 h₂
      have hresult : TypingRun env e (Expr.node tag span (.logical op l r)).tags st₂ st'
          fun _ => (lt.isScalar && rt.isScalar) = true ∧ t = CType.int env.machine := by
        by_cases hcheck : (!lt.isScalar || !rt.isScalar) = true
        · simp only [hcheck, ↓reduceIte, badOperands, run_bind, error_run, intType_run] at hrun
          obtain ⟨rfl, rfl⟩ := hrun
          exact .of_error (.refl _ _)
        · simp only [hcheck, Bool.false_eq_true, ↓reduceIte, intType_run] at hrun
          obtain ⟨rfl, rfl⟩ := hrun
          refine .of_pure fun _ => ⟨?_, rfl⟩
          revert hcheck
          cases lt.isScalar <;> cases rt.isScalar <;> simp
      exact (hl.mono (part (by simp [ExprKind.nodes])).2 fun _ h => h).bind
        ((hr.mono (part (by simp [ExprKind.nodes])).2 fun _ h => h).seq hresult)
          fun sc hl ⟨hr, hscalar, ht⟩ => by
            rw [Bool.and_eq_true] at hscalar
            simp [EmitEnv.staticType, hl, hr, hscalar, ht]
    | assign target value =>
      simp only [typeOfNode] at hrun
      exact (typeOf_spec he target (part (by simp [ExprKind.nodes])).1 hrun).mono
        (part (by simp [ExprKind.nodes])).2 fun _ h => by simp [EmitEnv.staticType, h]
    | addressOf operand =>
      simp only [typeOfNode] at hrun
      obtain ⟨t₁, st₁, h₁, hrun⟩ := run_bind_eq hrun
      simp only [pure_run] at hrun
      obtain ⟨rfl, rfl⟩ := hrun
      exact (typeOf_spec he operand (part (by simp [ExprKind.nodes])).1 h₁).mono
        (part (by simp [ExprKind.nodes])).2 fun _ h => by simp [EmitEnv.staticType, h]
    | deref operand =>
      simp only [typeOfNode] at hrun
      obtain ⟨t₁, st₁, h₁, hrun⟩ := run_bind_eq hrun
      have hoperand := typeOf_spec he operand (part (by simp [ExprKind.nodes])).1 h₁
      have hresult : TypingRun env e (Expr.node tag span (.deref operand)).tags st₁ st'
          fun _ => t₁.derefType = some t := by
        unfold CType.derefType
        split at hrun
        · rename_i inner
          by_cases hvoid : inner.isVoid = true
          · simp only [hvoid, Bool.not_true, Bool.false_eq_true, ↓reduceIte, badOperand, run_bind,
              error_run, intType_run] at hrun
            obtain ⟨rfl, rfl⟩ := hrun
            exact .of_error (.refl _ _)
          · simp only [hvoid, Bool.not_false, ↓reduceIte, pure_run] at hrun
            obtain ⟨rfl, rfl⟩ := hrun
            exact .of_pure fun _ => by simp [hvoid]
        · simp only [pure_run] at hrun
          obtain ⟨rfl, rfl⟩ := hrun
          exact .of_pure fun _ => rfl
        · simp only [badOperand, run_bind, error_run, intType_run] at hrun
          obtain ⟨rfl, rfl⟩ := hrun
          exact .of_error (.refl _ _)
      exact (hoperand.mono (part (by simp [ExprKind.nodes])).2 fun _ h => h).bind hresult
        fun sc ho hd => by simp [EmitEnv.staticType, ho, hd]
    | error =>
      simp only [typeOfNode, intType_run] at hrun
      obtain ⟨rfl, rfl⟩ := hrun
      exact .of_pure fun _ => by simp [EmitEnv.staticType]
termination_by 8 * sizeOf n + 2
decreasing_by
  all_goals
    try subst_vars
    simp_wf
    try simp
    try omega

theorem fieldOf_spec (he : e.TagsDistinct) (n : Expr) (hn : n.nodes ⊆ e.nodes) {st st' : EmitState}
    {r : Option (Nat × CType)} (hrun : ((fieldOf n).run env).run st = (r, st')) :
    TypingRun env e n.tags st st' fun sc => env.staticField sc n = r ∧ r.isSome := by
  unfold fieldOf at hrun
  simp only [run_bind, get_run, Id.pure_fst, Id.pure_snd] at hrun
  split at hrun
  · rename_i r₀ hhit
    simp only [pure_run] at hrun
    obtain ⟨rfl, rfl⟩ := hrun
    refine .of_pure fun hv => ?_
    obtain ⟨f, rfl, hf⟩ := hv.1.fields n (hn (Expr.mem_nodes_self n)) r hhit
    exact ⟨hf, rfl⟩
  · obtain ⟨r₀, st₁, h₁, hrun⟩ := run_bind_eq hrun
    simp only [modify_run, run_bind, pure_run] at hrun
    obtain ⟨rfl, rfl⟩ := hrun
    exact (resolveField_spec he n hn h₁).storeField he (hn (Expr.mem_nodes_self n))
      (Expr.tag_mem_tags (Expr.mem_nodes_self n))
termination_by 8 * sizeOf n + 1
decreasing_by
  all_goals
    try subst_vars
    simp_wf
    try simp
    try omega

theorem resolveField_spec (he : e.TagsDistinct) (n : Expr) (hn : n.nodes ⊆ e.nodes)
    {st st' : EmitState}
    {r : Option (Nat × CType)} (hrun : ((resolveField n).run env).run st = (r, st')) :
    TypingRun env e n.tags st st' fun sc => env.staticField sc n = r ∧ r.isSome := by
  match n, hn, hrun with
  | .node tag span k, hn, hrun =>
    cases k with
    | member target name | arrow target name =>
      simp only [resolveField] at hrun
      obtain ⟨t₁, st₁, h₁, hrun⟩ := run_bind_eq hrun
      have htarget := typeOf_spec he target (Expr.part_nodes hn (by simp [ExprKind.nodes])) h₁
      obtain ⟨rep, hselect, hafter⟩ := selectField_run env st₁ _ target name _
      rw [hselect, Prod.mk.injEq] at hrun
      obtain ⟨rfl, rfl⟩ := hrun
      exact (htarget.mono (Expr.part_tags (by simp [ExprKind.nodes])) fun _ h => h).bind
        (.of_after hafter fun hsome => hsome) fun sc ht hsome => ⟨by simp [EmitEnv.staticField, ht], hsome⟩
    | _ =>
      simp only [resolveField, invalidInContext, run_bind, error_run, pure_run] at hrun
      obtain ⟨rfl, rfl⟩ := hrun
      exact .of_error (.refl _ _)
termination_by 8 * sizeOf n
decreasing_by
  all_goals
    try subst_vars
    simp_wf
    try simp
    try omega

theorem callOverload_spec (he : e.TagsDistinct) (tag : Nat) (span : Span) (f : Expr)
    (args : List Expr)
    (hn : (Expr.node tag span (.call f args)).nodes ⊆ e.nodes) {st st' : EmitState}
    {r : Option Overload}
    (hrun : ((callOverload (.node tag span (.call f args))).run env).run st = (r, st')) :
    TypingRun env e (Expr.node tag span (.call f args)).tags st st' fun sc =>
      env.staticCall sc (.node tag span (.call f args)) = r ∧ r.isSome := by
  simp only [callOverload, run_bind, get_run, Id.pure_fst, Id.pure_snd] at hrun
  split at hrun
  · rename_i r₀ hhit
    simp only [pure_run] at hrun
    obtain ⟨rfl, rfl⟩ := hrun
    refine .of_pure fun hv => ?_
    obtain ⟨o, rfl, ho⟩ := hv.1.calls _ (hn (Expr.mem_nodes_self _)) r hhit
    exact ⟨ho, rfl⟩
  · obtain ⟨ts, st₁, h₁, hrun⟩ := run_bind_eq hrun
    obtain ⟨r₀, st₂, h₂, hrun⟩ := run_bind_eq hrun
    simp only [modify_run, run_bind, pure_run] at hrun
    obtain ⟨rfl, rfl⟩ := hrun
    have hf : f.nodes ⊆ ExprKind.nodes (.call f args) := List.subset_append_left _ _
    have hargs : Expr.listNodes args ⊆ ExprKind.nodes (.call f args) := List.subset_append_right _ _
    have htypes := typesOf_spec he args (Expr.part_nodes hn hargs) h₁
    have hcallee := resolveOverload_spec he f ts (Expr.part_nodes hn hf) h₂
    refine TypingRun.storeCall he (n := .node tag span (.call f args)) (hn (Expr.mem_nodes_self _))
      (Expr.tag_mem_tags (Expr.mem_nodes_self _)) ?_
    exact TypingRun.bind (htypes.part hargs) (hcallee.part hf) fun sc hts ⟨ho, hsome⟩ =>
      ⟨by simp [EmitEnv.staticCall, hts, ho], hsome⟩
termination_by 8 * sizeOf (Expr.node tag span (.call f args)) + 1
decreasing_by
  all_goals
    try subst_vars
    simp_wf
    try simp
    try omega

theorem resolveOverload_spec (he : e.TagsDistinct) (f : Expr) (ts : List CType)
    (hn : f.nodes ⊆ e.nodes)
    {st st' : EmitState} {r : Option Overload}
    (hrun : ((resolveOverload f ts).run env).run st = (r, st')) :
    TypingRun env e f.tags st st' fun sc => env.staticCallee sc f ts = r ∧ r.isSome := by
  match f, hn, hrun with
  | .node tag span k, hn, hrun =>
    cases k with
    | member target name =>
      simp only [resolveOverload] at hrun
      obtain ⟨t₁, st₁, h₁, hrun⟩ := run_bind_eq hrun
      have hpart : target.nodes ⊆ ExprKind.nodes (.member target name) := List.Subset.refl _
      have htarget := typeOf_spec he target (Expr.part_nodes hn hpart) h₁
      cases howner : t₁.asStruct? with
      | none =>
        rw [howner] at hrun
        simp only [invalidInContext, run_bind, error_run, pure_run] at hrun
        obtain ⟨rfl, rfl⟩ := hrun
        exact TypingRun.bind (htarget.part hpart) (.of_error (.refl _ _)) fun _ _ h => h
      | some owner =>
        obtain ⟨rep, hmethod, hafter⟩ :=
          resolveMethod_run env st₁ (.node tag span (.member target name)) owner name ts .address
        rw [howner] at hrun
        simp only [hmethod] at hrun
        obtain ⟨rfl, rfl⟩ := hrun
        exact TypingRun.bind (htarget.part hpart) (.of_after hafter fun hsome => hsome)
          fun sc ht hsome => ⟨by simp [EmitEnv.staticCallee, ht, howner], hsome⟩
    | arrow target name =>
      simp only [resolveOverload] at hrun
      obtain ⟨t₁, st₁, h₁, hrun⟩ := run_bind_eq hrun
      have hpart : target.nodes ⊆ ExprKind.nodes (.arrow target name) := List.Subset.refl _
      have htarget := typeOf_spec he target (Expr.part_nodes hn hpart) h₁
      cases howner : t₁.pointee?.bind CType.asStruct? with
      | none =>
        rw [howner] at hrun
        simp only [invalidInContext, run_bind, error_run, pure_run] at hrun
        obtain ⟨rfl, rfl⟩ := hrun
        exact TypingRun.bind (htarget.part hpart) (.of_error (.refl _ _)) fun _ _ h => h
      | some owner =>
        obtain ⟨rep, hmethod, hafter⟩ :=
          resolveMethod_run env st₁ (.node tag span (.arrow target name)) owner name ts .pointer
        rw [howner] at hrun
        simp only [hmethod] at hrun
        obtain ⟨rfl, rfl⟩ := hrun
        exact TypingRun.bind (htarget.part hpart) (.of_after hafter fun hsome => hsome)
          fun sc ht hsome => ⟨by simp [EmitEnv.staticCallee, ht, howner], hsome⟩
    | «variable» name =>
      simp only [resolveOverload] at hrun
      obtain ⟨s, st₁, h₁, hrun⟩ := run_bind_eq hrun
      obtain ⟨rep, hres, hafter⟩ := resolveVariable_run env st name (some ts) span
      rw [hres, Prod.mk.injEq] at h₁
      obtain ⟨rfl, rfl⟩ := h₁
      -- the lookup happens in the scope the run starts in
      have hsymbol : TypingRun env e (Expr.node tag span (.variable name)).tags st
          { st with report := rep } fun sc =>
            env.nameSymbol sc name (some ts) = env.nameSymbol st.function.scope name (some ts) ∧
              (env.nameSymbol st.function.scope name (some ts)).isSome :=
        .of_lookup hafter fun hsome => ⟨rfl, hsome⟩
      cases hs : env.nameSymbol st.function.scope name (some ts) with
      | none =>
        rw [hs] at hrun
        simp only [pure_run] at hrun
        obtain ⟨rfl, rfl⟩ := hrun
        exact hsymbol.mono (List.Subset.refl _) fun _ ⟨_, hsome⟩ => by simp [hs] at hsome
      | some s =>
        rw [hs] at hrun
        cases s <;> simp only [pure_run] at hrun <;> obtain ⟨rfl, rfl⟩ := hrun <;>
          exact hsymbol.mono (List.Subset.refl _) fun sc ⟨hsc, _⟩ =>
            ⟨by simp [EmitEnv.staticCallee, hsc, hs], rfl⟩
    | error =>
      simp only [resolveOverload, run_bind, intType_run, pure_run] at hrun
      obtain ⟨rfl, rfl⟩ := hrun
      exact .of_pure fun _ => ⟨by simp [EmitEnv.staticCallee], rfl⟩
    | _ =>
      simp only [resolveOverload] at hrun
      obtain ⟨t, st₁, h₁, hrun⟩ := run_bind_eq hrun
      simp only [pure_run] at hrun
      obtain ⟨rfl, rfl⟩ := hrun
      exact (typeOf_spec he _ hn h₁).mono (List.Subset.refl _) fun sc ht =>
        ⟨by simp [EmitEnv.staticCallee, ht], rfl⟩
termination_by 8 * sizeOf f + 4
decreasing_by
  all_goals
    try subst_vars
    simp_wf
    try simp
    try omega

theorem typesOf_spec (he : e.TagsDistinct) (args : List Expr) (hn : Expr.listNodes args ⊆ e.nodes)
    {st st' : EmitState} {ts : List CType} (hrun : ((typesOf args).run env).run st = (ts, st')) :
    TypingRun env e ((Expr.listNodes args).map Expr.tag) st st' fun sc =>
      env.staticTypes sc args = some ts := by
  match args, hn, hrun with
  | [], _, hrun =>
    simp only [typesOf, pure_run] at hrun
    obtain ⟨rfl, rfl⟩ := hrun
    exact .of_pure fun _ => by simp [EmitEnv.staticTypes]
  | a :: rest, hn, hrun =>
    simp only [typesOf] at hrun
    obtain ⟨t, st₁, h₁, hrun⟩ := run_bind_eq hrun
    obtain ⟨ts', st₂, h₂, hrun⟩ := run_bind_eq hrun
    simp only [pure_run] at hrun
    obtain ⟨rfl, rfl⟩ := hrun
    have hhead : a.nodes ⊆ Expr.listNodes (a :: rest) := List.subset_append_left _ _
    have htail : Expr.listNodes rest ⊆ Expr.listNodes (a :: rest) := List.subset_append_right _ _
    have ha := (typeOf_spec he a (List.Subset.trans hhead hn) h₁).mono (List.map_subset _ hhead)
      fun _ h => h
    have hrest := (typesOf_spec he rest (List.Subset.trans htail hn) h₂).mono (List.map_subset _ htail)
      fun _ h => h
    exact ha.bind hrest fun sc ht hts => by simp [EmitEnv.staticTypes, ht, hts]
termination_by 8 * sizeOf args
decreasing_by
  all_goals
    try subst_vars
    simp_wf
    try simp
    try omega

end

end EmitM

end CStack
