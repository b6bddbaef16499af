import CStack.Proofs.StaticCode

/-!
# Emission appends the computed code

Emitting an expression runs the typing functions on its nodes and appends instructions to the
function being emitted, patching its own forward jumps once their targets are known. This module
proves that a run that files no diagnostic appended exactly `EmitEnv.exprCode` of the node, at the
index the function's code had when the run started. The argument extends the one for typing runs:
the judgement `EmitRun` also records the instructions a run appended, and the induction follows
the mutual recursion of the emission functions.
-/

namespace CStack

namespace EmitState

/-- `st'` is `st` after appending `seg` to the function's code while analysing nodes with the given
tags: nothing else of the function changed, the memo changed only at those tags, and the report
only by filing diagnostics. -/
structure Appended (tags : List Nat) (st st' : EmitState) (seg : List Instr) : Prop where
  function : st'.function = { st.function with code := st.function.code ++ seg.toArray }
  memo : st.memo.Within tags st'.memo
  report : st.report.Extends st'.report

variable {tags tags' : List Nat} {st st₁ st₂ : EmitState} {seg seg₁ seg₂ : List Instr}

theorem Appended.refl (tags : List Nat) (st : EmitState) : st.Appended tags st [] :=
  ⟨by simp, .refl tags st.memo, .refl st.report⟩

theorem Analysed.appended (h : st.Analysed tags st₁) : st.Appended tags st₁ [] :=
  ⟨by simp [h.function], h.memo, h.report⟩

theorem Appended.trans (h₁ : st.Appended tags st₁ seg₁) (h₂ : st₁.Appended tags st₂ seg₂) :
    st.Appended tags st₂ (seg₁ ++ seg₂) := by
  refine ⟨?_, h₁.memo.trans h₂.memo, h₁.report.trans h₂.report⟩
  rw [h₂.function, h₁.function]
  simp [Array.append_assoc]

theorem Appended.mono (h : st.Appended tags st₁ seg) (hsub : tags ⊆ tags') :
    st.Appended tags' st₁ seg :=
  ⟨h.function, h.memo.mono hsub, h.report⟩

theorem Appended.size (h : st.Appended tags st₁ seg) :
    st₁.function.code.size = st.function.code.size + seg.length := by
  simp [h.function]

theorem Appended.scope (h : st.Appended tags st₁ seg) : st₁.function.scope = st.function.scope := by
  simp [h.function, FunctionState.scope]

theorem Appended.hasErrors (h₁ : st.report.ErrorSince st₁.report) (h₂ : st₁.Appended tags st₂ seg)
    (hc : st.report.Consistent) : st₂.report.hasErrors = true :=
  (h₁.trans h₂.report) hc

end EmitState

namespace Annotated

/-- `seg` is the instructions of computed code. -/
def Yields (code : Option (List Annotated)) (seg : List Instr) : Prop :=
  ∃ c, code = some c ∧ seg = c.map instr

@[simp] theorem yields_some {c : List Annotated} {seg : List Instr} :
    Yields (some c) seg ↔ seg = c.map instr := by
  simp [Yields]

@[simp] theorem not_yields_none {seg : List Instr} : ¬ Yields none seg := by
  simp [Yields]

end Annotated

namespace EmitM

open EmitState Annotated

variable {env : EmitEnv} {e : Expr}

/-- What an emission run from `st` to `st'` guarantees: it appended code to the function while
analysing only `tags`, and when it ends without errors from a valid state, `ok` holds of the scope
it ran in, the index its code starts at and the code it appended, and the end state is valid. -/
def EmitRun (env : EmitEnv) (e : Expr) (tags : List Nat) (st st' : EmitState)
    (ok : Scope → Nat → List Instr → Prop) : Prop :=
  ∃ seg, st.Appended tags st' seg ∧
    (st'.report.hasErrors = false → st.Valid env e →
      ok st.function.scope st.function.code.size seg ∧ st'.Valid env e)

variable {tags : List Nat} {st st₁ st' : EmitState} {ok : Scope → Nat → List Instr → Prop}

theorem EmitRun.of_typing {P : Scope → Prop} (h : TypingRun env e tags st st' P) :
    EmitRun env e tags st st' fun sc _ seg => P sc ∧ seg = [] :=
  ⟨[], h.1.appended, fun hok hv => (h.2 hok hv).imp (fun hP => ⟨hP, rfl⟩) id⟩

theorem EmitRun.of_pure (h : st.Valid env e → ok st.function.scope st.function.code.size []) :
    EmitRun env e tags st st ok :=
  ⟨[], .refl tags st, fun _ hv => ⟨h hv, hv⟩⟩

theorem EmitRun.of_error {code : Code} {span : Span} {message : String} {seg : List Instr}
    (hrest : ({ st with report := st.report.error code span message } : EmitState).Appended tags st'
      seg) :
    EmitRun env e tags st st' ok := by
  refine ⟨seg, ⟨?_, hrest.memo, (Report.extends_error code span message).trans hrest.report⟩,
    fun hok hv => ?_⟩
  · simpa using hrest.function
  · have herrors := hrest.hasErrors (Report.errorSince_error code span message) hv.2
    simp [hok] at herrors

theorem EmitRun.bind {P Q R : Scope → Nat → List Instr → Prop} (h₁ : EmitRun env e tags st st₁ P)
    (h₂ : EmitRun env e tags st₁ st' Q)
    (h : ∀ sc a seg₁ seg₂, P sc a seg₁ → Q sc (a + seg₁.length) seg₂ → R sc a (seg₁ ++ seg₂)) :
    EmitRun env e tags st st' R := by
  obtain ⟨seg₁, happ₁, hok₁⟩ := h₁
  obtain ⟨seg₂, happ₂, hok₂⟩ := h₂
  refine ⟨seg₁ ++ seg₂, happ₁.trans happ₂, fun hok hv => ?_⟩
  -- no errors at the end means none in the middle, since reports only grow
  have hmid : st₁.report.hasErrors = false := by
    cases hmid : st₁.report.hasErrors
    · rfl
    · simp [happ₂.report.2 hmid] at hok
  obtain ⟨hP, hv₁⟩ := hok₁ hmid hv
  obtain ⟨hQ, hv'⟩ := hok₂ hok hv₁
  rw [happ₁.scope, happ₁.size] at hQ
  exact ⟨h _ _ _ _ hP hQ, hv'⟩

theorem EmitRun.mono {tags' : List Nat} {ok' : Scope → Nat → List Instr → Prop}
    (h : EmitRun env e tags st st' ok) (hsub : tags ⊆ tags')
    (hok : ∀ sc a seg, ok sc a seg → ok' sc a seg) : EmitRun env e tags' st st' ok' := by
  obtain ⟨seg, happ, hrun⟩ := h
  exact ⟨seg, happ.mono hsub, fun hno hv => (hrun hno hv).imp (hok _ _ _) id⟩

theorem EmitRun.part {xs : List Expr} {tag : Nat} {span : Span} {k : ExprKind}
    (h : EmitRun env e (xs.map Expr.tag) st st' ok) (hxs : xs ⊆ k.nodes) :
    EmitRun env e (Expr.node tag span k).tags st st' ok :=
  h.mono (Expr.part_tags hxs) fun _ _ _ h => h

/-! ### Appending and patching instructions -/

variable (env) (st)

@[simp] theorem nextIndex_run : (nextIndex.run env).run st = (st.function.code.size, st) := rfl

@[simp] theorem machine_bind_run (f : Machine → EmitM α) :
    ((machine >>= f).run env).run st = ((f env.machine).run env).run st := rfl

@[simp] theorem registry_bind_run (f : Registry → EmitM α) :
    ((registry >>= f).run env).run st = ((f env.registry).run env).run st := rfl

@[simp] theorem error_bind_run (code : Code) (span : Span) (message : String) (f : Unit → EmitM α) :
    ((error code span message >>= f).run env).run st =
      ((f ()).run env).run { st with report := st.report.error code span message } := rfl

variable {env} {st}

theorem EmitRun.push (i : Instr) :
    EmitRun env e tags st { st with function := { st.function with code := st.function.code.push i } }
      fun _ _ seg => seg = [i] :=
  ⟨[i], ⟨rfl, .refl tags st.memo, .refl st.report⟩, fun _ hv => ⟨rfl, hv⟩⟩

theorem EmitRun.appending (seg : List Instr) :
    EmitRun env e tags st (st.appending seg) fun _ _ seg' => seg' = seg :=
  ⟨seg, ⟨rfl, .refl tags st.memo, .refl st.report⟩, fun _ hv => ⟨rfl, hv⟩⟩

theorem EmitRun.conversion (source target : CType) :
    EmitRun env e tags st { st with function := { st.function with
        code := st.function.code ++ (env.conversionCode source target).toArray } }
      fun _ _ seg => seg = env.conversionCode source target :=
  ⟨_, ⟨rfl, .refl tags st.memo, .refl st.report⟩, fun _ hv => ⟨rfl, hv⟩⟩

theorem emitCast_spec {source target : CType} {span : Span}
    (hrun : ((emitCast source target span).run env).run st = ((), st')) :
    EmitRun env e tags st st' fun _ _ seg => env.castCode source target = some seg := by
  unfold emitCast at hrun
  by_cases hscore : (source.score target == 0) = true
  · simp only [hscore, ↓reduceIte, error_run] at hrun
    cases hrun
    exact .of_error (.refl tags _)
  · simp only [hscore, Bool.false_eq_true, ↓reduceIte, emitConversion_run] at hrun
    obtain ⟨-, rfl⟩ := hrun
    exact (EmitRun.conversion source target).mono (List.Subset.refl _) fun _ _ seg hseg => by
      simp [EmitEnv.castCode, hscore, hseg]

theorem TypingRun.then {P : Scope → Prop} {Q : Scope → Nat → List Instr → Prop}
    (h₁ : TypingRun env e tags st st₁ P) (h₂ : EmitRun env e tags st₁ st' Q) :
    EmitRun env e tags st st' fun sc a seg => P sc ∧ Q sc a seg :=
  (EmitRun.of_typing h₁).bind h₂ fun _ _ _ _ ⟨hP, hnil⟩ hQ => by
    subst hnil
    exact ⟨hP, by simpa using hQ⟩

theorem TypingRun.then_error {P : Scope → Prop} {code : Code} {span : Span} {message : String}
    {seg : List Instr} (h : TypingRun env e tags st st₁ P)
    (hrest : ({ st₁ with report := st₁.report.error code span message } : EmitState).Appended tags
      st' seg) :
    EmitRun env e tags st st' ok :=
  (EmitRun.of_typing h).bind (EmitRun.of_error hrest : EmitRun env e tags _ st' fun _ _ _ => False)
    fun _ _ _ _ _ hfalse => hfalse.elim

theorem EmitRun.seq {P Q : Scope → Nat → List Instr → Prop} (h₁ : EmitRun env e tags st st₁ P)
    (h₂ : EmitRun env e tags st₁ st' Q) :
    EmitRun env e tags st st' fun sc a seg =>
      ∃ seg₁ seg₂, seg = seg₁ ++ seg₂ ∧ P sc a seg₁ ∧ Q sc (a + seg₁.length) seg₂ :=
  h₁.bind h₂ fun _ _ seg₁ seg₂ hP hQ => ⟨seg₁, seg₂, rfl, hP, hQ⟩

theorem EmitEnv.instr_logicalCode (env : EmitEnv) (op : LogicalOp) (a : Nat) (lc rc : List Annotated) :
    (env.logicalCode op a lc rc).map Annotated.instr =
      (env.logicalCode op a (plain (lc.map Annotated.instr)) (plain (rc.map Annotated.instr))).map
        Annotated.instr := by
  simp [EmitEnv.logicalCode]

theorem emitThisField_run (offset : Nat) :
    ((emitThisField offset).run env).run st =
      ((), { st with function := { st.function with
        code := st.function.code ++ (Instr.thisField offset).toArray } }) := by
  unfold emitThisField Instr.thisField
  by_cases hoffset : offset > 0 <;>
    simp only [hoffset, ↓reduceIte, push_bind_run, push_run, pure_run, Array.push_eq_append,
      Array.append_assoc, List.append_toArray, List.cons_append, List.nil_append]

theorem EmitRun.thisField (offset : Nat) :
    EmitRun env e tags st { st with function := { st.function with
        code := st.function.code ++ (Instr.thisField offset).toArray } }
      fun _ _ seg => seg = Instr.thisField offset :=
  ⟨_, ⟨rfl, .refl tags st.memo, .refl st.report⟩, fun _ hv => ⟨rfl, hv⟩⟩

theorem emitLogical_spec {op : LogicalOp} {left right : EmitM Unit}
    {P Q : Scope → Nat → List Instr → Prop}
    (hleft : ∀ {st st'}, (left.run env).run st = ((), st') → EmitRun env e tags st st' P)
    (hright : ∀ {st st'}, (right.run env).run st = ((), st') → EmitRun env e tags st st' Q)
    (hrun : ((emitLogical op left right).run env).run st = ((), st')) :
    EmitRun env e tags st st' fun sc a seg => ∃ ls rs, P sc a ls ∧
      Q sc (a + ls.length + (if op = .or then 3 else 1)) rs ∧
      seg = (env.logicalCode op a (plain ls) (plain rs)).map Annotated.instr := by
  -- split on the operator while the run is still folded, as for `emitLogical_code`
  cases op <;>
  unfold emitLogical at hrun <;>
  simp only [intKind_bind_run] at hrun <;>
  obtain ⟨_, st₁, h₁, hrun⟩ := run_bind_eq hrun <;>
  obtain ⟨ls, happ₁, hok₁⟩ := hleft h₁ <;>
  have hf₁ := happ₁.function <;>
  simp only [emit_bind_run, push_bind_run, nextIndex_bind_run, patch_bind_run, pure_bind, ↓reduceIte,
    reduceCtorEq] at hrun <;>
  obtain ⟨_, st₂, h₂, hrun⟩ := run_bind_eq hrun <;>
  obtain ⟨rs, happ₂, hok₂⟩ := hright h₂ <;>
  have hf₂ := happ₂.function <;>
  simp only [emit_bind_run, push_bind_run, nextIndex_bind_run, patch_bind_run, patch_run,
    pure_run] at hrun <;>
  cases hrun <;>
  refine ⟨_, ⟨?_, happ₁.memo.trans happ₂.memo, happ₁.report.trans happ₂.report⟩,
    fun hok hv => ⟨⟨ls, rs, ?_, ?_, rfl⟩, ?_⟩⟩
  case and.refl.refine_1 | or.refl.refine_1 =>
    simp only [hf₁] at hf₂
    simp only [hf₂, hf₁, FunctionState.mk.injEq, true_and, and_true]
    apply Array.ext'
    simp (disch := omega) only [Array.toList_modify, Array.toList_push, Array.toList_append,
      List.modify_append_of_le, List.append_assoc, List.cons_append, List.nil_append,
      List.length_append, List.length_cons, List.length_nil, ← Array.length_toList,
      Nat.add_sub_cancel_left, Nat.sub_self, Nat.zero_add, List.modify_zero_cons,
      List.modify_succ_cons, EmitEnv.logicalCode, List.map_append, instr_plain, Instr.retarget,
      reduceCtorEq, ↓reduceIte, length_plain, List.append_cancel_left_eq, List.cons.injEq,
      Instr.branchIfFalse.injEq, Instr.jump.injEq, and_true, true_and]
    omega
  all_goals
    -- no errors at the end means none after the left side, since reports only grow
    have hmid : st₁.report.hasErrors = false := by
      cases h : st₁.report.hasErrors
      · rfl
      · simp [happ₂.report.2 h] at hok
    obtain ⟨hP, hv₁⟩ := hok₁ hmid hv
    obtain ⟨hQ, hv₂⟩ := hok₂ hok hv₁
  case and.refl.refine_2 | or.refl.refine_2 => exact hP
  case and.refl.refine_3 | or.refl.refine_3 => simpa [hf₁, FunctionState.scope, Nat.add_assoc] using hQ
  case and.refl.refine_4 | or.refl.refine_4 => exact hv₂


theorem EmitRun.offset {offset : Nat}
    (hrun : ((if offset > 0 then EmitM.push (.offsetPointer offset) else pure () : EmitM Unit).run
      env).run st = ((), st')) :
    EmitRun env e tags st st' fun _ _ seg =>
      seg = if offset > 0 then [.offsetPointer offset] else [] := by
  by_cases hoffset : offset > 0
  · simp only [hoffset, ↓reduceIte, push_run] at hrun
    cases hrun
    exact (EmitRun.push _).mono (List.Subset.refl _) fun _ _ _ h => by simp [h, hoffset]
  · simp only [hoffset, ↓reduceIte, pure_run] at hrun
    cases hrun
    exact .of_pure fun _ => by simp [hoffset]

theorem variableSymbol_static (he : e.TagsDistinct) {tag : Nat} {span : Span} {name : String}
    (hn : (Expr.node tag span (.variable name)).nodes ⊆ e.nodes) {r : Option Symbol}
    (hrun : ((variableSymbol (.node tag span (.variable name)) name).run env).run st = (r, st')) :
    TypingRun env e (Expr.node tag span (.variable name)).tags st st' fun sc =>
      ∃ s, r = some s ∧ env.staticSymbol sc (.node tag span (.variable name)) = some s :=
  (variableSymbol_spec he (hn (Expr.mem_nodes_self _)) hrun).mono
    (Expr.singleton_tag_subset (.node tag span (.variable name))) fun _ h => h

/-! ### Emission computes the code -/

mutual

theorem emitExpr_spec (he : e.TagsDistinct) (n : Expr) (hn : n.nodes ⊆ e.nodes) {st st' : EmitState}
    (hrun : ((emitExpr n).run env).run st = ((), st')) :
    EmitRun env e n.tags st st' fun sc a seg => Yields (env.exprCode sc a n) seg := by
  match n, hn, hrun with
  | .node tag span k, hn, hrun =>
    cases k with
    | integer v | character v | float v =>
      simp only [emitExpr, emitLiteral] at hrun
      obtain ⟨t, st₁, h₁, hrun⟩ := run_bind_eq hrun
      simp only [push_run] at hrun
      cases hrun
      exact ((typeOf_spec he _ hn h₁).then (EmitRun.push _)).mono (List.Subset.refl _)
        fun sc a seg ⟨ht, hseg⟩ => by
          cases hk : t.valueKind? <;> simp [EmitEnv.exprCode, EmitEnv.literalCode, ht, hseg, hk]
    | constant v =>
      simp only [emitExpr, push_run] at hrun
      cases hrun
      exact (EmitRun.push _).mono (List.nil_subset _) fun sc a seg hseg => by
        simp [EmitEnv.exprCode, hseg]
    | «variable» name =>
      simp only [emitExpr] at hrun
      obtain ⟨r, st₁, h₁, hrun⟩ := run_bind_eq hrun
      have hsymbol := variableSymbol_static he hn h₁
      rcases r with _ | s
      · simp only [pure_run] at hrun
        cases hrun
        exact (EmitRun.of_typing hsymbol).mono (List.Subset.refl _)
          fun _ _ _ ⟨⟨_, hnone, _⟩, _⟩ => by simp at hnone
      by_cases hstruct : s.type.isStruct = true
      · simp only [hstruct, ↓reduceIte, structValue] at hrun
        cases hrun
        exact hsymbol.then_error (.refl _ _)
      simp only [hstruct, Bool.false_eq_true, ↓reduceIte] at hrun
      cases s with
      | «local» slot t | global address t =>
        simp only [push_run] at hrun
        cases hrun
        refine (hsymbol.then (EmitRun.push _)).mono (List.Subset.refl _) ?_
        rintro sc a seg ⟨⟨s, ⟨⟩, hs⟩, rfl⟩
        simp_all [EmitEnv.exprCode]
      | field offset t =>
        obtain ⟨_, st₂, h₂, hrun⟩ := run_bind_eq hrun
        rw [emitThisField_run] at h₂
        cases h₂
        simp only [push_run] at hrun
        cases hrun
        refine (hsymbol.then ((EmitRun.thisField offset).seq (EmitRun.push _))).mono
          (List.Subset.refl _) ?_
        rintro sc a seg ⟨⟨s, ⟨⟩, hs⟩, s₁, s₂, rfl, rfl, rfl⟩
        simp_all [EmitEnv.exprCode]
      | function address t =>
        simp only [pushAddress, push_run] at hrun
        cases hrun
        refine (hsymbol.then (EmitRun.push _)).mono (List.Subset.refl _) ?_
        rintro sc a seg ⟨⟨s, ⟨⟩, hs⟩, rfl⟩
        simp_all [EmitEnv.exprCode, Instr.functionAddress]
      | method address t =>
        simp only [invalidInContext, error_run] at hrun
        cases hrun
        exact hsymbol.then_error (.refl _ _)
    | this =>
      simp only [emitExpr] at hrun
      obtain ⟨t, st₁, h₁, hrun⟩ := run_bind_eq hrun
      have htype := typeOf_spec he _ hn h₁
      by_cases hp : t.isPointer = true
      · simp only [hp, ↓reduceIte, push_run] at hrun
        cases hrun
        exact (htype.then (EmitRun.push _)).mono (List.Subset.refl _) fun sc a seg ⟨ht, hseg⟩ => by
          simp [EmitEnv.exprCode, ht, hp, hseg]
      · simp only [hp, Bool.false_eq_true, ↓reduceIte, pure_run] at hrun
        cases hrun
        exact (EmitRun.of_typing htype).mono (List.Subset.refl _) fun sc a seg ⟨ht, hseg⟩ => by
          simp [EmitEnv.exprCode, ht, hp, hseg]
    | member target name | arrow target name =>
      simp only [emitExpr] at hrun
      obtain ⟨r, st₁, h₁, hrun⟩ := run_bind_eq hrun
      have hfield := fieldOf_spec he _ hn h₁
      rcases r with _ | ⟨offset, t⟩
      · simp only [pure_run] at hrun
        cases hrun
        exact (EmitRun.of_typing hfield).mono (List.Subset.refl _)
          fun _ _ _ ⟨⟨_, hsome⟩, _⟩ => by simp at hsome
      by_cases hstruct : t.isStruct = true
      · simp only [hstruct, ↓reduceIte, structValue] at hrun
        cases hrun
        exact hfield.then_error (.refl _ _)
      simp only [hstruct, Bool.false_eq_true, ↓reduceIte] at hrun
      obtain ⟨_, st₂, h₂, hrun⟩ := run_bind_eq hrun
      simp only [push_run] at hrun
      cases hrun
      refine (hfield.then ((emitMemberPointer_spec he _ hn h₂).seq (EmitRun.push _))).mono
        (List.Subset.refl _) ?_
      rintro sc a seg ⟨⟨hf, _⟩, s₁, s₂, rfl, ⟨c, hc, rfl⟩, rfl⟩
      simp [EmitEnv.exprCode, hf, hstruct, hc]
    | call f args =>
      simp only [emitExpr] at hrun
      have hf : f.nodes ⊆ ExprKind.nodes (.call f args) := List.subset_append_left _ _
      have hargs : Expr.listNodes args ⊆ ExprKind.nodes (.call f args) :=
        List.subset_append_right _ _
      by_cases herror : f.isError = true
      · simp only [herror, ↓reduceIte, pure_run] at hrun
        cases hrun
        exact .of_pure fun _ => by simp [EmitEnv.exprCode, herror]
      simp only [herror, Bool.false_eq_true, ↓reduceIte] at hrun
      obtain ⟨ts, st₁, h₁, hrun⟩ := run_bind_eq hrun
      obtain ⟨r, st₂, h₂, hrun⟩ := run_bind_eq hrun
      have hcall := ((typesOf_spec he args (Expr.part_nodes hn hargs) h₁).part hargs).seq
        (callOverload_spec he tag span f args hn h₂)
      rcases r with _ | o
      · simp only [pure_run] at hrun
        cases hrun
        exact (EmitRun.of_typing hcall).mono (List.Subset.refl _)
          fun _ _ _ ⟨⟨_, _, hsome⟩, _⟩ => by simp at hsome
      rcases hft : o.type.callable? with _ | ft
      · simp only [hft, error_run] at hrun
        cases hrun
        exact hcall.then_error (.refl _ _)
      simp only [hft] at hrun
      by_cases hcount : (args.length < ft.requiredCount || args.length > ft.params.length) = true
      · simp only [hcount, ↓reduceIte, error_bind_run, pure_run] at hrun
        cases hrun
        exact hcall.then_error (.refl _ _)
      simp only [hcount, Bool.false_eq_true, ↓reduceIte] at hrun
      obtain ⟨_, st₃, h₃, hrun⟩ := run_bind_eq hrun
      obtain ⟨_, st₄, h₄, hrun⟩ := run_bind_eq hrun
      rw [omittedArguments_run] at h₄
      cases h₄
      obtain ⟨_, st₅, h₅, hrun⟩ := run_bind_eq hrun
      have hcallInstr : EmitRun env e (Expr.node tag span (.call f args)).tags st₅ st' fun _ _ seg =>
          seg = .call ft.params.length ::
            if ft.ret.isVoid then [.loadConstant (Value.zero env.intKind)] else [] := by
        simp only [push_bind_run] at hrun
        by_cases hvoid : ft.ret.isVoid = true
        · simp only [hvoid, ↓reduceIte, intKind_bind_run, push_run] at hrun
          cases hrun
          exact ((EmitRun.push _).seq (EmitRun.push _)).mono (List.Subset.refl _)
            fun _ _ _ ⟨_, _, h, h₁, h₂⟩ => by simp [h, h₁, h₂, hvoid]
        · simp only [hvoid, Bool.false_eq_true, ↓reduceIte, pure_run] at hrun
          cases hrun
          exact (EmitRun.push _).mono (List.Subset.refl _) fun _ _ _ h => by simp [h, hvoid]
      have harguments : EmitRun env e (Expr.node tag span (.call f args)).tags _ _ _ :=
        (emitArguments_spec he args ts ft.params (Expr.part_nodes hn hargs) h₃).part hargs
      have hcallee : EmitRun env e (Expr.node tag span (.call f args)).tags _ _ _ :=
        (emitCallee_spec he f o.callee (Expr.part_nodes hn hf) h₅).part hf
      refine (hcall.then (harguments.seq ((EmitRun.appending _).seq
        (hcallee.seq hcallInstr)))).mono (List.Subset.refl _) ?_
      rintro sc a seg ⟨⟨hts, ho, -⟩, s₁, s₂, rfl, ⟨c₁, hc₁, rfl⟩, s₃, s₄, rfl, rfl, s₅, s₆, rfl,
        ⟨c₂, hc₂, rfl⟩, rfl⟩
      simp only [Bool.or_eq_true, decide_eq_true_eq, not_or, not_lt, gt_iff_lt] at hcount
      rw [List.length_map, Nat.add_assoc] at hc₂
      simp [EmitEnv.exprCode, herror, hts, ho, hft, Nat.not_lt.mpr hcount.1,
        Nat.not_lt.mpr hcount.2, hc₁, hc₂, Nat.add_assoc]
    | cast ty operand =>
      simp only [emitExpr] at hrun
      obtain ⟨target, st₁, h₁, hrun⟩ := run_bind_eq hrun
      obtain ⟨source, st₂, h₂, hrun⟩ := run_bind_eq hrun
      obtain ⟨_, st₃, h₃, hrun⟩ := run_bind_eq hrun
      have hpart : operand.nodes ⊆ ExprKind.nodes (.cast ty operand) := List.Subset.refl _
      have htarget := typeOf_spec he _ hn h₁
      have hsource : TypingRun env e (Expr.node tag span _).tags st₁ st₂ _ :=
        (typeOf_spec he operand (Expr.part_nodes hn hpart) h₂).part hpart
      have hoperand : EmitRun env e (Expr.node tag span _).tags st₂ st₃ _ :=
        (emitExpr_spec he operand (Expr.part_nodes hn hpart) h₃).part hpart
      have hconversion : EmitRun env e (Expr.node tag span (.cast ty operand)).tags st₃ st'
          fun _ _ seg => seg = if source.castAllowed target then env.conversionCode source target
            else [] := by
        by_cases hallowed : source.castAllowed target = true
        · simp only [hallowed, ↓reduceIte, emitConversion_run] at hrun
          cases hrun
          exact (EmitRun.appending _).mono (List.Subset.refl _) fun _ _ _ h => by
            simp [h, hallowed]
        · simp only [hallowed, Bool.false_eq_true, ↓reduceIte, pure_run] at hrun
          cases hrun
          exact .of_pure fun _ => by simp [hallowed]
      refine (htarget.then (hsource.then (hoperand.seq hconversion))).mono (List.Subset.refl _) ?_
      rintro sc a seg ⟨ht, hs, s₁, s₂, rfl, ⟨c, hc, rfl⟩, rfl⟩
      simp [EmitEnv.exprCode, ht, hs, hc]
    | unary op operand =>
      simp only [emitExpr] at hrun
      obtain ⟨result, st₁, h₁, hrun⟩ := run_bind_eq hrun
      obtain ⟨t, st₂, h₂, hrun⟩ := run_bind_eq hrun
      obtain ⟨_, st₃, h₃, hrun⟩ := run_bind_eq hrun
      have hpart : operand.nodes ⊆ ExprKind.nodes (.unary op operand) := List.Subset.refl _
      have hresult := typeOf_spec he _ hn h₁
      have htype : TypingRun env e (Expr.node tag span _).tags st₁ st₂ _ :=
        (typeOf_spec he operand (Expr.part_nodes hn hpart) h₂).part hpart
      have hoperand : EmitRun env e (Expr.node tag span _).tags st₂ st₃ _ :=
        (emitExpr_spec he operand (Expr.part_nodes hn hpart) h₃).part hpart
      have hrest : EmitRun env e (Expr.node tag span (.unary op operand)).tags st₃ st'
          fun _ _ seg => seg = (if op != .not then env.conversionCode t result else []) ++
            [.unary op] := by
        by_cases hnot : (op != .not) = true
        · simp only [hnot, ↓reduceIte] at hrun
          obtain ⟨_, st₄, h₄, hrun⟩ := run_bind_eq hrun
          rw [emitConversion_run] at h₄
          cases h₄
          simp only [push_run] at hrun
          cases hrun
          exact ((EmitRun.appending _).seq (EmitRun.push _)).mono (List.Subset.refl _)
            fun _ _ _ ⟨_, _, h, h₁, h₂⟩ => by simp [h, h₁, h₂, hnot]
        · simp only [hnot, Bool.false_eq_true, ↓reduceIte, push_run] at hrun
          cases hrun
          exact (EmitRun.push _).mono (List.Subset.refl _) fun _ _ _ h => by simp [h, hnot]
      refine (hresult.then (htype.then (hoperand.seq hrest))).mono (List.Subset.refl _) ?_
      rintro sc a seg ⟨hr, ht, s₁, s₂, rfl, ⟨c, hc, rfl⟩, rfl⟩
      simp [EmitEnv.exprCode, hr, ht, hc]
    | binary op l r =>
      simp only [emitExpr] at hrun
      obtain ⟨_, st₁, h₁, hrun⟩ := run_bind_eq hrun
      obtain ⟨lt, st₂, h₂, hrun⟩ := run_bind_eq hrun
      obtain ⟨rt, st₃, h₃, hrun⟩ := run_bind_eq hrun
      simp only [machine_bind_run, registry_bind_run] at hrun
      have hl : l.nodes ⊆ ExprKind.nodes (.binary op l r) := List.subset_append_left _ _
      have hr : r.nodes ⊆ ExprKind.nodes (.binary op l r) := List.subset_append_right _ _
      have htypes := (typeOf_spec he _ hn h₁).seq
        (((typeOf_spec he l (Expr.part_nodes hn hl) h₂).part hl).seq
          ((typeOf_spec he r (Expr.part_nodes hn hr) h₃).part hr))
      have hleft : ∀ {st st'}, ((emitExpr l).run env).run st = ((), st') →
          EmitRun env e (Expr.node tag span (.binary op l r)).tags st st'
            fun sc a seg => Yields (env.exprCode sc a l) seg :=
        fun h => (emitExpr_spec he l (Expr.part_nodes hn hl) h).part hl
      have hright : ∀ {st st'}, ((emitExpr r).run env).run st = ((), st') →
          EmitRun env e (Expr.node tag span (.binary op l r)).tags st st'
            fun sc a seg => Yields (env.exprCode sc a r) seg :=
        fun h => (emitExpr_spec he r (Expr.part_nodes hn hr) h).part hr
      rcases hplan : planBinary env.machine env.registry op lt rt with
        t | t | ⟨_, stride, _ | _⟩ | _ | _
      case invalid =>
        simp only [hplan, pure_run] at hrun
        cases hrun
        exact (EmitRun.of_typing htypes).mono (List.Subset.refl _) fun sc a seg ⟨⟨ht, hlt, hrt⟩, h⟩ => by
          simp [EmitEnv.exprCode, ht, hlt, hrt, hplan, h]
      case arithmetic | shift =>
        simp only [hplan] at hrun
        obtain ⟨_, st₄, h₄, hrun⟩ := run_bind_eq hrun
        obtain ⟨_, st₅, h₅, hrun⟩ := run_bind_eq hrun
        rw [emitConversion_run] at h₅
        cases h₅
        obtain ⟨_, st₆, h₆, hrun⟩ := run_bind_eq hrun
        obtain ⟨_, st₇, h₇, hrun⟩ := run_bind_eq hrun
        rw [emitConversion_run] at h₇
        cases h₇
        rw [push_run_appending] at hrun
        cases hrun
        refine (htypes.then ((hleft h₄).seq ((EmitRun.appending _).seq ((hright h₆).seq
          ((EmitRun.appending _).seq (EmitRun.appending _)))))).mono (List.Subset.refl _) ?_
        rintro sc a seg ⟨⟨ht, hlt, hrt⟩, s₁, s₂, rfl, ⟨c₁, hc₁, rfl⟩, s₃, s₄, rfl, rfl, s₅, s₆, rfl,
          ⟨c₂, hc₂, rfl⟩, s₇, s₈, rfl, rfl, rfl⟩
        rw [List.length_map] at hc₂
        simp [EmitEnv.exprCode, ht, hlt, hrt, hplan, hc₁, hc₂]
      case pointerCompare =>
        simp only [hplan] at hrun
        obtain ⟨_, st₄, h₄, hrun⟩ := run_bind_eq hrun
        obtain ⟨_, st₅, h₅, hrun⟩ := run_bind_eq hrun
        rw [emitConversion_run] at h₅
        cases h₅
        obtain ⟨_, st₆, h₆, hrun⟩ := run_bind_eq hrun
        obtain ⟨_, st₇, h₇, hrun⟩ := run_bind_eq hrun
        rw [emitConversion_run] at h₇
        cases h₇
        rw [push_run_appending] at hrun
        cases hrun
        refine (htypes.then ((hleft h₄).seq ((EmitRun.appending _).seq ((hright h₆).seq
          ((EmitRun.appending _).seq (EmitRun.appending _)))))).mono (List.Subset.refl _) ?_
        rintro sc a seg ⟨⟨ht, hlt, hrt⟩, s₁, s₂, rfl, ⟨c₁, hc₁, rfl⟩, s₃, s₄, rfl, rfl, s₅, s₆, rfl,
          ⟨c₂, hc₂, rfl⟩, s₇, s₈, rfl, rfl, rfl⟩
        rw [List.length_map] at hc₂
        simp [EmitEnv.exprCode, ht, hlt, hrt, hplan, hc₁, hc₂]
      case pointerOffset.true =>
        simp only [hplan, ↓reduceIte] at hrun
        obtain ⟨_, st₄, h₄, hrun⟩ := run_bind_eq hrun
        obtain ⟨_, st₅, h₅, hrun⟩ := run_bind_eq hrun
        rw [push_run_appending] at hrun
        cases hrun
        refine (htypes.then ((hleft h₄).seq ((hright h₅).seq (EmitRun.appending _)))).mono
          (List.Subset.refl _) ?_
        rintro sc a seg ⟨⟨ht, hlt, hrt⟩, s₁, s₂, rfl, ⟨c₁, hc₁, rfl⟩, s₃, s₄, rfl, ⟨c₂, hc₂, rfl⟩,
          rfl⟩
        rw [List.length_map] at hc₂
        simp [EmitEnv.exprCode, ht, hlt, hrt, hplan, hc₁, hc₂]
      case pointerOffset.false =>
        simp only [hplan, Bool.false_eq_true, ↓reduceIte] at hrun
        obtain ⟨_, st₄, h₄, hrun⟩ := run_bind_eq hrun
        obtain ⟨_, st₅, h₅, hrun⟩ := run_bind_eq hrun
        rw [push_run_appending] at hrun
        cases hrun
        refine (htypes.then ((hright h₄).seq ((hleft h₅).seq (EmitRun.appending _)))).mono
          (List.Subset.refl _) ?_
        rintro sc a seg ⟨⟨ht, hlt, hrt⟩, s₁, s₂, rfl, ⟨c₁, hc₁, rfl⟩, s₃, s₄, rfl, ⟨c₂, hc₂, rfl⟩,
          rfl⟩
        rw [List.length_map] at hc₂
        simp [EmitEnv.exprCode, ht, hlt, hrt, hplan, hc₁, hc₂]
    | logical op l r =>
      simp only [emitExpr] at hrun
      obtain ⟨_, st₁, h₁, hrun⟩ := run_bind_eq hrun
      have hl : l.nodes ⊆ ExprKind.nodes (.logical op l r) := List.subset_append_left _ _
      have hr : r.nodes ⊆ ExprKind.nodes (.logical op l r) := List.subset_append_right _ _
      have hlogical : EmitRun env e (Expr.node tag span (.logical op l r)).tags st₁ st' _ :=
        emitLogical_spec (fun h => (emitExpr_spec he l (Expr.part_nodes hn hl) h).part hl)
          (fun h => (emitExpr_spec he r (Expr.part_nodes hn hr) h).part hr) hrun
      refine ((typeOf_spec he _ hn h₁).then hlogical).mono (List.Subset.refl _) ?_
      rintro sc a seg ⟨ht, ls, rs, ⟨c₁, hc₁, rfl⟩, ⟨c₂, hc₂, rfl⟩, rfl⟩
      rw [List.length_map] at hc₂
      simp [EmitEnv.exprCode, ht, hc₁, hc₂]
      exact (EmitEnv.instr_logicalCode env op a c₁ c₂).symm
    | assign target value =>
      simp only [emitExpr] at hrun
      obtain ⟨tt, st₁, h₁, hrun⟩ := run_bind_eq hrun
      obtain ⟨vt, st₂, h₂, hrun⟩ := run_bind_eq hrun
      have ht : target.nodes ⊆ ExprKind.nodes (.assign target value) := List.subset_append_left _ _
      have hv : value.nodes ⊆ ExprKind.nodes (.assign target value) :=
        List.subset_append_right _ _
      have htypes : TypingRun env e (Expr.node tag span (.assign target value)).tags st st₂ _ :=
        ((typeOf_spec he target (Expr.part_nodes hn ht) h₁).part ht).seq
          ((typeOf_spec he value (Expr.part_nodes hn hv) h₂).part hv)
      by_cases hstruct : tt.isStruct = true
      · simp only [hstruct, ↓reduceIte, structValue] at hrun
        cases hrun
        exact htypes.then_error (.refl _ _)
      simp only [hstruct, Bool.false_eq_true, ↓reduceIte] at hrun
      obtain ⟨_, st₃, h₃, hrun⟩ := run_bind_eq hrun
      obtain ⟨_, st₄, h₄, hrun⟩ := run_bind_eq hrun
      rw [push_bind_run] at hrun
      obtain ⟨_, st₅, h₅, hrun⟩ := run_bind_eq hrun
      rw [push_run_appending] at hrun
      cases hrun
      have hvalue : EmitRun env e (Expr.node tag span (.assign target value)).tags st₂ st₃ _ :=
        (emitExpr_spec he value (Expr.part_nodes hn hv) h₃).part hv
      have hpointer : EmitRun env e (Expr.node tag span (.assign target value)).tags _ st₅ _ :=
        (emitPointer_spec he target (Expr.part_nodes hn ht) h₅).part ht
      refine (htypes.then (hvalue.seq ((emitCast_spec h₄).seq ((EmitRun.push _).seq
        (hpointer.seq (EmitRun.appending _)))))).mono (List.Subset.refl _) ?_
      rintro sc a seg ⟨⟨htt, hvt⟩, s₁, s₂, rfl, ⟨c₁, hc₁, rfl⟩, s₃, s₄, rfl, hcast, s₅, s₆, rfl, rfl,
        s₇, s₈, rfl, ⟨c₂, hc₂, rfl⟩, rfl⟩
      rw [List.length_map, List.length_singleton] at hc₂
      simp [EmitEnv.exprCode, htt, hvt, hstruct, hc₁, hcast, hc₂]
    | addressOf operand =>
      simp only [emitExpr] at hrun
      obtain ⟨t, st₁, h₁, hrun⟩ := run_bind_eq hrun
      have hpart : operand.nodes ⊆ ExprKind.nodes (.addressOf operand) := List.Subset.refl _
      have htype : TypingRun env e (Expr.node tag span (.addressOf operand)).tags st st₁ _ :=
        (typeOf_spec he operand (Expr.part_nodes hn hpart) h₁).part hpart
      by_cases hfun : t.isFunction = true
      · simp only [hfun, ↓reduceIte] at hrun
        refine (htype.then ((emitExpr_spec he operand (Expr.part_nodes hn hpart) hrun).part
          hpart)).mono (List.Subset.refl _) ?_
        rintro sc a seg ⟨ht, hseg⟩
        simpa [EmitEnv.exprCode, ht, hfun] using hseg
      · simp only [hfun, Bool.false_eq_true, ↓reduceIte] at hrun
        refine (htype.then ((emitPointer_spec he operand (Expr.part_nodes hn hpart) hrun).part
          hpart)).mono (List.Subset.refl _) ?_
        rintro sc a seg ⟨ht, hseg⟩
        simpa [EmitEnv.exprCode, ht, hfun] using hseg
    | deref operand =>
      simp only [emitExpr] at hrun
      obtain ⟨t, st₁, h₁, hrun⟩ := run_bind_eq hrun
      have hpart : operand.nodes ⊆ ExprKind.nodes (.deref operand) := List.Subset.refl _
      have hresult := typeOf_spec he _ hn h₁
      cases t with
      | function ft =>
        refine (hresult.then ((emitExpr_spec he operand (Expr.part_nodes hn hpart) hrun).part
          hpart)).mono (List.Subset.refl _) ?_
        rintro sc a seg ⟨ht, hseg⟩
        simpa [EmitEnv.exprCode, ht] using hseg
      | struct s =>
        simp only [structValue] at hrun
        cases hrun
        exact hresult.then_error (.refl _ _)
      | void | basic _ | pointer _ =>
        obtain ⟨_, st₂, h₂, hrun⟩ := run_bind_eq hrun
        rw [push_run_appending] at hrun
        cases hrun
        refine (hresult.then (((emitExpr_spec he operand (Expr.part_nodes hn hpart) h₂).part
          hpart).seq (EmitRun.appending _))).mono (List.Subset.refl _) ?_
        rintro sc a seg ⟨ht, s₁, s₂, rfl, ⟨c, hc, rfl⟩, rfl⟩
        simp [EmitEnv.exprCode, ht, hc]
    | error =>
      simp only [emitExpr, pure_run] at hrun
      cases hrun
      exact .of_pure fun _ => by simp [EmitEnv.exprCode]
termination_by 8 * sizeOf n + 2
decreasing_by
  all_goals
    try subst_vars
    simp_wf
    try simp
    try omega

theorem emitPointer_spec (he : e.TagsDistinct) (n : Expr) (hn : n.nodes ⊆ e.nodes)
    {st st' : EmitState}
    (hrun : ((emitPointer n).run env).run st = ((), st')) :
    EmitRun env e n.tags st st' fun sc a seg => Yields (env.pointerCode sc a n) seg := by
  match n, hn, hrun with
  | .node tag span k, hn, hrun =>
    cases k
    case «variable» name =>
      simp only [emitPointer] at hrun
      obtain ⟨r, st₁, h₁, hrun⟩ := run_bind_eq hrun
      have hsymbol := variableSymbol_static he hn h₁
      rcases r with _ | s
      · simp only [pure_run] at hrun
        cases hrun
        exact (EmitRun.of_typing hsymbol).mono (List.Subset.refl _)
          fun _ _ _ ⟨⟨_, hnone, _⟩, _⟩ => by simp at hnone
      cases s with
      | «local» slot t | global address t =>
        simp only [push_run] at hrun
        cases hrun
        refine (hsymbol.then (EmitRun.push _)).mono (List.Subset.refl _) ?_
        rintro sc a seg ⟨⟨s, ⟨⟩, hs⟩, rfl⟩
        simp [EmitEnv.pointerCode, hs]
      | field offset t =>
        rw [emitThisField_run] at hrun
        cases hrun
        refine (hsymbol.then (EmitRun.thisField offset)).mono (List.Subset.refl _) ?_
        rintro sc a seg ⟨⟨s, ⟨⟩, hs⟩, rfl⟩
        simp [EmitEnv.pointerCode, hs]
      | function address t | method address t =>
        simp only [notAnLvalue, error_run] at hrun
        cases hrun
        exact hsymbol.then_error (.refl _ _)
    case member target name | arrow target name =>
      simp only [emitPointer] at hrun
      refine (emitMemberPointer_spec he _ hn hrun).mono (List.Subset.refl _) fun sc a seg h => ?_
      simpa [EmitEnv.pointerCode] using h
    case deref operand =>
      simp only [emitPointer] at hrun
      obtain ⟨t, st₁, h₁, hrun⟩ := run_bind_eq hrun
      have hpart : operand.nodes ⊆ ExprKind.nodes (.deref operand) := List.Subset.refl _
      refine ((typeOf_spec he _ hn h₁).then ((emitExpr_spec he operand (Expr.part_nodes hn hpart)
        hrun).part hpart)).mono (List.Subset.refl _) ?_
      rintro sc a seg ⟨ht, hseg⟩
      simpa [EmitEnv.pointerCode, ht] using hseg
    case error =>
      simp only [emitPointer, pure_run] at hrun
      cases hrun
      exact .of_pure fun _ => by simp [EmitEnv.pointerCode]
    all_goals
      simp only [emitPointer, notAnLvalue, error_run] at hrun
      cases hrun
      exact .of_error (.refl _ _)
termination_by 8 * sizeOf n + 1
decreasing_by
  all_goals
    try subst_vars
    simp_wf
    try simp
    try omega

theorem emitMemberPointer_spec (he : e.TagsDistinct) (n : Expr) (hn : n.nodes ⊆ e.nodes)
    {st st' : EmitState}
    (hrun : ((emitMemberPointer n).run env).run st = ((), st')) :
    EmitRun env e n.tags st st' fun sc a seg => Yields (env.memberPointerCode sc a n) seg := by
  match n, hn, hrun with
  | .node tag span k, hn, hrun =>
    cases k
    case member target name =>
      simp only [emitMemberPointer] at hrun
      obtain ⟨r, st₁, h₁, hrun⟩ := run_bind_eq hrun
      have hfield := fieldOf_spec he _ hn h₁
      rcases r with _ | ⟨offset, t⟩
      · simp only [pure_run] at hrun
        cases hrun
        exact (EmitRun.of_typing hfield).mono (List.Subset.refl _)
          fun _ _ _ ⟨⟨_, hsome⟩, _⟩ => by simp at hsome
      obtain ⟨_, st₂, h₂, hrun⟩ := run_bind_eq hrun
      have hpart : target.nodes ⊆ ExprKind.nodes (.member target name) := List.Subset.refl _
      have htarget : EmitRun env e (Expr.node tag span (.member target name)).tags st₁ st₂ _ :=
        (emitPointer_spec he target (Expr.part_nodes hn hpart) h₂).part hpart
      refine (hfield.then (htarget.seq (EmitRun.offset hrun))).mono (List.Subset.refl _) ?_
      rintro sc a seg ⟨⟨hf, -⟩, s₁, s₂, rfl, ⟨c, hc, rfl⟩, rfl⟩
      simp [EmitEnv.memberPointerCode, hf, hc]
    case arrow target name =>
      simp only [emitMemberPointer] at hrun
      obtain ⟨r, st₁, h₁, hrun⟩ := run_bind_eq hrun
      have hfield := fieldOf_spec he _ hn h₁
      rcases r with _ | ⟨offset, t⟩
      · simp only [pure_run] at hrun
        cases hrun
        exact (EmitRun.of_typing hfield).mono (List.Subset.refl _)
          fun _ _ _ ⟨⟨_, hsome⟩, _⟩ => by simp at hsome
      obtain ⟨_, st₂, h₂, hrun⟩ := run_bind_eq hrun
      have hpart : target.nodes ⊆ ExprKind.nodes (.arrow target name) := List.Subset.refl _
      have htarget : EmitRun env e (Expr.node tag span (.arrow target name)).tags st₁ st₂ _ :=
        (emitExpr_spec he target (Expr.part_nodes hn hpart) h₂).part hpart
      refine (hfield.then (htarget.seq (EmitRun.offset hrun))).mono (List.Subset.refl _) ?_
      rintro sc a seg ⟨⟨hf, -⟩, s₁, s₂, rfl, ⟨c, hc, rfl⟩, rfl⟩
      simp [EmitEnv.memberPointerCode, hf, hc]
    all_goals
      simp only [emitMemberPointer, pure_run] at hrun
      cases hrun
      exact .of_pure fun _ => by simp [EmitEnv.memberPointerCode]
termination_by 8 * sizeOf n
decreasing_by
  all_goals
    try subst_vars
    simp_wf
    try simp
    try omega

theorem emitArguments_spec (he : e.TagsDistinct) (args : List Expr) (ts : List CType)
    (ps : List Parameter)
    (hn : Expr.listNodes args ⊆ e.nodes) {st st' : EmitState}
    (hrun : ((emitArguments args ts ps).run env).run st = ((), st')) :
    EmitRun env e ((Expr.listNodes args).map Expr.tag) st st' fun sc a seg =>
      Yields (env.argumentsCode sc a args ts ps) seg := by
  match args, ts, ps, hn, hrun with
  | arg :: rest, t :: ts, p :: ps, hn, hrun =>
    simp only [emitArguments] at hrun
    obtain ⟨_, st₁, h₁, hrun⟩ := run_bind_eq hrun
    obtain ⟨_, st₂, h₂, hrun⟩ := run_bind_eq hrun
    have hhead : arg.nodes ⊆ Expr.listNodes (arg :: rest) := List.subset_append_left _ _
    have htail : Expr.listNodes rest ⊆ Expr.listNodes (arg :: rest) := List.subset_append_right _ _
    have harg := (emitExpr_spec he arg (List.Subset.trans hhead hn) h₁).mono (List.map_subset _ hhead)
      fun _ _ _ h => h
    have hrest := (emitArguments_spec he rest ts ps (List.Subset.trans htail hn) hrun).mono
      (List.map_subset _ htail) fun _ _ _ h => h
    refine (harg.seq ((emitCast_spec h₂).seq hrest)).mono (List.Subset.refl _) ?_
    rintro sc a seg ⟨s₁, s₂, rfl, ⟨c₁, hc₁, rfl⟩, s₃, s₄, rfl, hcast, ⟨c₂, hc₂, rfl⟩⟩
    rw [List.length_map] at hc₂
    simp [EmitEnv.argumentsCode, hc₁, hcast, hc₂]
  | [], _, _, _, hrun | _ :: _, [], _, _, hrun | _ :: _, _ :: _, [], _, hrun =>
    simp only [emitArguments, pure_run] at hrun
    cases hrun
    exact .of_pure fun _ => by simp [EmitEnv.argumentsCode]
termination_by 8 * sizeOf args
decreasing_by
  all_goals
    try subst_vars
    simp_wf
    try simp
    try omega

theorem emitCallee_spec (he : e.TagsDistinct) (f : Expr) (callee : Callee) (hn : f.nodes ⊆ e.nodes)
    {st st' : EmitState}
    (hrun : ((emitCallee f callee).run env).run st = ((), st')) :
    EmitRun env e f.tags st st' fun sc a seg => Yields (env.calleeCode sc a f callee) seg := by
  match f, hn, hrun with
  | .node tag span k, hn, hrun =>
  cases callee with
  | method receiver address =>
    cases receiver
    case this =>
      simp only [emitCallee, push_bind_run, pushAddress, push_run] at hrun
      cases hrun
      refine ((EmitRun.push _).seq (EmitRun.push _)).mono (List.nil_subset _) ?_
      rintro sc a seg ⟨s₁, s₂, rfl, rfl, rfl⟩
      simp [EmitEnv.calleeCode, Instr.functionAddress]
    case address =>
      cases k
      case member target name =>
        simp only [emitCallee] at hrun
        obtain ⟨_, st₁, h₁, hrun⟩ := run_bind_eq hrun
        simp only [pushAddress, push_run] at hrun
        cases hrun
        have hpart : target.nodes ⊆ ExprKind.nodes (.member target name) := List.Subset.refl _
        have htarget : EmitRun env e (Expr.node tag span (.member target name)).tags st st₁ _ :=
          (emitPointer_spec he target (Expr.part_nodes hn hpart) h₁).part hpart
        refine (htarget.seq (EmitRun.push _)).mono (List.Subset.refl _) ?_
        rintro sc a seg ⟨s₁, s₂, rfl, ⟨c, hc, rfl⟩, rfl⟩
        simp [EmitEnv.calleeCode, hc, Instr.functionAddress]
      all_goals
        simp only [emitCallee, pushAddress, push_run] at hrun
        cases hrun
        refine (EmitRun.push _).mono (List.nil_subset _) ?_
        rintro sc a seg rfl
        simp [EmitEnv.calleeCode, Instr.functionAddress]
    case pointer =>
      cases k
      case arrow target name =>
        simp only [emitCallee] at hrun
        obtain ⟨_, st₁, h₁, hrun⟩ := run_bind_eq hrun
        simp only [pushAddress, push_run] at hrun
        cases hrun
        have hpart : target.nodes ⊆ ExprKind.nodes (.arrow target name) := List.Subset.refl _
        have htarget : EmitRun env e (Expr.node tag span (.arrow target name)).tags st st₁ _ :=
          (emitExpr_spec he target (Expr.part_nodes hn hpart) h₁).part hpart
        refine (htarget.seq (EmitRun.push _)).mono (List.Subset.refl _) ?_
        rintro sc a seg ⟨s₁, s₂, rfl, ⟨c, hc, rfl⟩, rfl⟩
        simp [EmitEnv.calleeCode, hc, Instr.functionAddress]
      all_goals
        simp only [emitCallee, pushAddress, push_run] at hrun
        cases hrun
        refine (EmitRun.push _).mono (List.nil_subset _) ?_
        rintro sc a seg rfl
        simp [EmitEnv.calleeCode, Instr.functionAddress]
  | function address =>
    simp only [emitCallee, pushAddress, push_run] at hrun
    cases hrun
    refine (EmitRun.push _).mono (List.nil_subset _) ?_
    rintro sc a seg rfl
    simp [EmitEnv.calleeCode, Instr.functionAddress]
  | value =>
    simp only [emitCallee] at hrun
    exact (emitExpr_spec he _ hn hrun).mono (List.Subset.refl _) fun sc a seg h => by
      simpa [EmitEnv.calleeCode] using h
  | nothing =>
    simp only [emitCallee, pure_run] at hrun
    cases hrun
    exact .of_pure fun _ => by simp [EmitEnv.calleeCode]
termination_by 8 * sizeOf f + 3
decreasing_by
  all_goals
    try subst_vars
    simp_wf
    try simp
    try omega

end


end EmitM

end CStack
