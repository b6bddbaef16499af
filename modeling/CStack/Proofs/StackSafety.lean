import Mathlib
import CStack.Proofs.SegmentRuns
import CStack.Proofs.StatementHeights

/-!
# Emitted code keeps the stack discipline

An expression or a statement with no error placeholder that emits without an error appends the code
the static analysis computes for it (`EmitM.emitExpr_appendsExprCode`, `EmitM.emitStmt_appendsStmtCode`). That code
has heights that fit it and move any height by one for an expression and by none for a statement
(`exprCode_shifts`, `stmtCode_shifts`), so placed in a frame and run from any operand stack, with
every call reaching a function whose type agrees with its call site, it keeps the stack
discipline (`Shifts.stackDisciplined`): it never takes a value from below the stack it was entered
with, so never underflows, its jumps stay inside it or go just past its end, and control reaches
its end with one more value on the stack for an expression and as many for a statement.

What the emitter's states hold at a statement is assumed of the start state: the nodes carry
distinct tags, none of which the memo has seen yet, the report has its error flag set once
anything is filed, and no local is a value that is called with a receiver. So is what holds of
the environment the declarations build: only methods take receivers.
-/

namespace CStack

namespace EmitM

variable {env : EmitEnv} {st st' : EmitState}

/-- An expression that emits without an error appends the code computed for it. -/
theorem emitExpr_appendsExprCode {e : Expr} (he : e.TagsDistinct) (hfresh : st.memo.Fresh e.tags)
    (hc : st.report.Consistent) (hrun : ((emitExpr e).run env).run st = ((), st'))
    (hno : st'.report.hasErrors = false) :
    ∃ c, env.exprCode st.function.scope st.function.code.size e = some c ∧
      st'.function.code = st.function.code ++ (c.map Annotated.instr).toArray := by
  obtain ⟨seg, happ, hok⟩ := emitExpr_spec he e (List.Subset.refl _) hrun
  obtain ⟨⟨c, hcode, rfl⟩, -⟩ := hok hno ⟨hfresh.agrees, hc⟩
  exact ⟨c, hcode, by rw [happ.function]⟩

/-- A statement that emits without an error appends the code computed for it. -/
theorem emitStmt_appendsStmtCode {s : Stmt} (hs : s.TagsDistinct) (hfresh : st.memo.Fresh s.tags)
    (hc : st.report.Consistent) (hrun : ((emitStmt s).run env).run st = ((), st'))
    (hno : st'.report.hasErrors = false) :
    ∃ r, env.stmtCode st.function.returnType st.function.scope st.function.frame.size
        st.function.code.size s = some r ∧
      st'.function.code = st.function.code ++ (r.code.map Annotated.instr).toArray := by
  obtain ⟨seg, hcode, -, -, -, hok⟩ := emitStmt_code s hs hrun rfl
  obtain ⟨r, hr, rfl, -, -⟩ := hok hno hc hfresh
  exact ⟨r, hr, hcode⟩

end EmitM

/-- The code emitted for an expression or a statement with no error placeholder, emitted without
an error, is the code computed for it and keeps the stack discipline: entered over any stack, a
run of it never reaches below that stack, its jumps stay inside it or go just past its end, and
control reaches its end with one value more for an expression and none for a statement. A
statement's code returns a value when the function does. -/
theorem emittedCode_keepsStackDiscipline {env : EmitEnv} (hW : env.Receivers) :
    (∀ (e : Expr) (rv : Bool) (st st' : EmitState), e.ErrorFree → e.TagsDistinct →
      st.memo.Fresh e.tags → st.report.Consistent → st.function.scope.ReceiverFree →
      ((EmitM.emitExpr e).run env).run st = ((), st') → st'.report.hasErrors = false →
      ∃ c, env.exprCode st.function.scope st.function.code.size e = some c ∧
        st'.function.code = st.function.code ++ (c.map Annotated.instr).toArray ∧
        StackDisciplined rv c st.function.code.size 1) ∧
    (∀ (s : Stmt) (st st' : EmitState), s.ErrorFree → s.TagsDistinct → st.memo.Fresh s.tags →
      st.report.Consistent → st.function.scope.ReceiverFree →
      ((EmitM.emitStmt s).run env).run st = ((), st') → st'.report.hasErrors = false →
      ∃ r, env.stmtCode st.function.returnType st.function.scope st.function.frame.size
          st.function.code.size s = some r ∧
        st'.function.code = st.function.code ++ (r.code.map Annotated.instr).toArray ∧
        StackDisciplined (!st.function.returnType.isVoid) r.code st.function.code.size 0) := by
  constructor
  · intro e rv st st' hfree he hfresh hc hsc hrun hno
    obtain ⟨c, hcode, happ⟩ := EmitM.emitExpr_appendsExprCode he hfresh hc hrun hno
    exact ⟨c, hcode, happ, (exprCode_shifts hW hsc rv e hfree hcode).stackDisciplined⟩
  · intro s st st' hfree hs hfresh hc hsc hrun hno
    obtain ⟨r, hr, happ⟩ := EmitM.emitStmt_appendsStmtCode hs hfresh hc hrun hno
    exact ⟨r, hr, happ, (stmtCode_shifts hW _ s hfree hsc hr).1.stackDisciplined⟩

/-- `{ int x; return; }` at the start of a function returning `void`, with no structs and no
symbols declared. -/
theorem emittedCode_keepsStackDiscipline_localThenReturn :
    let env : EmitEnv := ⟨Machine.desktop, {}, {}⟩
    let st : EmitState := { report := {} }
    let s : Stmt := .node Span.none (.block [.node Span.none (.var "x" .int none),
      .node Span.none (.ret none)])
    let st' := (((EmitM.emitStmt s).run env).run st).2
    env.Receivers ∧ s.ErrorFree ∧ s.TagsDistinct ∧ st.memo.Fresh s.tags ∧
      st.report.Consistent ∧ st.function.scope.ReceiverFree ∧ st'.report.hasErrors = false ∧
      ∃ r, env.stmtCode .void st.function.scope 0 0 s = some r ∧
        st'.function.code = (r.code.map Annotated.instr).toArray ∧
        StackDisciplined false r.code 0 0 := by
  intro env st s st'
  have hW : env.Receivers :=
    { methods := fun _ _ h => by simp [env, Registry.get?] at h
      fields := fun _ _ h => by simp [env, Registry.get?] at h
      globals := fun _ _ h => by simp [env, SymbolTable.global?] at h
      functions := fun _ _ hf => by simp [env, SymbolTable.functionsNamed] at hf }
  have hfree : s.ErrorFree := by decide
  have hs : s.TagsDistinct := by decide
  have hfresh : st.memo.Fresh s.tags := fun _ ht => by
    simp [s, Stmt.tags, Stmt.exprs, StmtKind.exprs, Stmt.listExprs] at ht
  have hc : st.report.Consistent := fun h => absurd rfl h
  have hsc : st.function.scope.ReceiverFree := fun scope hscope b hb => by
    simp [st, FunctionState.scope] at hscope
    simp [hscope] at hb
  have hno : st'.report.hasErrors = false := by
    simp only [st', s, EmitM.emitStmt, EmitM.emitBlock, EmitM.emitStmts]
    decide
  obtain ⟨r, hr, hcode, hsafe⟩ :=
    (emittedCode_keepsStackDiscipline hW).2 s st st' hfree hs hfresh hc hsc rfl hno
  exact ⟨hW, hfree, hs, hfresh, hc, hsc, hno, r, hr, by rw [hcode]; simp [st], hsafe⟩

end CStack
