import Mathlib
import CStack.Proofs.EmissionRuns
import CStack.Proofs.FunctionBodies

/-!
# The code of a statement, computed

`EmitEnv.stmtCode` computes the instructions that emitting a statement appends from the static
analysis alone, given the scope and the frame size it is emitted with and the index its first
instruction will have, together with the scope and the frame size it leaves: a local declaration
takes the next cells of the frame and is bound in the innermost scope, a block opens a scope of
its own and closes it, and the branches of an `if` or a `while` jump to absolute indices past
the code they skip. Each call instruction in it carries the function type its call site calls
its callee as, which is what `exprCode` gives each call of an expression.

A statement that emits without a diagnostic appends exactly this code and leaves this scope and
frame size (`EmitM.emitStmt_code`), from any state whose report is consistent and whose memo
holds nothing yet for the nodes of the statement's expressions.
-/

namespace CStack

/-! ### The expressions of a statement -/

mutual

/-- The expressions of a statement, in the order emission meets them. -/
def Stmt.exprs : Stmt → List Expr
  | .node _ k => k.exprs

/-- The expressions of a statement of this form, in the order emission meets them. -/
def StmtKind.exprs : StmtKind → List Expr
  | .expr e => [e]
  | .var _ _ init => init.toList
  | .ret value => value.toList
  | .ite c t none => c :: t.exprs
  | .ite c t (some e) => c :: (t.exprs ++ e.exprs)
  | .loop c body => c :: body.exprs
  | .block stmts => Stmt.listExprs stmts

/-- The expressions of statements, in order. -/
def Stmt.listExprs : List Stmt → List Expr
  | [] => []
  | s :: rest => s.exprs ++ Stmt.listExprs rest

end

namespace Stmt

/-- The tags of the nodes of a statement's expressions. -/
def tags (s : Stmt) : List Nat := s.exprs.flatMap Expr.tags

/-- The tags of the nodes of statements' expressions. -/
def listTags (stmts : List Stmt) : List Nat := (listExprs stmts).flatMap Expr.tags

/-- No node of a statement's expressions is an error placeholder. -/
def ErrorFree (s : Stmt) : Prop := ∀ e ∈ s.exprs, e.ErrorFree

/-- The nodes of a statement's expressions carry distinct tags. -/
def TagsDistinct (s : Stmt) : Prop := s.tags.Nodup

@[simp] theorem flatMap_exprs (s : Stmt) : s.exprs.flatMap Expr.tags = s.tags := rfl

theorem tags_node (span : Span) (k : StmtKind) :
    (Stmt.node span k).tags = k.exprs.flatMap Expr.tags := by
  simp only [tags, exprs]

theorem listTags_cons (s : Stmt) (rest : List Stmt) :
    listTags (s :: rest) = s.tags ++ listTags rest := by
  simp only [listTags, tags, listExprs, List.flatMap_append]

instance : DecidablePred ErrorFree := fun s => inferInstanceAs (Decidable (∀ e ∈ s.exprs, _))

instance : DecidablePred TagsDistinct := fun s => inferInstanceAs (Decidable s.tags.Nodup)

end Stmt

/-! ### The code -/

/-- The code of a statement, with the scope and the frame size it leaves. -/
structure StmtCode where
  code : List Annotated
  scope : Scope
  frame : Nat

open Annotated

namespace EmitEnv

variable (env : EmitEnv) (ret : CType)

/-- The code of a condition, which must not be a struct. -/
def conditionCode (sc : Scope) (start : Nat) (c : Expr) : Option (List Annotated) := do
  if (← env.staticType sc c).isStruct then none else env.exprCode sc start c

/-- The code of a value converted to a type, as a local's initial value or a returned value. -/
def convertedCode (sc : Scope) (start : Nat) (v : Expr) (target : CType) :
    Option (List Annotated) := do
  let t ← env.staticType sc v
  let code ← env.exprCode sc start v
  let cast ← env.castCode t target
  some (code ++ plain cast)

/-- The code of `return` in a function returning `ret`. -/
def returnCode (sc : Scope) (start : Nat) (value : Option Expr) : Option (List Annotated) :=
  value.elim (if ret.isVoid then some (plain [.ret]) else none) fun v =>
    if ret.isVoid then none else (env.convertedCode sc start v ret).map (· ++ plain [.ret])

/-- The type a local is declared with: the type written, or `int` standing in for one that does
not resolve. -/
def localType (type : TypeName) : CType :=
  (env.registry.resolve env.machine type).toOption.getD (CType.int env.machine)

/-- The code of a local declaration: the local takes the next cells of the frame and is bound in
the innermost scope, and its initial value, converted to its type, is stored in its cells. -/
def localCode (sc : Scope) (frame start : Nat) (name : String) (type : TypeName)
    (init : Option Expr) : Option StmtCode :=
  let t := env.localType type
  let sc' : Scope := ⟨sc.owner, bindInnermost [(name, ⟨frame, t⟩)] sc.locals⟩
  let frame' := frame + (env.localCells t).length
  init.elim (some ⟨[], sc', frame'⟩) fun i =>
    if t.isStruct then none
    else (env.convertedCode sc' start i t).map fun c => ⟨c ++ plain [.storeLocal frame], sc', frame'⟩

mutual

/-- The code of a statement in a function returning `ret`, emitted with the scope `sc` and a frame
of `frame` cells, whose first instruction has index `start`. -/
def stmtCode (sc : Scope) (frame start : Nat) : Stmt → Option StmtCode
  | .node _ (.block stmts) =>
    (stmtsCode ⟨sc.owner, [] :: sc.locals⟩ frame start stmts).map fun r =>
      ⟨r.code, ⟨r.scope.owner, r.scope.locals.tail⟩, r.frame⟩
  | .node _ (.expr e) =>
    if e.isError then some ⟨[], sc, frame⟩
    else (env.exprCode sc start e).map fun c => ⟨c ++ plain [.pop], sc, frame⟩
  | .node _ (.var name type init) => env.localCode sc frame start name type init
  | .node _ (.ret value) => (env.returnCode ret sc start value).map fun c => ⟨c, sc, frame⟩
  | .node _ (.ite c t none) => do
    let cc ← env.conditionCode sc start c
    let r ← stmtCode sc frame (start + cc.length + 1) t
    some ⟨cc ++ ⟨.branchIfFalse (start + cc.length + 1 + r.code.length), none⟩ :: r.code, r.scope,
      r.frame⟩
  | .node _ (.ite c t (some e)) => do
    let cc ← env.conditionCode sc start c
    let r ← stmtCode sc frame (start + cc.length + 1) t
    let r' ← stmtCode r.scope r.frame (start + cc.length + 1 + r.code.length + 1) e
    some ⟨cc ++ ⟨.branchIfFalse (start + cc.length + 1 + r.code.length + 1), none⟩ :: r.code ++
      ⟨.jump (start + cc.length + 1 + r.code.length + 1 + r'.code.length), none⟩ :: r'.code,
      r'.scope, r'.frame⟩
  | .node _ (.loop c body) => do
    let cc ← env.conditionCode sc start c
    let r ← stmtCode sc frame (start + cc.length + 1) body
    some ⟨cc ++ ⟨.branchIfFalse (start + cc.length + 1 + r.code.length + 1), none⟩ :: r.code ++
      [⟨.jump start, none⟩], r.scope, r.frame⟩
termination_by s => 2 * sizeOf s
decreasing_by
  all_goals
    simp_wf
    try simp
    try omega

/-- The code of statements in order, each laid out where the one before ends. -/
def stmtsCode (sc : Scope) (frame start : Nat) : List Stmt → Option StmtCode
  | [] => some ⟨[], sc, frame⟩
  | s :: rest => do
    let r ← stmtCode sc frame start s
    let r' ← stmtsCode r.scope r.frame (start + r.code.length) rest
    some ⟨r.code ++ r'.code, r'.scope, r'.frame⟩
termination_by stmts => 2 * sizeOf stmts
decreasing_by
  all_goals
    simp_wf
    try simp
    try omega

end

end EmitEnv

/-! ### Runs that append the code -/

namespace EmitState

/-- The state with an instruction appended to the function's code. -/
def pushed (st : EmitState) (i : Instr) : EmitState :=
  { st with function := { st.function with code := st.function.code.push i } }

/-- The state with the jump at index `at_` of the function's code pointed at `target`. -/
def patched (st : EmitState) (at_ target : Nat) : EmitState :=
  { st with function := { st.function with
    code := st.function.code.modify at_ (Instr.retarget target) } }

variable (st : EmitState) (i : Instr) (at_ target : Nat)

@[simp] theorem code_pushed : (st.pushed i).function.code = st.function.code.push i := rfl
@[simp] theorem memo_pushed : (st.pushed i).memo = st.memo := rfl
@[simp] theorem report_pushed : (st.pushed i).report = st.report := rfl
@[simp] theorem returnType_pushed : (st.pushed i).function.returnType = st.function.returnType :=
  rfl
@[simp] theorem scope_pushed : (st.pushed i).function.scope = st.function.scope := rfl
@[simp] theorem frame_pushed : (st.pushed i).function.frame = st.function.frame := rfl

@[simp] theorem code_patched :
    (st.patched at_ target).function.code = st.function.code.modify at_ (Instr.retarget target) :=
  rfl
@[simp] theorem memo_patched : (st.patched at_ target).memo = st.memo := rfl
@[simp] theorem report_patched : (st.patched at_ target).report = st.report := rfl
@[simp] theorem returnType_patched :
    (st.patched at_ target).function.returnType = st.function.returnType := rfl
@[simp] theorem scope_patched : (st.patched at_ target).function.scope = st.function.scope := rfl
@[simp] theorem frame_patched : (st.patched at_ target).function.frame = st.function.frame := rfl

end EmitState

theorem Array.modify_append_retarget (code : Array Instr) (xs ys : List Instr) (i : Instr)
    (target : Nat) :
    (code ++ (xs ++ i :: ys).toArray).modify (code.size + xs.length) (Instr.retarget target) =
      code ++ (xs ++ i.retarget target :: ys).toArray := by
  apply Array.ext'
  simp only [Array.toList_modify, Array.toList_append, ← Array.length_toList]
  rw [EmitM.List.modify_append_of_le (by simp), EmitM.List.modify_append_of_le (by simp)]
  simp

theorem Report.Extends.noErrors {r₁ r₂ : Report} (h : r₁.Extends r₂)
    (hno : r₂.hasErrors = false) : r₁.hasErrors = false := by
  cases h₁ : r₁.hasErrors
  · rfl
  · simp [h.2 h₁] at hno

theorem Memo.Fresh.left {m : Memo} {tags₁ tags₂ : List Nat} (h : m.Fresh (tags₁ ++ tags₂)) :
    m.Fresh tags₁ :=
  fun t ht => h t (List.mem_append_left _ ht)

theorem Memo.Fresh.right {m m₁ : Memo} {tags₁ tags₂ : List Nat} (h : m.Fresh (tags₁ ++ tags₂))
    (hw : m.Within tags₁ m₁) (hdisjoint : ∀ t ∈ tags₂, t ∉ tags₁) : m₁.Fresh tags₂ :=
  Memo.Fresh.of_within (fun t ht => h t (List.mem_append_right _ ht)) hw hdisjoint

namespace EmitM

open EmitState

variable {env : EmitEnv}

/-- What a run of emission from `st` to `st'` guarantees of the code it appends: it appended
instructions to the function, changed the memo only at `tags` and the report only by filing
diagnostics, and kept the function's return type. When it ends without errors, from a state whose
report is consistent and whose memo holds nothing for `tags`, `code` gives, for the scope, the
frame size and the code size it started from, the code it appended and the scope and frame size
it left. -/
def CodeRun (tags : List Nat) (code : Scope → Nat → Nat → Option StmtCode) (st st' : EmitState) :
    Prop :=
  ∃ seg : List Instr, st'.function.code = st.function.code ++ seg.toArray ∧
    st.memo.Within tags st'.memo ∧ st.report.Extends st'.report ∧
    st'.function.returnType = st.function.returnType ∧
    (st'.report.hasErrors = false → st.report.Consistent → st.memo.Fresh tags →
      ∃ r, code st.function.scope st.function.frame.size st.function.code.size = some r ∧
        seg = r.code.map instr ∧ r.scope = st'.function.scope ∧ r.frame = st'.function.frame.size)

namespace CodeRun

variable {tags tags₁ tags₂ : List Nat} {code code₁ code₂ : Scope → Nat → Nat → Option StmtCode}
  {st st₁ st' : EmitState}

theorem congr {code' : Scope → Nat → Nat → Option StmtCode} (h : CodeRun tags code st st')
    (hcode : code st.function.scope st.function.frame.size st.function.code.size =
      code' st.function.scope st.function.frame.size st.function.code.size) :
    CodeRun tags code' st st' := by
  obtain ⟨seg, happ, hmemo, hreport, hret, hok⟩ := h
  refine ⟨seg, happ, hmemo, hreport, hret, fun hno hc hfresh => ?_⟩
  rw [← hcode]
  exact hok hno hc hfresh

/-- Two runs one after the other, on disjoint tags: the code of the second is laid out where the
first ends, in the scope and the frame the first leaves. -/
theorem bind (h₁ : CodeRun tags₁ code₁ st st₁) (h₂ : CodeRun tags₂ code₂ st₁ st')
    (hdisjoint : ∀ t ∈ tags₂, t ∉ tags₁) :
    CodeRun (tags₁ ++ tags₂) (fun sc n a => do
      let r ← code₁ sc n a
      let r' ← code₂ r.scope r.frame (a + r.code.length)
      some ⟨r.code ++ r'.code, r'.scope, r'.frame⟩) st st' := by
  obtain ⟨seg₁, hcode₁, hmemo₁, hreport₁, hret₁, hok₁⟩ := h₁
  obtain ⟨seg₂, hcode₂, hmemo₂, hreport₂, hret₂, hok₂⟩ := h₂
  refine ⟨seg₁ ++ seg₂, by rw [hcode₂, hcode₁]; simp [Array.append_assoc],
    (hmemo₁.mono (List.subset_append_left _ _)).trans (hmemo₂.mono (List.subset_append_right _ _)),
    hreport₁.trans hreport₂, hret₂.trans hret₁, fun hno hc hfresh => ?_⟩
  -- no errors at the end means none in the middle, since reports only grow
  obtain ⟨r, hr, rfl, hscope, hframe⟩ :=
    hok₁ (Report.Extends.noErrors hreport₂ hno) hc (Memo.Fresh.left hfresh)
  obtain ⟨r', hr', rfl, hscope', hframe'⟩ :=
    hok₂ hno (hreport₁.1 hc) (Memo.Fresh.right hfresh hmemo₁ hdisjoint)
  have hsize : st.function.code.size + r.code.length = st₁.function.code.size := by
    simp [hcode₁]
  refine ⟨⟨r.code ++ r'.code, r'.scope, r'.frame⟩, ?_, by simp, hscope', hframe'⟩
  simp [hr, hscope, hframe, hsize, hr']

theorem of_emitRun {e : Expr} {f : Scope → Nat → Option (List Annotated)}
    (h : EmitRun env e e.tags st st' fun sc a seg => Yields (f sc a) seg) :
    CodeRun e.tags (fun sc n a => (f sc a).map fun c => ⟨c, sc, n⟩) st st' := by
  obtain ⟨seg, happ, hrun⟩ := h
  refine ⟨seg, by rw [happ.function], happ.memo, happ.report, by rw [happ.function],
    fun hno hc hfresh => ?_⟩
  obtain ⟨⟨c, hf, rfl⟩, -⟩ := hrun hno ⟨hfresh.agrees, hc⟩
  refine ⟨⟨c, st.function.scope, st.function.frame.size⟩, by simp [hf], rfl, ?_, by rw [happ.function]⟩
  rw [happ.function]
  rfl

theorem push (i : Instr) : CodeRun [] (fun sc n _ => some ⟨[⟨i, none⟩], sc, n⟩) st (st.pushed i) :=
  ⟨[i], by simp, .refl _ _, .refl _, rfl, fun _ _ _ => ⟨_, rfl, rfl, rfl, rfl⟩⟩

/-- A diagnostic filed leaves the report with errors, so the run guarantees any code. -/
theorem error (c : Code) (span : Span) (message : String) :
    CodeRun tags code st { st with report := st.report.error c span message } :=
  ⟨[], by simp, .refl _ _, Report.extends_error _ _ _, rfl, fun hno hc _ => by
    simp [Report.errorSince_error c span message hc] at hno⟩

theorem returnType (h : CodeRun tags code st st') :
    st'.function.returnType = st.function.returnType := by
  obtain ⟨_, _, _, _, hret, _⟩ := h
  exact hret

theorem nil : CodeRun tags (fun sc n _ => some ⟨[], sc, n⟩) st st :=
  ⟨[], by simp, .refl _ _, .refl _, rfl, fun _ _ _ => ⟨_, rfl, rfl, rfl, rfl⟩⟩

theorem congr_tags {tags' : List Nat} (h : CodeRun tags code st st') (htags : tags = tags') :
    CodeRun tags' code st st' := htags ▸ h

theorem scopes (g : List (List (String × LocalSymbol)) → List (List (String × LocalSymbol))) :
    CodeRun [] (fun sc n _ => some ⟨[], ⟨sc.owner, g sc.locals⟩, n⟩) st
      { st with function := { st.function with scopes := g st.function.scopes } } :=
  ⟨[], by simp, .refl _ _, .refl _, rfl, fun _ _ _ => ⟨_, rfl, rfl, rfl, rfl⟩⟩

variable {rt : CType} {span : Span} {c : Expr} {st₂ : EmitState}

/-- `if (c) t`: the condition's code, a branch, and the then-branch's code, with the branch
patched past the then-branch. -/
theorem ite {t : Stmt}
    (hc : CodeRun tags₁ (fun sc n a => (env.conditionCode sc a c).map fun cc => ⟨cc, sc, n⟩) st st₁)
    (ht : CodeRun tags₂ (fun sc n a => env.stmtCode rt sc n a t) (st₁.pushed (.branchIfFalse 0)) st₂)
    (hdisjoint : ∀ x ∈ tags₂, x ∉ tags₁) :
    CodeRun (tags₁ ++ tags₂) (fun sc n a => env.stmtCode rt sc n a (.node span (.ite c t none))) st
      (st₂.patched st₁.function.code.size st₂.function.code.size) := by
  obtain ⟨segc, hcodec, hmemoc, hreportc, hretc, hokc⟩ := hc
  obtain ⟨segt, hcodet, hmemot, hreportt, hrett, hokt⟩ := ht
  simp only [code_pushed, memo_pushed, report_pushed, returnType_pushed, scope_pushed,
    frame_pushed, Array.size_push] at hcodet hmemot hreportt hrett hokt
  have hsize₁ : st₁.function.code.size = st.function.code.size + segc.length := by simp [hcodec]
  have hcode : st₂.function.code =
      st.function.code ++ (segc ++ .branchIfFalse 0 :: segt).toArray := by
    rw [hcodet, hcodec]
    apply Array.ext'
    simp
  refine ⟨segc ++ .branchIfFalse st₂.function.code.size :: segt, ?_,
    (hmemoc.mono (List.subset_append_left _ _)).trans (hmemot.mono (List.subset_append_right _ _)),
    hreportc.trans hreportt, hrett.trans hretc, fun hno hcons hfresh => ?_⟩
  · rw [code_patched, hsize₁, hcode, Array.modify_append_retarget]
    rfl
  obtain ⟨rc, hrc, rfl, hscope₁, hframe₁⟩ :=
    hokc (Report.Extends.noErrors hreportt hno) hcons (Memo.Fresh.left hfresh)
  obtain ⟨cc, hcc, rfl⟩ := Option.map_eq_some_iff.mp hrc
  obtain ⟨r, hr, rfl, hscope, hframe⟩ :=
    hokt hno (hreportc.1 hcons) (Memo.Fresh.right hfresh hmemoc hdisjoint)
  have hsize₂ : st₂.function.code.size = st.function.code.size + cc.length + 1 + r.code.length := by
    simp [hcode]
    omega
  refine ⟨⟨cc ++ ⟨.branchIfFalse (st.function.code.size + cc.length + 1 + r.code.length), none⟩ ::
    r.code, r.scope, r.frame⟩, ?_, by simp [hsize₂], hscope, hframe⟩
  simp only [← hscope₁, ← hframe₁, hsize₁, List.length_map] at hr
  simp [EmitEnv.stmtCode, hcc, hr]

/-- `if (c) t else e`: as `if (c) t`, with a jump from the end of the then-branch past the
else-branch, and the branch patched to the else-branch. -/
theorem iteElse {t e : Stmt} {tags₃ : List Nat} {st₃ : EmitState}
    (hc : CodeRun tags₁ (fun sc n a => (env.conditionCode sc a c).map fun cc => ⟨cc, sc, n⟩) st st₁)
    (ht : CodeRun tags₂ (fun sc n a => env.stmtCode rt sc n a t) (st₁.pushed (.branchIfFalse 0)) st₂)
    (he : CodeRun tags₃ (fun sc n a => env.stmtCode rt sc n a e)
      ((st₂.pushed (.jump 0)).patched st₁.function.code.size (st₂.pushed (.jump 0)).function.code.size)
      st₃)
    (hdisjoint₂ : ∀ x ∈ tags₂, x ∉ tags₁) (hdisjoint₃ : ∀ x ∈ tags₃, x ∉ tags₁ ++ tags₂) :
    CodeRun (tags₁ ++ tags₂ ++ tags₃)
      (fun sc n a => env.stmtCode rt sc n a (.node span (.ite c t (some e)))) st
      (st₃.patched st₂.function.code.size st₃.function.code.size) := by
  obtain ⟨segc, hcodec, hmemoc, hreportc, hretc, hokc⟩ := hc
  obtain ⟨segt, hcodet, hmemot, hreportt, hrett, hokt⟩ := ht
  obtain ⟨sege, hcodee, hmemoe, hreporte, hrete, hoke⟩ := he
  simp only [code_pushed, memo_pushed, report_pushed, returnType_pushed, scope_pushed,
    frame_pushed, Array.size_push] at hcodet hmemot hreportt hrett hokt
  simp only [code_patched, code_pushed, memo_patched, memo_pushed, report_patched, report_pushed,
    returnType_patched, returnType_pushed, scope_patched, scope_pushed, frame_patched,
    frame_pushed, Array.size_modify, Array.size_push] at hcodee hmemoe hreporte hrete hoke
  have hsize₁ : st₁.function.code.size = st.function.code.size + segc.length := by simp [hcodec]
  have hcode₂ : st₂.function.code =
      st.function.code ++ (segc ++ .branchIfFalse 0 :: segt).toArray := by
    rw [hcodet, hcodec]
    apply Array.ext'
    simp
  have hsize₂ : st₂.function.code.size = st.function.code.size + segc.length + 1 + segt.length := by
    simp [hcode₂]
    omega
  -- the branch, patched to the else-branch, and the jump after the then-branch
  have hcode₃ : st₃.function.code = st.function.code ++
      ((segc ++ Instr.branchIfFalse (st₂.function.code.size + 1) :: segt) ++
        Instr.jump 0 :: sege).toArray := by
    rw [hcodee]
    generalize st₂.function.code.size + 1 = T
    rw [hcode₂, hsize₁, show (st.function.code ++ (segc ++ Instr.branchIfFalse 0 :: segt).toArray).push
      (Instr.jump 0) = st.function.code ++
        (segc ++ Instr.branchIfFalse 0 :: (segt ++ [Instr.jump 0])).toArray by
      apply Array.ext'; simp, Array.modify_append_retarget]
    apply Array.ext'
    simp [Instr.retarget]
  refine ⟨(segc ++ Instr.branchIfFalse (st₂.function.code.size + 1) :: segt) ++
    Instr.jump st₃.function.code.size :: sege, ?_,
    ((hmemoc.mono (List.subset_append_left _ _)).trans
      (hmemot.mono (List.subset_append_right _ _))).mono (List.subset_append_left _ _) |>.trans
      (hmemoe.mono (List.subset_append_right _ _)),
    (hreportc.trans hreportt).trans hreporte, by simp [hrete, hrett, hretc],
    fun hno hcons hfresh => ?_⟩
  · rw [code_patched, hcode₃]
    generalize st₂.function.code.size + 1 = T
    rw [hsize₂, show st.function.code.size + segc.length + 1 + segt.length =
      st.function.code.size + (segc ++ Instr.branchIfFalse T :: segt).length by simp; omega,
      Array.modify_append_retarget]
    rfl
  have hno₂ : st₂.report.hasErrors = false := Report.Extends.noErrors hreporte hno
  obtain ⟨rc, hrc, rfl, hscope₁, hframe₁⟩ :=
    hokc (Report.Extends.noErrors hreportt hno₂) hcons (Memo.Fresh.left (Memo.Fresh.left hfresh))
  obtain ⟨cc, hcc, rfl⟩ := Option.map_eq_some_iff.mp hrc
  obtain ⟨r, hr, rfl, hscope₂, hframe₂⟩ :=
    hokt hno₂ (hreportc.1 hcons) (Memo.Fresh.right (Memo.Fresh.left hfresh) hmemoc hdisjoint₂)
  obtain ⟨r', hr', rfl, hscope, hframe⟩ :=
    hoke hno (hreportt.1 (hreportc.1 hcons)) (Memo.Fresh.right hfresh
      ((hmemoc.mono (List.subset_append_left _ _)).trans (hmemot.mono (List.subset_append_right _ _)))
      hdisjoint₃)
  simp only [List.length_map] at hsize₂
  have hsize₃ : st₃.function.code.size =
      st.function.code.size + cc.length + 1 + r.code.length + 1 + r'.code.length := by
    simp [hcode₃]
    omega
  refine ⟨⟨cc ++ ⟨.branchIfFalse (st.function.code.size + cc.length + 1 + r.code.length + 1),
    none⟩ :: r.code ++ ⟨.jump (st.function.code.size + cc.length + 1 + r.code.length + 1 +
      r'.code.length), none⟩ :: r'.code, r'.scope, r'.frame⟩, ?_, by simp [hsize₂, hsize₃],
    hscope, hframe⟩
  simp only [← hscope₁, ← hframe₁, hsize₁, List.length_map] at hr
  simp only [← hscope₂, ← hframe₂, hsize₂] at hr'
  simp [EmitEnv.stmtCode, hcc, hr, hr']

/-- `while (c) body`: the condition's code, a branch, the body's code and a jump back to the
condition, with the branch patched past the jump. -/
theorem loop {body : Stmt}
    (hc : CodeRun tags₁ (fun sc n a => (env.conditionCode sc a c).map fun cc => ⟨cc, sc, n⟩) st st₁)
    (hb : CodeRun tags₂ (fun sc n a => env.stmtCode rt sc n a body) (st₁.pushed (.branchIfFalse 0))
      st₂)
    (hdisjoint : ∀ x ∈ tags₂, x ∉ tags₁) :
    CodeRun (tags₁ ++ tags₂) (fun sc n a => env.stmtCode rt sc n a (.node span (.loop c body))) st
      ((st₂.pushed (.jump st.function.code.size)).patched st₁.function.code.size
        (st₂.pushed (.jump st.function.code.size)).function.code.size) := by
  obtain ⟨segc, hcodec, hmemoc, hreportc, hretc, hokc⟩ := hc
  obtain ⟨segb, hcodeb, hmemob, hreportb, hretb, hokb⟩ := hb
  simp only [code_pushed, memo_pushed, report_pushed, returnType_pushed, scope_pushed,
    frame_pushed, Array.size_push] at hcodeb hmemob hreportb hretb hokb
  have hsize₁ : st₁.function.code.size = st.function.code.size + segc.length := by simp [hcodec]
  have hcode : (st₂.function.code.push (.jump st.function.code.size)) = st.function.code ++
      (segc ++ Instr.branchIfFalse 0 :: (segb ++ [Instr.jump st.function.code.size])).toArray := by
    rw [hcodeb, hcodec]
    apply Array.ext'
    simp
  refine ⟨segc ++ Instr.branchIfFalse (st₂.function.code.size + 1) ::
    (segb ++ [Instr.jump st.function.code.size]), ?_,
    (hmemoc.mono (List.subset_append_left _ _)).trans (hmemob.mono (List.subset_append_right _ _)),
    hreportc.trans hreportb, by simp [hretb, hretc], fun hno hcons hfresh => ?_⟩
  · rw [code_patched, show (st₂.pushed (Instr.jump st.function.code.size)).function.code.size =
      st₂.function.code.size + 1 by simp, code_pushed, hsize₁, hcode, Array.modify_append_retarget]
    rfl
  obtain ⟨rc, hrc, rfl, hscope₁, hframe₁⟩ :=
    hokc (Report.Extends.noErrors hreportb hno) hcons (Memo.Fresh.left hfresh)
  obtain ⟨cc, hcc, rfl⟩ := Option.map_eq_some_iff.mp hrc
  obtain ⟨r, hr, rfl, hscope, hframe⟩ :=
    hokb hno (hreportc.1 hcons) (Memo.Fresh.right hfresh hmemoc hdisjoint)
  have hsize₂ : st₂.function.code.size = st.function.code.size + cc.length + 1 + r.code.length := by
    simp [hcodeb, hcodec]
    omega
  refine ⟨⟨cc ++ ⟨.branchIfFalse (st.function.code.size + cc.length + 1 + r.code.length + 1),
    none⟩ :: r.code ++ [⟨.jump st.function.code.size, none⟩], r.scope, r.frame⟩, ?_,
    by simp [hsize₂], hscope, hframe⟩
  simp only [← hscope₁, ← hframe₁, hsize₁, List.length_map] at hr
  simp [EmitEnv.stmtCode, hcc, hr]

/-- A block: its statements' code, in a scope of their own that is closed after them. -/
theorem block {stmts : List Stmt}
    (h : CodeRun tags (fun sc n a => env.stmtsCode rt sc n a stmts)
      { st with function := { st.function with scopes := [] :: st.function.scopes } } st₁) :
    CodeRun tags (fun sc n a => env.stmtCode rt sc n a (.node span (.block stmts))) st
      { st₁ with function := { st₁.function with scopes := st₁.function.scopes.tail } } := by
  obtain ⟨seg, hcode, hmemo, hreport, hret, hok⟩ := h
  refine ⟨seg, hcode, hmemo, hreport, hret, fun hno hc hfresh => ?_⟩
  obtain ⟨r, hr, rfl, hscope, hframe⟩ := hok hno hc hfresh
  refine ⟨⟨r.code, ⟨r.scope.owner, r.scope.locals.tail⟩, r.frame⟩, ?_, rfl, ?_, hframe⟩
  · simp only [FunctionState.scope] at hr
    simp only [EmitEnv.stmtCode, FunctionState.scope, hr]
    rfl
  · rw [hscope]
    rfl

end CodeRun

section Statements

variable {st st' : EmitState}

theorem emitCondition_code {c : Expr} (hc : c.TagsDistinct)
    (hrun : ((emitCondition c).run env).run st = ((), st')) :
    CodeRun c.tags (fun sc n a => (env.conditionCode sc a c).map fun cc => ⟨cc, sc, n⟩) st st' := by
  unfold emitCondition at hrun
  obtain ⟨t, st₁, h₁, hrun⟩ := run_bind_eq hrun
  have htyping := typeOf_spec hc c (List.Subset.refl _) h₁
  have hemit : EmitRun env c c.tags st st' fun sc a seg => Yields (env.conditionCode sc a c) seg := by
    split at hrun
    · simp only [structValue, error_run] at hrun
      cases hrun
      exact htyping.then_error (.refl _ _)
    · rename_i hstruct
      refine (htyping.then (emitExpr_spec hc c (List.Subset.refl _) hrun)).mono
        (List.Subset.refl _) fun sc a seg ⟨ht, hseg⟩ => ?_
      simpa [EmitEnv.conditionCode, ht, hstruct] using hseg
  exact CodeRun.of_emitRun hemit

theorem converted_code {v : Expr} (hv : v.TagsDistinct) {target t : CType} {span : Span}
    {st₁ st₂ : EmitState} (h₁ : ((typeOf v).run env).run st = (t, st₁))
    (h₂ : ((emitExpr v).run env).run st₁ = ((), st₂))
    (h₃ : ((emitCast t target span).run env).run st₂ = ((), st')) :
    EmitRun env v v.tags st st' fun sc a seg => Yields (env.convertedCode sc a v target) seg := by
  refine ((typeOf_spec hv v (List.Subset.refl _) h₁).then
    ((emitExpr_spec hv v (List.Subset.refl _) h₂).seq (emitCast_spec h₃))).mono (List.Subset.refl _)
      fun sc a seg ⟨ht, seg₁, seg₂, hseg, ⟨c, hc, hseg₁⟩, hcast⟩ => ?_
  refine ⟨c ++ plain seg₂, by simp [EmitEnv.convertedCode, ht, hc, hcast], ?_⟩
  simp [hseg, hseg₁]

theorem nil_disjoint (tags : List Nat) : ∀ t ∈ ([] : List Nat), t ∉ tags :=
  fun _ h => absurd h List.not_mem_nil

theorem disjoint_nil (tags : List Nat) : ∀ t ∈ tags, t ∉ ([] : List Nat) :=
  fun _ _ h => absurd h List.not_mem_nil

/-- A return appends the code `returnCode` gives for the function's return type: the returned
value converted to it, and the return. -/
theorem emitReturn_code {span : Span} {value : Option Expr} (hv : ∀ v ∈ value, v.TagsDistinct)
    (hrun : ((emitReturn span value).run env).run st = ((), st')) :
    CodeRun (value.toList.flatMap Expr.tags)
      (fun sc n a => (env.returnCode st.function.returnType sc a value).map fun c => ⟨c, sc, n⟩)
      st st' := by
  unfold emitReturn at hrun
  simp only [run_bind, get_run, Id.pure_fst, Id.pure_snd] at hrun
  cases value with
  | some v =>
    dsimp only at hrun
    by_cases hvoid : st.function.returnType.isVoid = true
    · simp only [hvoid, ↓reduceIte, error_run] at hrun
      cases hrun
      exact CodeRun.error _ _ _
    · simp only [hvoid, Bool.false_eq_true, ↓reduceIte] at hrun
      obtain ⟨t, st₁, h₁, hrun⟩ := run_bind_eq hrun
      obtain ⟨_, st₂, h₂, hrun⟩ := run_bind_eq hrun
      obtain ⟨_, st₃, h₃, hrun⟩ := run_bind_eq hrun
      simp only [push_run] at hrun
      cases hrun
      -- the converted value is the result the return takes
      have hresult := (CodeRun.of_emitRun (converted_code (hv v rfl) h₁ h₂ h₃)).bind
        (CodeRun.push .ret) (nil_disjoint _)
      change CodeRun _ _ st (st₃.pushed .ret)
      refine (hresult.congr_tags (by simp)).congr ?_
      simp only [EmitEnv.returnCode, Option.elim, hvoid, Bool.false_eq_true, ↓reduceIte]
      cases env.convertedCode st.function.scope st.function.code.size v st.function.returnType <;>
        simp
  | none =>
    dsimp only at hrun
    by_cases hvoid : st.function.returnType.isVoid = true
    · simp only [hvoid, ↓reduceIte, push_run] at hrun
      cases hrun
      exact (CodeRun.push .ret).congr (by simp [EmitEnv.returnCode, hvoid])
    · simp only [hvoid, Bool.false_eq_true, ↓reduceIte, error_run] at hrun
      cases hrun
      exact CodeRun.error _ _ _

/-- A local declaration appends the code `localCode` gives: the local takes the next cells of the
frame, and its initial value, converted to its type, is stored in them. -/
theorem emitLocal_code {span : Span} {name : String} {type : TypeName} {init : Option Expr}
    (hi : ∀ i ∈ init, i.TagsDistinct)
    (hrun : ((emitLocal span name type init).run env).run st = ((), st')) :
    CodeRun (init.toList.flatMap Expr.tags) (fun sc n a => env.localCode sc n a name type init)
      st st' := by
  unfold emitLocal at hrun
  obtain ⟨t, st₁, h₁, hrun⟩ := run_bind_eq hrun
  obtain ⟨slot, st₂, h₂, hrun⟩ := run_bind_eq hrun
  -- the declaration appends nothing; the local takes the next cells of the frame
  obtain ⟨r₁, hresolve, hafter⟩ := resolveType_run env st type span
  rw [show (env.registry.resolve env.machine type).toOption.getD (CType.int env.machine) =
    env.localType type from rfl] at hresolve
  rw [hresolve, Prod.mk.injEq] at h₁
  obtain ⟨rfl, rfl⟩ := h₁
  obtain ⟨r₂, hdeclare, hextends⟩ := declareLocal_run env { st with report := r₁ } name
    (env.localType type) span
  rw [hdeclare, Prod.mk.injEq] at h₂
  obtain ⟨rfl, rfl⟩ := h₂
  have hdecl : CodeRun [] (fun sc n _ => some ⟨[], ⟨sc.owner,
      bindInnermost [(name, ⟨n, env.localType type⟩)] sc.locals⟩,
      n + (env.localCells (env.localType type)).length⟩) st
      { st with report := r₂, function := { st.function with
        frame := st.function.frame ++ (env.localCells (env.localType type)).toArray
        scopes := bindInnermost [(name, ⟨st.function.frame.size, env.localType type⟩)]
          st.function.scopes } } :=
    ⟨[], by simp, .refl _ _, hafter.extends.trans hextends, rfl,
      fun _ _ _ => ⟨_, rfl, rfl, rfl, by simp⟩⟩
  cases init with
  | none =>
    cases hrun
    exact hdecl.congr (by simp [EmitEnv.localCode])
  | some i =>
    dsimp only at hrun
    by_cases hstruct : (env.localType type).isStruct = true
    · -- a struct is not initialised by a value
      simp only [hstruct, ↓reduceIte, structValue, error_run] at hrun
      cases hrun
      refine ((hdecl.bind (CodeRun.error _ _ _ : CodeRun _ (fun _ _ _ => none) _ _)
        (disjoint_nil _)).congr_tags rfl).congr ?_
      simp [EmitEnv.localCode, hstruct]
    · simp only [hstruct, Bool.false_eq_true, ↓reduceIte] at hrun
      obtain ⟨it, st₃, h₃, hrun⟩ := run_bind_eq hrun
      obtain ⟨_, st₄, h₄, hrun⟩ := run_bind_eq hrun
      obtain ⟨_, st₅, h₅, hrun⟩ := run_bind_eq hrun
      simp only [push_run] at hrun
      cases hrun
      -- the converted value is stored in the local's cells
      have hinit := (CodeRun.of_emitRun (converted_code (hi i rfl) h₃ h₄ h₅)).bind
        (CodeRun.push (.storeLocal st.function.frame.size)) (nil_disjoint _)
      change CodeRun _ _ st (st₅.pushed (.storeLocal st.function.frame.size))
      refine ((hdecl.bind hinit (disjoint_nil _)).congr_tags (by simp)).congr ?_
      simp [EmitEnv.localCode, hstruct, Option.bind_assoc, Option.map_eq_bind]

theorem disjoint_of_nodup_append {l₁ l₂ : List Nat} (h : (l₁ ++ l₂).Nodup) : ∀ x ∈ l₂, x ∉ l₁ :=
  fun _ hx h₁ => List.disjoint_of_nodup_append h h₁ hx

theorem tagsDistinct_of_mem {o : Option Expr} (h : (o.toList.flatMap Expr.tags).Nodup) :
    ∀ e ∈ o, e.TagsDistinct := by
  rintro e rfl
  simpa [Expr.TagsDistinct] using h

mutual

/-- A statement emitted without a diagnostic appends the code `stmtCode` gives and leaves the
scope and the frame size it gives. -/
theorem emitStmt_code (s : Stmt) (hs : s.TagsDistinct) {rt : CType} {st st' : EmitState}
    (hrun : ((emitStmt s).run env).run st = ((), st')) (hrt : st.function.returnType = rt) :
    CodeRun s.tags (fun sc n a => env.stmtCode rt sc n a s) st st' := by
  subst hrt
  match s with
  | .node span (.block stmts) =>
    simp only [emitStmt] at hrun
    exact emitBlock_code span stmts
      (by simpa [Stmt.TagsDistinct, Stmt.tags_node, StmtKind.exprs, Stmt.listTags] using hs) hrun rfl
  | .node span (.expr e) =>
    rw [Stmt.TagsDistinct, Stmt.tags_node] at hs
    rw [Stmt.tags_node]
    simp only [emitStmt] at hrun
    by_cases herror : e.isError = true
    · simp only [herror, ↓reduceIte, pure_run] at hrun
      obtain ⟨-, rfl⟩ := hrun
      exact CodeRun.nil.congr (by simp [EmitEnv.stmtCode, herror])
    · simp only [herror, Bool.false_eq_true, ↓reduceIte] at hrun
      obtain ⟨⟨⟩, st₁, h₁, hrun⟩ := run_bind_eq hrun
      simp only [push_run] at hrun
      cases hrun
      have he : e.TagsDistinct := by simpa [StmtKind.exprs, Expr.TagsDistinct] using hs
      have hexpr := CodeRun.of_emitRun (emitExpr_spec he e (List.Subset.refl _) h₁)
      change CodeRun _ _ st (st₁.pushed .pop)
      refine ((hexpr.bind (CodeRun.push .pop) (nil_disjoint _)).congr_tags
        (by simp [StmtKind.exprs])).congr ?_
      simp [EmitEnv.stmtCode, herror, Option.bind_assoc, Option.map_eq_bind]
  | .node span (.var name type init) =>
    rw [Stmt.TagsDistinct, Stmt.tags_node] at hs
    rw [Stmt.tags_node]
    simp only [emitStmt] at hrun
    exact (emitLocal_code (tagsDistinct_of_mem hs) hrun).congr (by simp [EmitEnv.stmtCode])
  | .node span (.ret value) =>
    rw [Stmt.TagsDistinct, Stmt.tags_node] at hs
    rw [Stmt.tags_node]
    simp only [emitStmt] at hrun
    exact (emitReturn_code (tagsDistinct_of_mem hs) hrun).congr (by simp [EmitEnv.stmtCode])
  | .node span (.ite c t none) =>
    rw [Stmt.TagsDistinct, Stmt.tags_node] at hs
    rw [Stmt.tags_node]
    simp only [emitStmt] at hrun
    obtain ⟨⟨⟩, st₁, h₁, hrun⟩ := run_bind_eq hrun
    simp only [emit_bind_run] at hrun
    obtain ⟨_, st₂, h₂, hrun⟩ := run_bind_eq hrun
    simp only [nextIndex_bind_run, patch_run] at hrun
    cases hrun
    have hnd : (c.tags ++ t.tags).Nodup := by simpa [StmtKind.exprs] using hs
    have hc := emitCondition_code hnd.of_append_left h₁
    have ht := emitStmt_code t (List.Nodup.of_append_right hnd) h₂ hc.returnType
    exact (CodeRun.ite hc ht (disjoint_of_nodup_append hnd)).congr_tags
      (by simp [StmtKind.exprs])
  | .node span (.ite c t (some e)) =>
    rw [Stmt.TagsDistinct, Stmt.tags_node] at hs
    rw [Stmt.tags_node]
    simp only [emitStmt] at hrun
    obtain ⟨⟨⟩, st₁, h₁, hrun⟩ := run_bind_eq hrun
    simp only [emit_bind_run] at hrun
    obtain ⟨_, st₂, h₂, hrun⟩ := run_bind_eq hrun
    simp only [emit_bind_run, nextIndex_bind_run, patch_bind_run] at hrun
    obtain ⟨_, st₃, h₃, hrun⟩ := run_bind_eq hrun
    simp only [nextIndex_bind_run, patch_run] at hrun
    cases hrun
    have hnd : (c.tags ++ (t.tags ++ e.tags)).Nodup := by simpa [StmtKind.exprs] using hs
    have hte := List.Nodup.of_append_right hnd
    have hc := emitCondition_code hnd.of_append_left h₁
    have ht := emitStmt_code t hte.of_append_left h₂ hc.returnType
    have he := emitStmt_code e (List.Nodup.of_append_right hte) h₃
      (ht.returnType.trans hc.returnType)
    rw [← List.append_assoc] at hnd
    exact (CodeRun.iteElse hc ht he (disjoint_of_nodup_append hnd.of_append_left)
      (disjoint_of_nodup_append hnd)).congr_tags (by simp [StmtKind.exprs])
  | .node span (.loop c body) =>
    rw [Stmt.TagsDistinct, Stmt.tags_node] at hs
    rw [Stmt.tags_node]
    simp only [emitStmt, nextIndex_bind_run] at hrun
    obtain ⟨⟨⟩, st₁, h₁, hrun⟩ := run_bind_eq hrun
    simp only [emit_bind_run] at hrun
    obtain ⟨_, st₂, h₂, hrun⟩ := run_bind_eq hrun
    simp only [push_bind_run, nextIndex_bind_run, patch_run] at hrun
    cases hrun
    have hnd : (c.tags ++ body.tags).Nodup := by simpa [StmtKind.exprs] using hs
    have hc := emitCondition_code hnd.of_append_left h₁
    have hb := emitStmt_code body (List.Nodup.of_append_right hnd) h₂ hc.returnType
    exact (CodeRun.loop hc hb (disjoint_of_nodup_append hnd)).congr_tags
      (by simp [StmtKind.exprs])
termination_by 2 * sizeOf s
decreasing_by
  all_goals
    simp_wf
    try simp
    try omega

theorem emitBlock_code (span : Span) (stmts : List Stmt) (hs : (Stmt.listTags stmts).Nodup)
    {rt : CType} {st st' : EmitState} (hrun : ((emitBlock stmts).run env).run st = ((), st'))
    (hrt : st.function.returnType = rt) :
    CodeRun (Stmt.listTags stmts) (fun sc n a => env.stmtCode rt sc n a (.node span (.block stmts)))
      st st' := by
  unfold emitBlock at hrun
  obtain ⟨⟨⟩, st₁, hpush, hrest⟩ := run_bind_eq hrun
  obtain ⟨⟨⟩, st₂, hstmts, hpop⟩ := run_bind_eq hrest
  simp only [pushScope, modify_run] at hpush
  simp only [popScope, modify_run] at hpop
  cases hpush
  cases hpop
  exact CodeRun.block (emitStmts_code stmts hs hstmts hrt)
termination_by 2 * sizeOf stmts + 1
decreasing_by
  all_goals
    simp_wf
    try simp
    try omega

theorem emitStmts_code (stmts : List Stmt) (hs : (Stmt.listTags stmts).Nodup) {rt : CType}
    {st st' : EmitState} (hrun : ((emitStmts stmts).run env).run st = ((), st'))
    (hrt : st.function.returnType = rt) :
    CodeRun (Stmt.listTags stmts) (fun sc n a => env.stmtsCode rt sc n a stmts) st st' := by
  match stmts with
  | [] =>
    simp only [emitStmts, pure_run] at hrun
    obtain ⟨-, rfl⟩ := hrun
    exact CodeRun.nil.congr (by simp [EmitEnv.stmtsCode])
  | s :: rest =>
    rw [Stmt.listTags_cons] at hs ⊢
    simp only [emitStmts] at hrun
    obtain ⟨⟨⟩, st₁, h₁, hrun⟩ := run_bind_eq hrun
    have hfirst := emitStmt_code s hs.of_append_left h₁ hrt
    have hrest := emitStmts_code rest (List.Nodup.of_append_right hs) hrun (hfirst.returnType.trans hrt)
    exact (hfirst.bind hrest (disjoint_of_nodup_append hs)).congr (by simp [EmitEnv.stmtsCode])
termination_by 2 * sizeOf stmts
decreasing_by
  all_goals
    simp_wf
    try simp
    try omega

end

end Statements

end EmitM

end CStack
