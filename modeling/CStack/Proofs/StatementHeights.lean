import Mathlib
import CStack.Proofs.StackHeights
import CStack.Proofs.StatementCode

/-!
# The code of a statement leaves the stack as it found it

The heights of `StackHeights` carry over from expressions to statements. A condition leaves one
value, which the branch after it takes; the branches of an `if` and the body of a `while` start
and end at the height before the condition, which is also the height at each target of their
jumps; a local's initial value is stored and an expression statement's value popped; a return
takes its result, and nothing after it runs in the frame. So the code of a statement, run from any
height, ends at that height (`stmtCode_shifts`), in a scope that stays free of receivers: the
locals a statement declares have the types written for them, and no such type is called with a
receiver.
-/

namespace CStack

open Annotated

namespace Shifts

variable {rv : Bool} {a : Nat} {cc tc ec bc : List Annotated}

/-- A return takes the result, when the function returns one. Nothing runs after it in the frame,
so any height may follow it. -/
theorem ret {p : Nat} (hp : rv.toNat ≤ p) (q a : Nat) : Shifts rv [⟨.ret, none⟩] a p q := by
  intro D hD
  refine ⟨fun j => if j = a then D else D - p + q, Placed.single ⟨?_, trivial⟩, by simp, by simp⟩
  simp only [needs, if_pos]
  omega

/-- `if (c) t`: the condition leaves one value, which the branch takes; the then-branch and the
branch's target, past it, both start at the height before the condition. -/
theorem ite (hc : Shifts rv cc a 0 1) (ht : Shifts rv tc (a + cc.length + 1) 0 0) :
    Shifts rv (cc ++ ⟨.branchIfFalse (a + cc.length + 1 + tc.length), none⟩ :: tc) a 0 0 := by
  intro D _
  obtain ⟨dc, hcmap, hc0, hcend⟩ := hc D (Nat.zero_le D)
  obtain ⟨dt, htmap, ht0, htend⟩ := ht D (Nat.zero_le D)
  simp only [Nat.sub_zero, Nat.add_zero] at hcend htend
  simp only [StackMap, List.length_append, List.length_cons]
  set B := a + cc.length with hB
  refine ⟨fun i => if i ≤ B then dc i else dt i, ?_, by beta_reduce; rw [if_pos (by omega), hc0],
    ?_⟩
  · refine Placed.append ?_ (Fits.cons ⟨?_, ?_, ?_, ?_, ?_⟩ ?_) (b := B) rfl
    · exact Placed.of_stackMap hcmap le_rfl (by omega) fun j _ hj => by rw [if_pos hj]
    all_goals try simp only [needs, Instr.arity, le_refl, ↓reduceIte]
    · omega
    · omega
    · omega
    · rw [if_neg (by omega)]
      omega
    · rw [if_neg (by omega), ht0]
      omega
    · exact Placed.of_stackMap htmap (by omega) (by omega) fun j hj _ => by rw [if_neg (by omega)]
  · beta_reduce
    rw [if_neg (by omega), show a + (cc.length + (tc.length + 1)) = B + 1 + tc.length by omega,
      htend]
    omega

/-- `if (c) t else e`: as `if (c) t`, with a jump from the end of the then-branch past the
else-branch, which starts at the height before the condition too. -/
theorem iteElse (hc : Shifts rv cc a 0 1) (ht : Shifts rv tc (a + cc.length + 1) 0 0)
    (he : Shifts rv ec (a + cc.length + 1 + tc.length + 1) 0 0) :
    Shifts rv (cc ++ ⟨.branchIfFalse (a + cc.length + 1 + tc.length + 1), none⟩ :: tc ++
      ⟨.jump (a + cc.length + 1 + tc.length + 1 + ec.length), none⟩ :: ec) a 0 0 := by
  intro D _
  obtain ⟨dc, hcmap, hc0, hcend⟩ := hc D (Nat.zero_le D)
  obtain ⟨dt, htmap, ht0, htend⟩ := ht D (Nat.zero_le D)
  obtain ⟨de, hemap, he0, heend⟩ := he D (Nat.zero_le D)
  simp only [Nat.sub_zero, Nat.add_zero] at hcend htend heend
  simp only [StackMap, List.length_append, List.length_cons]
  -- the branch after the condition, and the jump after the then-branch
  set B := a + cc.length with hB
  set J := B + 1 + tc.length with hJ
  refine ⟨fun i => if i ≤ B then dc i else if i ≤ J then dt i else de i, ?_,
    by beta_reduce; rw [if_pos (by omega), hc0], ?_⟩
  · refine Placed.append (Placed.append ?_ (Fits.cons ⟨?_, ?_, ?_, ?_, ?_⟩ ?_) (b := B) rfl)
      (Fits.cons ⟨?_, ?_, ?_, ?_⟩ ?_) (b := J) (by simp; omega)
    · exact Placed.of_stackMap hcmap le_rfl (by omega) fun j _ hj => by rw [if_pos hj]
    all_goals try simp only [needs, Instr.arity, le_refl, ↓reduceIte]
    · omega
    · omega
    · omega
    · rw [if_neg (by omega), if_neg (by omega), he0]
      omega
    · rw [if_neg (by omega), if_pos (by omega), ht0]
      omega
    · exact Placed.of_stackMap htmap (by omega) (by omega) fun j hj hj' => by
        rw [if_neg (by omega), if_pos (by omega)]
    · omega
    · omega
    · omega
    · split_ifs <;> omega
    · exact Placed.of_stackMap hemap (by omega) (by omega) fun j hj _ => by
        rw [if_neg (by omega), if_neg (by omega)]
  · beta_reduce
    rw [if_neg (by omega), if_neg (by omega),
      show a + (cc.length + (tc.length + 1) + (ec.length + 1)) = J + 1 + ec.length by omega, heend]
    omega

/-- `while (c) body`: the condition leaves one value, which the branch takes; the body and the
branch's target, past the loop, start at the height before the condition, and the jump back to the
condition leaves the body at that height. -/
theorem loop (hc : Shifts rv cc a 0 1) (hb : Shifts rv bc (a + cc.length + 1) 0 0) :
    Shifts rv (cc ++ ⟨.branchIfFalse (a + cc.length + 1 + bc.length + 1), none⟩ :: bc ++
      [⟨.jump a, none⟩]) a 0 0 := by
  intro D _
  obtain ⟨dc, hcmap, hc0, hcend⟩ := hc D (Nat.zero_le D)
  obtain ⟨db, hbmap, hb0, hbend⟩ := hb D (Nat.zero_le D)
  simp only [Nat.sub_zero, Nat.add_zero] at hcend hbend
  simp only [StackMap, List.length_append, List.length_cons, List.length_nil]
  -- the branch after the condition, and the jump back after the body
  set B := a + cc.length with hB
  set J := B + 1 + bc.length with hJ
  refine ⟨fun i => if i ≤ B then dc i else if i ≤ J then db i else D, ?_,
    by beta_reduce; rw [if_pos (by omega), hc0], ?_⟩
  · refine Placed.append (Placed.append ?_ (Fits.cons ⟨?_, ?_, ?_, ?_, ?_⟩ ?_) (b := B) rfl)
      (Placed.single ⟨?_, ?_, ?_, ?_⟩) (b := J) (by simp; omega)
    · exact Placed.of_stackMap hcmap le_rfl (by omega) fun j _ hj => by rw [if_pos hj]
    all_goals try simp only [needs, Instr.arity, le_refl, ↓reduceIte]
    · omega
    · omega
    · omega
    · rw [if_neg (by omega), if_neg (by omega)]
      omega
    · rw [if_neg (by omega), if_pos (by omega), hb0]
      omega
    · exact Placed.of_stackMap hbmap (by omega) (by omega) fun j hj hj' => by
        rw [if_neg (by omega), if_pos (by omega)]
    · omega
    · omega
    · split_ifs <;> omega
  · beta_reduce
    rw [if_neg (by omega), if_neg (by omega)]
    omega

end Shifts

/-! ### Scopes free of receivers -/

namespace Scope.ReceiverFree

variable {owner : Option StructId} {scopes : List (List (String × LocalSymbol))}

theorem push (h : (Scope.mk owner scopes).ReceiverFree) : (Scope.mk owner ([] :: scopes)).ReceiverFree := by
  intro scope hscope b hb
  rcases List.mem_cons.mp hscope with rfl | hrest
  · cases hb
  · exact h scope hrest b hb

theorem pop (h : (Scope.mk owner scopes).ReceiverFree) : (Scope.mk owner scopes.tail).ReceiverFree :=
  fun scope hscope b hb => h scope (List.mem_of_mem_tail hscope) b hb

theorem bindInnermost (h : (Scope.mk owner scopes).ReceiverFree)
    {name : String} {l : LocalSymbol} (hl : l.type.receiverFree = true) :
    (Scope.mk owner (CStack.bindInnermost [(name, l)] scopes)).ReceiverFree := by
  cases scopes with
  | nil => exact h
  | cons scope rest =>
    intro scope' hscope' b hb
    simp only [CStack.bindInnermost_cons, List.singleton_append, List.mem_cons] at hscope'
    rcases hscope' with rfl | hrest
    · simp only [List.mem_cons] at hb
      rcases hb with rfl | hb
      · exact hl
      · exact h scope (List.mem_cons_self ..) b hb
    · exact h scope' (List.mem_cons_of_mem _ hrest) b hb

end Scope.ReceiverFree

/-- A local is declared with a type that gives no receiver: the type written resolves to one, or
`int` stands in for it. -/
theorem EmitEnv.receiverFree_localType (env : EmitEnv) (ty : TypeName) :
    (env.localType ty).receiverFree = true := by
  unfold EmitEnv.localType
  cases h : env.registry.resolve env.machine ty with
  | ok t => exact env.registry.receiverFree_resolve env.machine ty h
  | error => rfl


/-! ### Heights of statements -/

section Heights

variable {env : EmitEnv} (hW : env.Receivers) {sc : Scope} (hsc : sc.ReceiverFree) (rv : Bool)
  {start : Nat}
include hW hsc

theorem conditionCode_shifts {c : Expr} (hfree : c.ErrorFree) {cc : List Annotated}
    (h : env.conditionCode sc start c = some cc) : Shifts rv cc start 0 1 := by
  simp only [EmitEnv.conditionCode, Option.bind_eq_bind, Option.bind_eq_some_iff] at h
  obtain ⟨t, -, h⟩ := h
  split at h
  · cases h
  · exact exprCode_shifts hW hsc rv c hfree h

theorem convertedCode_shifts {v : Expr} (hfree : v.ErrorFree) {target : CType}
    {c : List Annotated} (h : env.convertedCode sc start v target = some c) :
    Shifts rv c start 0 1 := by
  simp only [EmitEnv.convertedCode, Option.bind_eq_bind, Option.bind_eq_some_iff,
    Option.some.injEq] at h
  obtain ⟨t, -, code, hcode, cast, hcast, rfl⟩ := h
  exact (exprCode_shifts hW hsc rv v hfree hcode).append (Shifts.cast hcast rv _) rfl le_rfl

/-- A return leaves the stack where it found it: the value it takes, converted to the return type,
is the function's result. -/
theorem returnCode_shifts (ret : CType) {value : Option Expr} (hfree : ∀ v ∈ value, v.ErrorFree)
    {c : List Annotated} (h : env.returnCode ret sc start value = some c) :
    Shifts (!ret.isVoid) c start 0 0 := by
  cases value with
  | none =>
    simp only [EmitEnv.returnCode, Option.elim_none, Option.ite_none_right_eq_some,
      Option.some.injEq] at h
    obtain ⟨hvoid, rfl⟩ := h
    exact Shifts.ret (by simp [hvoid]) 0 start
  | some v =>
    simp only [EmitEnv.returnCode, Option.elim_some, Option.ite_none_left_eq_some,
      Option.map_eq_some_iff] at h
    obtain ⟨-, code, hcode, rfl⟩ := h
    exact (convertedCode_shifts hW hsc _ (hfree v rfl) hcode).append
      (Shifts.ret (p := 1) (Bool.toNat_le _) 0 _) rfl le_rfl

/-- A local declaration leaves the stack where it found it and binds a local whose type gives no
receiver: its initial value, converted to that type, is stored in the local's cells. -/
theorem localCode_shifts {frame : Nat} {name : String} {type : TypeName} {init : Option Expr}
    (hfree : ∀ i ∈ init, i.ErrorFree) {r : StmtCode}
    (h : env.localCode sc frame start name type init = some r) :
    Shifts rv r.code start 0 0 ∧ r.scope.ReceiverFree := by
  have hsc' : (Scope.mk sc.owner (bindInnermost [(name, ⟨frame, env.localType type⟩)]
      sc.locals)).ReceiverFree :=
    Scope.ReceiverFree.bindInnermost hsc (env.receiverFree_localType type)
  cases init with
  | none =>
    simp only [EmitEnv.localCode, Option.elim_none, Option.some.injEq] at h
    subst h
    exact ⟨Shifts.nil rv start, hsc'⟩
  | some i =>
    simp only [EmitEnv.localCode, Option.elim_some, Option.ite_none_left_eq_some,
      Option.map_eq_some_iff] at h
    obtain ⟨-, c, hc, rfl⟩ := h
    exact ⟨(convertedCode_shifts hW hsc' rv (hfree i rfl) hc).append (Shifts.single rfl rv _) rfl
      le_rfl, hsc'⟩

end Heights

section Statements

variable {env : EmitEnv}

mutual

/-- The code of a statement leaves the stack where it found it, and the scope free of receivers. -/
theorem stmtCode_shifts (hW : env.Receivers) (ret : CType) (s : Stmt) (hfree : s.ErrorFree)
    {sc : Scope} (hsc : sc.ReceiverFree) {frame start : Nat} {r : StmtCode}
    (h : env.stmtCode ret sc frame start s = some r) :
    Shifts (!ret.isVoid) r.code start 0 0 ∧ r.scope.ReceiverFree := by
  match s with
  | .node span (.block stmts) =>
    simp only [EmitEnv.stmtCode, Option.map_eq_some_iff] at h
    obtain ⟨r', hr', rfl⟩ := h
    obtain ⟨hsh, hsc'⟩ := stmtsCode_shifts hW ret stmts hfree (Scope.ReceiverFree.push hsc) hr'
    exact ⟨hsh, Scope.ReceiverFree.pop hsc'⟩
  | .node span (.expr e) =>
    have he : e.ErrorFree := hfree e (List.mem_singleton_self e)
    by_cases herror : e.isError = true
    · simp only [EmitEnv.stmtCode, herror, ↓reduceIte, Option.some.injEq] at h
      subst h
      exact ⟨Shifts.nil _ start, hsc⟩
    · simp only [EmitEnv.stmtCode, herror, Bool.false_eq_true, ↓reduceIte,
        Option.map_eq_some_iff] at h
      obtain ⟨c, hc, rfl⟩ := h
      -- the value is popped
      exact ⟨(exprCode_shifts hW hsc _ e he hc).append (Shifts.single rfl _ _) rfl le_rfl, hsc⟩
  | .node span (.var name type init) =>
    simp only [EmitEnv.stmtCode] at h
    exact localCode_shifts hW hsc _ (fun i hi => hfree i (Option.mem_toList.mpr hi)) h
  | .node span (.ret value) =>
    simp only [EmitEnv.stmtCode, Option.map_eq_some_iff] at h
    obtain ⟨c, hc, rfl⟩ := h
    exact ⟨returnCode_shifts hW hsc ret (fun v hv => hfree v (Option.mem_toList.mpr hv)) hc, hsc⟩
  | .node span (.ite c t none) =>
    obtain ⟨hc, ht⟩ := List.forall_mem_cons.mp hfree
    simp only [EmitEnv.stmtCode, Option.bind_eq_bind, Option.bind_eq_some_iff,
      Option.some.injEq] at h
    obtain ⟨cc, hcc, rt, hrt, rfl⟩ := h
    obtain ⟨htsh, hsc'⟩ := stmtCode_shifts hW ret t ht hsc hrt
    exact ⟨Shifts.ite (conditionCode_shifts hW hsc _ hc hcc) htsh, hsc'⟩
  | .node span (.ite c t (some e)) =>
    obtain ⟨hc, hte⟩ := List.forall_mem_cons.mp hfree
    obtain ⟨ht, he⟩ := List.forall_mem_append.mp hte
    simp only [EmitEnv.stmtCode, Option.bind_eq_bind, Option.bind_eq_some_iff,
      Option.some.injEq] at h
    obtain ⟨cc, hcc, rt, hrt, re, hre, rfl⟩ := h
    obtain ⟨htsh, hsct⟩ := stmtCode_shifts hW ret t ht hsc hrt
    -- the else-branch is emitted in the scope the then-branch leaves
    obtain ⟨hesh, hsce⟩ := stmtCode_shifts hW ret e he hsct hre
    exact ⟨Shifts.iteElse (conditionCode_shifts hW hsc _ hc hcc) htsh hesh, hsce⟩
  | .node span (.loop c body) =>
    obtain ⟨hc, hb⟩ := List.forall_mem_cons.mp hfree
    simp only [EmitEnv.stmtCode, Option.bind_eq_bind, Option.bind_eq_some_iff,
      Option.some.injEq] at h
    obtain ⟨cc, hcc, rb, hrb, rfl⟩ := h
    obtain ⟨hbsh, hsc'⟩ := stmtCode_shifts hW ret body hb hsc hrb
    exact ⟨Shifts.loop (conditionCode_shifts hW hsc _ hc hcc) hbsh, hsc'⟩
termination_by sizeOf s

theorem stmtsCode_shifts (hW : env.Receivers) (ret : CType) (stmts : List Stmt)
    (hfree : ∀ e ∈ Stmt.listExprs stmts, e.ErrorFree) {sc : Scope} (hsc : sc.ReceiverFree)
    {frame start : Nat} {r : StmtCode} (h : env.stmtsCode ret sc frame start stmts = some r) :
    Shifts (!ret.isVoid) r.code start 0 0 ∧ r.scope.ReceiverFree := by
  match stmts with
  | [] =>
    simp only [EmitEnv.stmtsCode, Option.some.injEq] at h
    subst h
    exact ⟨Shifts.nil _ start, hsc⟩
  | s :: rest =>
    obtain ⟨hs, hrest⟩ := List.forall_mem_append.mp hfree
    simp only [EmitEnv.stmtsCode, Option.bind_eq_bind, Option.bind_eq_some_iff,
      Option.some.injEq] at h
    obtain ⟨r₁, h₁, r₂, h₂, rfl⟩ := h
    obtain ⟨hsh₁, hsc₁⟩ := stmtCode_shifts hW ret s hs hsc h₁
    obtain ⟨hsh₂, hsc₂⟩ := stmtsCode_shifts hW ret rest hrest hsc₁ h₂
    exact ⟨hsh₁.seq hsh₂ rfl, hsc₂⟩
termination_by sizeOf stmts

end

end Statements

end CStack
