import CStack.Proofs.EmissionEffects

/-!
# Lexical scoping of locals

Only a braced block opens a scope. A local declaration binds its name in the innermost open
scope, where the binding stays until that scope is closed; the statements directly under an `if`
or a `while` are emitted in the enclosing scope, so what they declare outlives them.
`Stmt.declared` lists the names a statement leaves bound that way, and
`emitStmt_bindsInnermost` says that emitting a statement puts bindings of exactly those names in
front of the innermost scope and changes nothing else a name is resolved against: the owner and
the outer scopes stay, and a block's own locals are gone once it is emitted.

A name is then resolved after a statement as before it unless the statement declared it, and a
local just declared is what its name resolves to, ahead of outer locals, members of `this`,
globals and functions (`emitStmt_scoping`).
-/

namespace CStack

mutual

/-- The names a statement leaves bound in the scope it is emitted in, in order of declaration:
a local declaration's own name, and those of the statements directly under an `if` or a
`while`. What a braced block declares is bound in the block only. -/
def Stmt.declared : Stmt → List String
  | .node _ k => k.declared

/-- The names a statement of this form leaves bound in the scope it is emitted in. -/
def StmtKind.declared : StmtKind → List String
  | .var name _ _ => [name]
  | .ite _ t none => t.declared
  | .ite _ t (some e) => t.declared ++ e.declared
  | .loop _ body => body.declared
  | .expr _ | .ret _ | .block _ => []

end

/-- Local scopes, innermost first, with bindings put in front of the innermost one; with no scope
open nothing is bound. -/
def bindInnermost (added : List (String × LocalSymbol)) :
    List (List (String × LocalSymbol)) → List (List (String × LocalSymbol))
  | [] => []
  | scope :: rest => (added ++ scope) :: rest

@[simp] theorem bindInnermost_cons (added scope : List (String × LocalSymbol))
    (rest : List (List (String × LocalSymbol))) :
    bindInnermost added (scope :: rest) = (added ++ scope) :: rest := rfl

@[simp] theorem bindInnermost_nil (scopes : List (List (String × LocalSymbol))) :
    bindInnermost [] scopes = scopes := by
  cases scopes <;> rfl

@[simp] theorem bindInnermost_bindInnermost (added added' : List (String × LocalSymbol))
    (scopes : List (List (String × LocalSymbol))) :
    bindInnermost added' (bindInnermost added scopes) = bindInnermost (added' ++ added) scopes := by
  cases scopes <;> simp [bindInnermost]

theorem findSome?_lookup_bindInnermost {name : String} {added : List (String × LocalSymbol)}
    (h : name ∉ added.map Prod.fst) (scopes : List (List (String × LocalSymbol))) :
    (bindInnermost added scopes).findSome? (·.lookup name) = scopes.findSome? (·.lookup name) := by
  have hnone : added.lookup name = none := by
    rw [List.lookup_eq_none_iff]
    intro p hp
    have hne : name ≠ p.1 := fun heq => h (heq ▸ List.mem_map_of_mem hp)
    simpa using hne
  cases scopes with
  | nil => rfl
  | cons scope rest => simp [bindInnermost, List.findSome?_cons, List.lookup_append, hnone]

namespace EmitEnv

variable (env : EmitEnv)

theorem nameSymbol_bindInnermost {name : String} {added : List (String × LocalSymbol)}
    (h : name ∉ added.map Prod.fst) (owner : Option StructId)
    (scopes : List (List (String × LocalSymbol))) (args : Option (List CType)) :
    env.nameSymbol ⟨owner, bindInnermost added scopes⟩ name args =
      env.nameSymbol ⟨owner, scopes⟩ name args := by
  unfold nameSymbol
  rw [findSome?_lookup_bindInnermost h]

theorem nameSymbol_bindInnermost_self (name : String) (l : LocalSymbol) (owner : Option StructId)
    {scopes : List (List (String × LocalSymbol))} (hopen : scopes ≠ [])
    (args : Option (List CType)) :
    env.nameSymbol ⟨owner, bindInnermost [(name, l)] scopes⟩ name args = some (.local l.slot l.type) := by
  cases scopes with
  | nil => exact absurd rfl hopen
  | cons scope rest => simp [nameSymbol, bindInnermost]

end EmitEnv

namespace EmitM

theorem KeepsShape.scope_eq {α : Type} {x : EmitM α} (h : KeepsShape x) (env : EmitEnv)
    (st : EmitState) : (((x.run env).run st).2).function.scope = st.function.scope := by
  have hscope := congrArg FunctionState.scope (h env st)
  exact hscope

/-- Run from any state, `x` puts bindings of `names`, latest first, in front of the innermost
scope and leaves the owner and the outer scopes alone. -/
def BindsInnermost {α : Type} (names : List String) (x : EmitM α) : Prop :=
  ∀ env st, ∃ added : List (String × LocalSymbol), added.map Prod.fst = names ∧
    (((x.run env).run st).2).function.scope =
      ⟨st.function.owner, bindInnermost added st.function.scopes⟩

namespace BindsInnermost

variable {α β : Type} {x : EmitM α} {f : α → EmitM β} {names names' : List String}

theorem of_keepsShape (h : KeepsShape x) : BindsInnermost [] x := fun env st =>
  ⟨[], rfl, by rw [h.scope_eq, bindInnermost_nil]; rfl⟩

theorem bind (hx : BindsInnermost names x) (hf : ∀ a, BindsInnermost names' (f a)) :
    BindsInnermost (names' ++ names) (x >>= f) := fun env st => by
  obtain ⟨added, hnames, hscope⟩ := hx env st
  obtain ⟨added', hnames', hscope'⟩ := hf ((x.run env).run st).1 env ((x.run env).run st).2
  refine ⟨added' ++ added, by simp [hnames, hnames'], ?_⟩
  rw [run_bind, hscope']
  simp only [FunctionState.scope, Scope.mk.injEq] at hscope ⊢
  rw [hscope.1, hscope.2, bindInnermost_bindInnermost]
  exact ⟨rfl, rfl⟩

theorem keep_bind (hx : KeepsShape x) (hf : ∀ a, BindsInnermost names (f a)) :
    BindsInnermost names (x >>= f) := by
  simpa using bind (of_keepsShape hx) hf

theorem bind_keep (hx : BindsInnermost names x) (hf : ∀ a, KeepsShape (f a)) :
    BindsInnermost names (x >>= f) :=
  bind hx fun a => of_keepsShape (hf a)

end BindsInnermost

/-! ### Declaring a local -/

theorem localCells_run (env : EmitEnv) (st : EmitState) (t : CType) :
    ∃ cells, ((localCells t).run env).run st = (cells, st) := by
  unfold localCells
  simp only [run_bind, registry_run, StateT.run_pure, Id.pure_fst, Id.pure_snd]
  by_cases hempty : (env.registry.cellKinds t).isEmpty = true
  · simp only [hempty, ↓reduceIte]
    exact ⟨_, rfl⟩
  · simp only [hempty, Bool.false_eq_true, ↓reduceIte]
    exact ⟨_, rfl⟩

theorem declareLocal_scope (env : EmitEnv) (st : EmitState) (name : String) (t : CType)
    (span : Span) :
    (((declareLocal name t span).run env).run st).2.function.scope =
      ⟨st.function.owner, bindInnermost [(name, ⟨st.function.frame.size, t⟩)] st.function.scopes⟩ := by
  obtain ⟨report, memo, fname, ret, owner, code, frame, scopes⟩ := st
  unfold declareLocal
  -- a duplicate only files a diagnostic: the binding is made either way
  cases scopes with
  | nil =>
    obtain ⟨cells, hcells⟩ := localCells_run env ⟨report, memo, fname, ret, owner, code, frame, []⟩ t
    simp [hcells, FunctionState.scope, bindInnermost, -bind_pure_comp]
  | cons scope rest =>
    obtain ⟨cells, hcells⟩ :=
      localCells_run env ⟨report, memo, fname, ret, owner, code, frame, scope :: rest⟩ t
    by_cases hduplicate : (scope.lookup name).isSome = true <;>
      simp [hcells, hduplicate, FunctionState.scope, bindInnermost, -bind_pure_comp]

theorem emitLocal_scope (env : EmitEnv) (st : EmitState) (span : Span) (name : String)
    (type : TypeName) (init : Option Expr) :
    (((emitLocal span name type init).run env).run st).2.function.scope =
      ⟨st.function.owner, bindInnermost [(name, ⟨st.function.frame.size,
        (env.registry.resolve env.machine type).toOption.getD (CType.int env.machine)⟩)]
        st.function.scopes⟩ := by
  obtain ⟨r, hrun, -⟩ := resolveType_run env st type span
  unfold emitLocal
  rw [run_bind, hrun, run_bind, KeepsShape.scope_eq ?init, declareLocal_scope]
  case init =>
    cases init with
    | none => exact KeepsShape.pure _
    | some i =>
      dsimp only
      split
      · exact KeepsShape.bind (keepsShape_closed.reportsClosed.error _ _ _) fun _ =>
          KeepsShape.pure _
      · exact KeepsShape.bind (typeOf_closed keepsShape_closed.reportsClosed i) fun _ =>
          KeepsShape.bind (emitExpr_closed keepsShape_closed.reportsClosed i) fun _ =>
            KeepsShape.bind (keepsShape_closed.reportsClosed.cast _ _ _) fun _ => KeepsShape.push _

/-! ### Emitting statements -/

open BindsInnermost in
mutual

/-- Emitting a statement binds exactly the names it declares outside a block of its own, in
front of the innermost scope. -/
theorem emitStmt_bindsInnermost (s : Stmt) : BindsInnermost s.declared.reverse (emitStmt s) := by
  match s with
  | .node span k =>
    cases k with
    | expr e =>
      simp only [emitStmt, Stmt.declared, StmtKind.declared, List.reverse_nil]
      refine of_keepsShape ?_
      split
      · exact KeepsShape.pure _
      · exact KeepsShape.bind (emitExpr_closed keepsShape_closed.reportsClosed e) fun _ =>
          KeepsShape.push _
    | var name type init =>
      simp only [emitStmt, Stmt.declared, StmtKind.declared, List.reverse_singleton]
      exact fun env st => ⟨_, rfl, emitLocal_scope env st span name type init⟩
    | ret value =>
      simp only [emitStmt, Stmt.declared, StmtKind.declared, List.reverse_nil]
      exact of_keepsShape (emitReturn_closed keepsShape_closed.reportsClosed span value)
    | ite c t e =>
      have hc := emitCondition_closed keepsShape_closed.reportsClosed c
      cases e with
      | none =>
        simp only [emitStmt, Stmt.declared, StmtKind.declared]
        exact keep_bind hc fun _ => keep_bind (KeepsShape.emit _) fun _ =>
          bind_keep (emitStmt_bindsInnermost t) fun _ =>
            KeepsShape.bind KeepsShape.nextIndex fun _ => KeepsShape.patch _ _
      | some e =>
        simp only [emitStmt, Stmt.declared, StmtKind.declared, List.reverse_append]
        exact keep_bind hc fun _ => keep_bind (KeepsShape.emit _) fun _ =>
          (emitStmt_bindsInnermost t).bind fun _ => keep_bind (KeepsShape.emit _) fun _ =>
            keep_bind KeepsShape.nextIndex fun _ => keep_bind (KeepsShape.patch _ _) fun _ =>
              bind_keep (emitStmt_bindsInnermost e) fun _ =>
                KeepsShape.bind KeepsShape.nextIndex fun _ => KeepsShape.patch _ _
    | loop c body =>
      simp only [emitStmt, Stmt.declared, StmtKind.declared]
      exact keep_bind KeepsShape.nextIndex fun _ =>
        keep_bind (emitCondition_closed keepsShape_closed.reportsClosed c) fun _ =>
          keep_bind (KeepsShape.emit _) fun _ => bind_keep (emitStmt_bindsInnermost body) fun _ =>
            KeepsShape.bind (KeepsShape.push _) fun _ =>
              KeepsShape.bind KeepsShape.nextIndex fun _ => KeepsShape.patch _ _
    | block stmts =>
      simp only [emitStmt, Stmt.declared, StmtKind.declared, List.reverse_nil]
      exact emitBlock_bindsInnermost stmts
termination_by 2 * sizeOf s
decreasing_by
  all_goals
    simp_wf
    try simp
    try omega

theorem emitBlock_bindsInnermost (stmts : List Stmt) : BindsInnermost [] (emitBlock stmts) := by
  intro env st
  obtain ⟨added, -, hscope⟩ := emitStmts_bindsInnermost stmts env
    { st with function := { st.function with scopes := [] :: st.function.scopes } }
  simp only [FunctionState.scope, Scope.mk.injEq] at hscope
  refine ⟨[], rfl, ?_⟩
  simp only [emitBlock, pushScope, popScope, run_bind, modify_run, FunctionState.scope, hscope.1,
    hscope.2, bindInnermost_cons, List.append_nil, List.tail_cons, bindInnermost_nil]
termination_by 2 * sizeOf stmts + 1
decreasing_by
  all_goals
    simp_wf
    try simp
    try omega

theorem emitStmts_bindsInnermost (stmts : List Stmt) :
    BindsInnermost (stmts.flatMap Stmt.declared).reverse (emitStmts stmts) := by
  match stmts with
  | [] =>
    simp only [emitStmts, List.flatMap_nil, List.reverse_nil]
    exact of_keepsShape (KeepsShape.pure _)
  | s :: rest =>
    simp only [emitStmts, List.flatMap_cons, List.reverse_append]
    exact (emitStmt_bindsInnermost s).bind fun _ => emitStmts_bindsInnermost rest
termination_by 2 * sizeOf stmts
decreasing_by
  all_goals
    simp_wf
    try simp
    try omega

end

/-! ### What names resolve to after a statement -/

theorem resolveVariable_after_emitStmt (env : EmitEnv) (st : EmitState) {s : Stmt}
    {name : String} (h : name ∉ s.declared) (args : Option (List CType)) (span : Span) :
    (((resolveVariable name args span).run env).run (((emitStmt s).run env).run st).2).1 =
      (((resolveVariable name args span).run env).run st).1 := by
  obtain ⟨added, hnames, hscope⟩ := emitStmt_bindsInnermost s env st
  obtain ⟨r, hrun, -⟩ := resolveVariable_run env (((emitStmt s).run env).run st).2 name args span
  obtain ⟨r₀, hrun₀, -⟩ := resolveVariable_run env st name args span
  have hfresh : name ∉ added.map Prod.fst := by
    rw [hnames, List.mem_reverse]
    exact h
  rw [hrun, hrun₀, hscope]
  exact env.nameSymbol_bindInnermost hfresh _ _ _

theorem resolveVariable_after_declaration (env : EmitEnv) (st : EmitState)
    (hopen : st.function.scopes ≠ []) (span : Span) (name : String) (type : TypeName)
    (init : Option Expr) (args : Option (List CType)) (span' : Span) :
    (((resolveVariable name args span').run env).run
        (((emitStmt (.node span (.var name type init))).run env).run st).2).1 =
      some (.local st.function.frame.size
        ((env.registry.resolve env.machine type).toOption.getD (CType.int env.machine))) := by
  obtain ⟨r, hrun, -⟩ := resolveVariable_run env
    (((emitStmt (.node span (.var name type init))).run env).run st).2 name args span'
  rw [hrun]
  simp only [emitStmt]
  rw [emitLocal_scope]
  exact env.nameSymbol_bindInnermost_self name _ _ hopen args

/-- Locals are scoped by blocks. Emitting a statement puts bindings of the names it declares
outside a block of its own (`Stmt.declared`) in front of the innermost scope and leaves the owner
and the outer scopes alone, so a braced block leaves the scopes as it found them; every other
name resolves afterwards as before; and a local just declared, while a scope is open, is what
its name resolves to, ahead of outer locals, members of `this`, globals and functions. -/
theorem emitStmt_scoping (env : EmitEnv) (st : EmitState) :
    (∀ s : Stmt, ∃ added : List (String × LocalSymbol), added.map Prod.fst = s.declared.reverse ∧
      (((emitStmt s).run env).run st).2.function.scope =
        ⟨st.function.owner, bindInnermost added st.function.scopes⟩) ∧
    (∀ span stmts,
      (((emitStmt (.node span (.block stmts))).run env).run st).2.function.scope =
        st.function.scope) ∧
    (∀ (s : Stmt) name args span, name ∉ s.declared →
      (((resolveVariable name args span).run env).run (((emitStmt s).run env).run st).2).1 =
        (((resolveVariable name args span).run env).run st).1) ∧
    (st.function.scopes ≠ [] → ∀ span name type init args span',
      (((resolveVariable name args span').run env).run
          (((emitStmt (.node span (.var name type init))).run env).run st).2).1 =
        some (.local st.function.frame.size
          ((env.registry.resolve env.machine type).toOption.getD (CType.int env.machine)))) := by
  refine ⟨fun s => emitStmt_bindsInnermost s env st, fun span stmts => ?_,
    fun s name args span h => resolveVariable_after_emitStmt env st h args span,
    fun hopen span name type init args span' =>
      resolveVariable_after_declaration env st hopen span name type init args span'⟩
  obtain ⟨added, hnames, hscope⟩ := emitStmt_bindsInnermost (.node span (.block stmts)) env st
  have hnone : added = [] := by
    simpa [Stmt.declared, StmtKind.declared] using hnames
  rw [hscope, hnone, bindInnermost_nil]
  rfl

/-- With globals `x` and `y`, `y` resolves to its global after `if (1) int x = 7;`, and `x` to the
local in frame slot `0` after `int x;` at the start of a function. -/
theorem emitStmt_scoping_twoGlobals :
    let env : EmitEnv := ⟨Machine.desktop, {}, { globals :=
      [("x", ⟨1, CType.int Machine.desktop⟩), ("y", ⟨2, CType.int Machine.desktop⟩)] }⟩
    let st : EmitState := { report := {} }
    let s : Stmt := .node Span.none (.ite (.node 0 Span.none (.integer 1))
      (.node Span.none (.var "x" .int (some (.node 1 Span.none (.integer 7))))) none)
    "y" ∉ s.declared ∧
      (((resolveVariable "y" none Span.none).run env).run (((emitStmt s).run env).run st).2).1 =
        some (.global 2 (CType.int Machine.desktop)) ∧
      st.function.scopes ≠ [] ∧
      (((resolveVariable "x" none Span.none).run env).run
          (((emitStmt (.node Span.none (.var "x" .int none))).run env).run st).2).1 =
        some (.local 0 (CType.int Machine.desktop)) := by
  intro env st s
  have hy : "y" ∉ s.declared := by decide
  have hopen : st.function.scopes ≠ [] := by decide
  refine ⟨hy, ?_, hopen, ?_⟩
  · rw [(emitStmt_scoping env st).2.2.1 s "y" none Span.none hy]
    rfl
  · exact (emitStmt_scoping env st).2.2.2 hopen Span.none "x" .int none none Span.none

/-- A local declared directly as the branch of an `if` outlives the `if`: with a global `x` in
scope, `if (1) int x = 7;` turns what `x` resolves to from the global into the new local. -/
theorem ifBranch_declaration_outlivesStatement :
    let env : EmitEnv :=
      ⟨Machine.desktop, {}, { globals := [("x", ⟨1, CType.int Machine.desktop⟩)] }⟩
    let st : EmitState := { report := {} }
    let s : Stmt := .node Span.none (.ite (.node 0 Span.none (.integer 1))
      (.node Span.none (.var "x" .int (some (.node 1 Span.none (.integer 7))))) none)
    (((resolveVariable "x" none Span.none).run env).run (((emitStmt s).run env).run st).2).1 ≠
      (((resolveVariable "x" none Span.none).run env).run st).1 := by
  intro env st s
  obtain ⟨added, hnames, hscope⟩ := emitStmt_bindsInnermost s env st
  obtain ⟨⟨n, l⟩, rfl, hn⟩ := List.map_eq_singleton_iff.mp hnames
  obtain rfl : n = "x" := hn
  obtain ⟨r, hrun, -⟩ :=
    resolveVariable_run env (((emitStmt s).run env).run st).2 "x" none Span.none
  obtain ⟨r₀, hrun₀, -⟩ := resolveVariable_run env st "x" none Span.none
  have hbefore : env.nameSymbol st.function.scope "x" none =
      some (.global 1 (CType.int Machine.desktop)) := rfl
  rw [hrun, hrun₀, hscope, hbefore, env.nameSymbol_bindInnermost_self "x" l _ (by simp) none]
  simp

end EmitM

end CStack
