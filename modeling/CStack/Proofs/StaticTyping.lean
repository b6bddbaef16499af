import Mathlib.Data.List.Nodup
import CStack.Proofs.Resolution

/-!
# The static type of an expression

`EmitEnv.staticType` is the type the typing pass gives an expression, as a function of the
environment and of the scope the expression is typed in, with `none` exactly where typing files a
diagnostic. Its companions give what a variable denotes, the field a member access selects and the
target a call reaches.

The typing pass computes each of these once per node and keeps it in the memo under the node's
tag. The memo *agrees* with the functions on an expression when each entry it holds for one of the
expression's nodes is what the functions give. When the nodes have tags of their own, typing a part
of the expression keeps that agreement and returns the static type, provided the run ends without
errors (`typeOf_spec` and its companions). A run of typing touches nothing but the memo entries of
the nodes it types and the report.
-/

namespace CStack

/-! ### Nodes and tags -/

mutual

/-- The nodes of an expression, itself first. -/
def Expr.nodes : Expr → List Expr
  | e@(.node _ _ k) => e :: k.nodes

/-- The nodes of the parts of an expression form. -/
def ExprKind.nodes : ExprKind → List Expr
  | .member target _ | .arrow target _ | .cast _ target | .unary _ target | .addressOf target
  | .deref target => target.nodes
  | .call f args => f.nodes ++ Expr.listNodes args
  | .binary _ l r | .logical _ l r | .assign l r => l.nodes ++ r.nodes
  | _ => []

/-- The nodes of a list of expressions. -/
def Expr.listNodes : List Expr → List Expr
  | [] => []
  | a :: rest => a.nodes ++ Expr.listNodes rest

end

namespace Expr

/-- The tags of the nodes. -/
def tags (e : Expr) : List Nat := e.nodes.map tag

/-- Every node has a tag of its own. -/
def TagsDistinct (e : Expr) : Prop := e.tags.Nodup

/-- No node is the error placeholder. -/
def ErrorFree (e : Expr) : Prop := ∀ n ∈ e.nodes, n.isError = false

instance : DecidablePred TagsDistinct := fun e => inferInstanceAs (Decidable e.tags.Nodup)

instance : DecidablePred ErrorFree :=
  fun e => inferInstanceAs (Decidable (∀ n ∈ e.nodes, n.isError = false))

theorem mem_nodes_self (e : Expr) : e ∈ e.nodes := by
  cases e
  exact List.mem_cons_self

theorem eq_of_tag_eq {e m n : Expr} (h : e.TagsDistinct) (hm : m ∈ e.nodes) (hn : n ∈ e.nodes)
    (htag : m.tag = n.tag) : m = n :=
  List.inj_on_of_nodup_map h hm hn htag

theorem tag_mem_tags {e n : Expr} (h : n ∈ e.nodes) : n.tag ∈ e.tags := List.mem_map_of_mem h

theorem tags_subset {m n : Expr} (h : m.nodes ⊆ n.nodes) : m.tags ⊆ n.tags := List.map_subset _ h

theorem part_nodes {e : Expr} {xs : List Expr} {tag : Nat} {span : Span} {k : ExprKind}
    (hn : (Expr.node tag span k).nodes ⊆ e.nodes) (h : xs ⊆ k.nodes) : xs ⊆ e.nodes :=
  fun _ hx => hn (List.mem_cons_of_mem _ (h hx))

theorem part_tags {xs : List Expr} {tag : Nat} {span : Span} {k : ExprKind} (h : xs ⊆ k.nodes) :
    xs.map Expr.tag ⊆ (Expr.node tag span k).tags :=
  List.map_subset _ fun _ hx => List.mem_cons_of_mem _ (h hx)

theorem singleton_tag_subset (n : Expr) : [n.tag] ⊆ n.tags :=
  List.cons_subset.mpr ⟨tag_mem_tags (mem_nodes_self n), List.nil_subset _⟩

end Expr

/-! ### Static typing -/

/-- The type of `*p` for an operand of a type: what a pointer points to, other than `void`, or
the function a function designator denotes. -/
def CType.derefType : CType → Option CType
  | .pointer inner => if inner.isVoid then none else some inner
  | .function f => some (.function f)
  | _ => none

namespace EmitEnv

variable (env : EmitEnv) (sc : Scope)

/-- The type of a binary operation on operands of two types, if the operator takes them:
comparisons give `int`. -/
def binaryType (op : BinaryOp) (lt rt : CType) : Option CType :=
  let plan := planBinary env.machine env.registry op lt rt
  if op.isComparison && !plan.isInvalid then some (CType.int env.machine)
  else
    match plan with
    | .arithmetic t | .shift t | .pointerOffset t _ _ => some t
    | .pointerCompare => some (CType.int env.machine)
    | .invalid => none

/-- The type of a call that reaches a target: the return type of the function it is called as,
or `int` when it cannot be called. -/
def callResult (o : Overload) : CType :=
  match o.type.callable? with
  | some ft => ft.ret
  | none => CType.int env.machine

mutual

/-- The type the typing pass gives an expression, `none` where it files a diagnostic. -/
def staticType : Expr → Option CType
  | .node _ _ (.integer v) => some (integerLiteralType v env.machine)
  | .node _ _ (.character _) => some (CType.char env.machine)
  | .node _ _ (.float _) => some (CType.double env.machine)
  | .node _ _ (.constant v) => some (constantType v env.machine)
  | .node _ _ (.variable name) => (env.nameSymbol sc name none).map Symbol.type
  | .node _ _ .this => sc.owner.map fun owner => .pointer (.struct owner)
  | e@(.node _ _ (.member _ _)) => (staticField e).map Prod.snd
  | e@(.node _ _ (.arrow _ _)) => (staticField e).map Prod.snd
  | e@(.node _ _ (.call f _)) =>
    if f.isError then some (CType.int env.machine) else (staticCall e).map env.callResult
  | .node _ _ (.cast ty operand) => do
    let target ← (env.registry.resolve env.machine ty).toOption
    let source ← staticType operand
    if source.castAllowed target then some target else none
  | .node _ _ (.unary op operand) => do
    let t ← staticType operand
    EmitM.unaryResult env.machine op t
  | .node _ _ (.binary op l r) => do
    let lt ← staticType l
    let rt ← staticType r
    env.binaryType op lt rt
  | .node _ _ (.logical _ l r) => do
    let lt ← staticType l
    let rt ← staticType r
    if lt.isScalar && rt.isScalar then some (CType.int env.machine) else none
  | .node _ _ (.assign target _) => staticType target
  | .node _ _ (.addressOf operand) => (staticType operand).map .pointer
  | .node _ _ (.deref operand) => (staticType operand).bind CType.derefType
  | .node _ _ .error => some (CType.int env.machine)
termination_by e => 8 * sizeOf e + 2
decreasing_by
  all_goals
    try subst_vars
    simp_wf
    try simp
    try omega

/-- The static types of a list of expressions. -/
def staticTypes : List Expr → Option (List CType)
  | [] => some []
  | a :: rest => do
    let t ← staticType a
    let ts ← staticTypes rest
    some (t :: ts)
termination_by es => 8 * sizeOf es
decreasing_by
  all_goals
    try subst_vars
    simp_wf
    try simp
    try omega

/-- The cell offset and type of the field a member access selects. -/
def staticField : Expr → Option (Nat × CType)
  | .node _ _ (.member target name) => do
    let t ← staticType target
    env.field t.asStruct? name
  | .node _ _ (.arrow target name) => do
    let t ← staticType target
    env.field (t.pointee?.bind CType.asStruct?) name
  | _ => none
termination_by e => 8 * sizeOf e + 1
decreasing_by
  all_goals
    try subst_vars
    simp_wf
    try simp
    try omega

/-- What a call node calls, given the static types of its arguments. -/
def staticCall : Expr → Option Overload
  | .node _ _ (.call f args) => do
    let ts ← staticTypes args
    staticCallee f ts
  | _ => none
termination_by e => 8 * sizeOf e + 1
decreasing_by
  all_goals
    try subst_vars
    simp_wf
    try simp
    try omega

/-- What a callee denotes, given the argument types of the call. -/
def staticCallee : Expr → List CType → Option Overload
  | .node _ _ (.member target name), args => do
    let t ← staticType target
    let owner ← t.asStruct?
    env.method owner name args .address
  | .node _ _ (.arrow target name), args => do
    let t ← staticType target
    let owner ← t.pointee?.bind CType.asStruct?
    env.method owner name args .pointer
  | .node _ _ (.variable name), args => do
    match ← env.nameSymbol sc name (some args) with
    | .function address t => some ⟨.function t, .function address⟩
    | .method address t => some ⟨.function t, .method .this address⟩
    | s => some (EmitM.Overload.ofValue s.type)
  | .node _ _ .error, _ => some ⟨CType.int env.machine, .nothing⟩
  | f, _ => (staticType f).map EmitM.Overload.ofValue
termination_by f _ => 8 * sizeOf f + 4
decreasing_by
  all_goals
    try subst_vars
    simp_wf
    try simp
    try omega

end

/-- What a variable node denotes. -/
def staticSymbol : Expr → Option Symbol
  | .node _ _ (.variable name) => env.nameSymbol sc name none
  | _ => none

end EmitEnv

/-! ### The memo agrees with the static analysis -/

namespace Memo

/-- The memo changed only at the given tags. -/
def Within (tags : List Nat) (m m' : Memo) : Prop :=
  ∀ t ∉ tags, m'.types[t]? = m.types[t]? ∧ m'.names[t]? = m.names[t]? ∧
    m'.fields[t]? = m.fields[t]? ∧ m'.calls[t]? = m.calls[t]?

/-- The memo holds nothing for the given tags. -/
def Fresh (m : Memo) (tags : List Nat) : Prop :=
  ∀ t ∈ tags, m.types[t]? = none ∧ m.names[t]? = none ∧ m.fields[t]? = none ∧ m.calls[t]? = none

variable {tags tags' : List Nat} {m m₁ m₂ : Memo}

theorem Within.refl (tags : List Nat) (m : Memo) : m.Within tags m :=
  fun _ _ => ⟨rfl, rfl, rfl, rfl⟩

theorem Within.trans (h₁ : m.Within tags m₁) (h₂ : m₁.Within tags m₂) : m.Within tags m₂ := by
  intro t ht
  obtain ⟨a₁, b₁, c₁, d₁⟩ := h₁ t ht
  obtain ⟨a₂, b₂, c₂, d₂⟩ := h₂ t ht
  exact ⟨a₂.trans a₁, b₂.trans b₁, c₂.trans c₁, d₂.trans d₁⟩

theorem Within.mono (h : m.Within tags m₁) (hsub : tags ⊆ tags') : m.Within tags' m₁ :=
  fun t ht => h t (fun hmem => ht (hsub hmem))

theorem within_insertType {tag : Nat} (h : tag ∈ tags) (t : CType) :
    m.Within tags { m with types := m.types.insert tag t } := by
  intro k hk
  refine ⟨?_, rfl, rfl, rfl⟩
  simp only [Std.HashMap.getElem?_insert, beq_iff_eq]
  rw [if_neg (fun (heq : tag = k) => hk (heq ▸ h))]

theorem within_insertName {tag : Nat} (h : tag ∈ tags) (r : Option Symbol) :
    m.Within tags { m with names := m.names.insert tag r } := by
  intro k hk
  refine ⟨rfl, ?_, rfl, rfl⟩
  simp only [Std.HashMap.getElem?_insert, beq_iff_eq]
  rw [if_neg (fun (heq : tag = k) => hk (heq ▸ h))]

theorem within_insertField {tag : Nat} (h : tag ∈ tags) (r : Option (Nat × CType)) :
    m.Within tags { m with fields := m.fields.insert tag r } := by
  intro k hk
  refine ⟨rfl, rfl, ?_, rfl⟩
  simp only [Std.HashMap.getElem?_insert, beq_iff_eq]
  rw [if_neg (fun (heq : tag = k) => hk (heq ▸ h))]

theorem within_insertCall {tag : Nat} (h : tag ∈ tags) (r : Option Overload) :
    m.Within tags { m with calls := m.calls.insert tag r } := by
  intro k hk
  refine ⟨rfl, rfl, rfl, ?_⟩
  simp only [Std.HashMap.getElem?_insert, beq_iff_eq]
  rw [if_neg (fun (heq : tag = k) => hk (heq ▸ h))]

theorem Fresh.of_within (h : m.Fresh tags) (hw : m.Within tags' m₁)
    (hdisjoint : ∀ t ∈ tags, t ∉ tags') : m₁.Fresh tags := by
  intro t ht
  obtain ⟨a, b, c, d⟩ := hw t (hdisjoint t ht)
  obtain ⟨a', b', c', d'⟩ := h t ht
  exact ⟨a.trans a', b.trans b', c.trans c', d.trans d'⟩

/-- Every entry the memo holds for a node of `e` records a successful analysis, and is what the
static analysis gives in the scope. -/
structure Agrees (env : EmitEnv) (sc : Scope) (m : Memo) (e : Expr) : Prop where
  types : ∀ n ∈ e.nodes, ∀ t, m.types[n.tag]? = some t → env.staticType sc n = some t
  names : ∀ n ∈ e.nodes, ∀ r, m.names[n.tag]? = some r →
    ∃ s, r = some s ∧ env.staticSymbol sc n = some s
  fields : ∀ n ∈ e.nodes, ∀ r, m.fields[n.tag]? = some r →
    ∃ f, r = some f ∧ env.staticField sc n = some f
  calls : ∀ n ∈ e.nodes, ∀ r, m.calls[n.tag]? = some r →
    ∃ o, r = some o ∧ env.staticCall sc n = some o

variable {env : EmitEnv} {sc : Scope} {e n : Expr}

theorem Fresh.agrees (h : m.Fresh e.tags) : m.Agrees env sc e where
  types n hn t ht := by simp [(h n.tag (Expr.tag_mem_tags hn)).1] at ht
  names n hn r hr := by simp [(h n.tag (Expr.tag_mem_tags hn)).2.1] at hr
  fields n hn r hr := by simp [(h n.tag (Expr.tag_mem_tags hn)).2.2.1] at hr
  calls n hn r hr := by simp [(h n.tag (Expr.tag_mem_tags hn)).2.2.2] at hr

section Insert

variable (he : e.TagsDistinct) (hn : n ∈ e.nodes)
include he hn

theorem eq_of_insert_hit {k : Expr} (hk : k ∈ e.nodes) (hhit : (n.tag == k.tag) = true) :
    k = n :=
  (Expr.eq_of_tag_eq he hn hk (beq_iff_eq.mp hhit)).symm

theorem Agrees.insertType (h : m.Agrees env sc e) {t : CType} (ht : env.staticType sc n = some t) :
    ({ m with types := m.types.insert n.tag t } : Memo).Agrees env sc e where
  types k hk t' hget := by
    rw [Std.HashMap.getElem?_insert] at hget
    split at hget
    · rename_i hhit
      cases eq_of_insert_hit he hn hk hhit
      exact hget ▸ ht
    · exact h.types k hk t' hget
  names := h.names
  fields := h.fields
  calls := h.calls

theorem Agrees.insertName (h : m.Agrees env sc e) {s : Symbol}
    (hs : env.staticSymbol sc n = some s) :
    ({ m with names := m.names.insert n.tag (some s) } : Memo).Agrees env sc e where
  types := h.types
  names k hk r hget := by
    rw [Std.HashMap.getElem?_insert] at hget
    split at hget
    · rename_i hhit
      cases eq_of_insert_hit he hn hk hhit
      exact ⟨s, (Option.some.inj hget).symm, hs⟩
    · exact h.names k hk r hget
  fields := h.fields
  calls := h.calls

theorem Agrees.insertField (h : m.Agrees env sc e) {f : Nat × CType}
    (hf : env.staticField sc n = some f) :
    ({ m with fields := m.fields.insert n.tag (some f) } : Memo).Agrees env sc e where
  types := h.types
  names := h.names
  fields k hk r hget := by
    rw [Std.HashMap.getElem?_insert] at hget
    split at hget
    · rename_i hhit
      cases eq_of_insert_hit he hn hk hhit
      exact ⟨f, (Option.some.inj hget).symm, hf⟩
    · exact h.fields k hk r hget
  calls := h.calls

theorem Agrees.insertCall (h : m.Agrees env sc e) {o : Overload}
    (ho : env.staticCall sc n = some o) :
    ({ m with calls := m.calls.insert n.tag (some o) } : Memo).Agrees env sc e where
  types := h.types
  names := h.names
  fields := h.fields
  calls k hk r hget := by
    rw [Std.HashMap.getElem?_insert] at hget
    split at hget
    · rename_i hhit
      cases eq_of_insert_hit he hn hk hhit
      exact ⟨o, (Option.some.inj hget).symm, ho⟩
    · exact h.calls k hk r hget

end Insert

end Memo

namespace EmitState

/-- `st'` is `st` after analysing nodes with the given tags: the function being emitted is as it
was, the memo changed only at those tags, and the report only by filing diagnostics. -/
structure Analysed (tags : List Nat) (st st' : EmitState) : Prop where
  function : st'.function = st.function
  memo : st.memo.Within tags st'.memo
  report : st.report.Extends st'.report

/-- The memo agrees with the static analysis of `e` in the function's scope, and the report is
consistent. -/
def Valid (env : EmitEnv) (e : Expr) (st : EmitState) : Prop :=
  st.memo.Agrees env st.function.scope e ∧ st.report.Consistent

variable {tags tags' : List Nat} {st st₁ st₂ : EmitState}

theorem Analysed.refl (tags : List Nat) (st : EmitState) : st.Analysed tags st :=
  ⟨rfl, .refl tags st.memo, .refl st.report⟩

theorem Analysed.trans (h₁ : st.Analysed tags st₁) (h₂ : st₁.Analysed tags st₂) :
    st.Analysed tags st₂ :=
  ⟨h₂.function.trans h₁.function, h₁.memo.trans h₂.memo, h₁.report.trans h₂.report⟩

theorem Analysed.mono (h : st.Analysed tags st₁) (hsub : tags ⊆ tags') : st.Analysed tags' st₁ :=
  ⟨h.function, h.memo.mono hsub, h.report⟩

theorem Analysed.hasErrors (h₁ : st.report.ErrorSince st₁.report) (h₂ : st₁.Analysed tags st₂)
    (hc : st.report.Consistent) : st₂.report.hasErrors = true :=
  (h₁.trans h₂.report) hc

end EmitState

end CStack
