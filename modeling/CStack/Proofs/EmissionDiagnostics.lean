import Mathlib
import CStack.Proofs.Memoisation

/-!
# Emission reports each of its diagnostics once

Besides what its queries file, emission files diagnostics of its own, which no memo remembers: a
struct used as a value (E0020), a method named outside a call (E0119), an address taken of what
is no object (E0131), a callee that is no function (E2064) or that takes another number of
arguments (E1501), and a value with no implicit conversion to the type it is assigned or passed
as (E0030). What keeps one of them from being reported twice is that emission reaches each node
once.

Each of these diagnostics stands at a `Site`: the node's own step, or the conversion of the
node's value to the type its parent expects. Once the memo answers every query emission makes
about an expression (`Memo.Covers`), queries file nothing and leave the state as it was, and what
emission does is read off the memo: `EmitEnv.valueDiagnostics` and `EmitEnv.pointerDiagnostics`
list, in order, the codes and sites of what emitting the expression as a value or as an address
files, and a run files exactly these, each at its site's span (`emitExpr_files`). Each list uses
the sites of the expression's nodes at most once (`valueDiagnostics_subperm`); the conversion of
the root is its parent's. When the nodes have tags of their own, no site is used twice
(`Expr.nodup_of_subperm_innerSites`). Together with the accounting of the queries in `Memoisation`, this is
`diagnostics_reportedOnce`.
-/

namespace CStack

/-- Where an emission-time diagnostic stands: at a node's own step, or at the conversion of the
node's value to the type its parent expects. -/
inductive Site where
  | own (node : Expr)
  | conversion (node : Expr)

namespace Site

/-- The node a site is at. -/
def node : Site → Expr
  | .own y | .conversion y => y

/-- The code and span of diagnostics filed at sites. -/
def filed (ds : List (Code × Site)) : List (Code × Option Span) :=
  ds.map fun d => (d.1, some d.2.node.span)

@[simp] theorem filed_nil : filed [] = [] := rfl

@[simp] theorem filed_append (ds ds' : List (Code × Site)) : filed (ds ++ ds') = filed ds ++ filed ds' :=
  List.map_append

end Site

/-- The configuration that keeps every diagnostic: no limit and no deduplication. -/
def ReportConfig.keepAll : ReportConfig := { errorLimit := 0, deduplicate := false }

namespace Report

/-- The code and primary span of each kept diagnostic, in order. -/
def filed (r : Report) : List (Code × Option Span) :=
  r.diagnostics.toList.map fun d => (d.code, d.primarySpan?)

theorem error_of_keepAll {r : Report} (hr : r.config = .keepAll) (code : Code) (span : Span)
    (message : String) :
    r.error code span message =
      { r with
        errorCount := r.errorCount + 1
        diagnostics := r.diagnostics.push (Diagnostic.atSpan code span message) } := by
  simp [error, add, accept, hr, ReportConfig.keepAll]

end Report

namespace Expr

/-- The facts emission asks about a node: its type, and the symbol, field or target its form
names. -/
def queries : Expr → List Fact
  | .node _ _ (.variable _) => [.type, .name]
  | .node _ _ (.member _ _) | .node _ _ (.arrow _ _) => [.type, .field]
  | .node _ _ (.call _ _) => [.type, .call]
  | _ => [.type]

theorem type_mem_queries (y : Expr) : Fact.type ∈ y.queries := by
  cases y with
  | node _ _ k => cases k <;> simp [queries]

/-- The two sites of a node. -/
def sites (y : Expr) : List Site := [.own y, .conversion y]

/-- The sites of the nodes of an expression but the conversion of its root, which is the
parent's. -/
def innerSites (n : Expr) : List Site := .own n :: n.kind.nodes.flatMap sites

theorem flatMap_sites_nodes (n : Expr) :
    n.nodes.flatMap sites = .own n :: .conversion n :: n.kind.nodes.flatMap sites := by
  rw [nodes_eq]
  rfl

theorem innerSites_sublist (n : Expr) : n.innerSites.Sublist (n.nodes.flatMap sites) := by
  rw [flatMap_sites_nodes]
  exact .cons_cons _ (.cons _ (.refl _))

theorem lower_sublist_innerSites (n : Expr) : (n.kind.nodes.flatMap sites).Sublist n.innerSites :=
  .cons _ (.refl _)

theorem innerSites_append_conversion (n : Expr) :
    (n.innerSites ++ [Site.conversion n]).Subperm (n.nodes.flatMap sites) := by
  rw [flatMap_sites_nodes, innerSites, List.cons_append]
  exact ((List.perm_append_singleton _ _).cons _).subperm

theorem own_subperm_innerSites (n : Expr) : [Site.own n].Subperm n.innerSites :=
  (List.singleton_sublist.mpr List.mem_cons_self).subperm

theorem subperm_nodes_of_innerSites {L : List Site} {c : Expr} (h : L.Subperm c.innerSites) :
    L.Subperm (c.nodes.flatMap sites) :=
  h.trans c.innerSites_sublist.subperm

theorem subperm_innerSites_of_lower {L : List Site} {n : Expr}
    (h : L.Subperm (n.kind.nodes.flatMap sites)) : L.Subperm n.innerSites :=
  h.trans n.lower_sublist_innerSites.subperm

theorem converted_subperm {L C : List Site} {y : Expr} (hL : L.Subperm y.innerSites)
    (hC : C.Subperm [Site.conversion y]) : (L ++ C).Subperm (y.nodes.flatMap sites) :=
  (hL.append hC).trans y.innerSites_append_conversion

theorem append_subperm_sites {L R : List Site} {xs ys : List Expr} (hl : L.Subperm (xs.flatMap sites))
    (hr : R.Subperm (ys.flatMap sites)) : (L ++ R).Subperm ((xs ++ ys).flatMap sites) := by
  rw [List.flatMap_append]
  exact hl.append hr

end Expr

namespace Memo

/-- The memo answers every query emission makes about a list of nodes. -/
def Covers (m : Memo) (ys : List Expr) : Prop := ∀ y ∈ ys, ∀ φ ∈ y.queries, m.knows φ y.tag = true

/-- The type the memo records for a node. -/
def typeAt (m : Memo) (y : Expr) : CType := m.types[y.tag]?.getD default

variable {m : Memo} {ys zs : List Expr}

theorem Covers.mono (h : m.Covers ys) (hsub : zs ⊆ ys) : m.Covers zs := fun y hy => h y (hsub hy)

/-- What covers a node covers what stands below it. -/
theorem Covers.lower {n : Expr} (h : m.Covers n.nodes) (hsub : zs ⊆ n.kind.nodes) : m.Covers zs :=
  h.mono fun y hy => by
    rw [Expr.nodes_eq]
    exact List.mem_cons_of_mem _ (hsub hy)

theorem Covers.args {a : Expr} {rest : List Expr} (h : m.Covers (Expr.listNodes (a :: rest))) :
    m.Covers a.nodes ∧ m.Covers (Expr.listNodes rest) :=
  have h' : m.Covers (a.nodes ++ Expr.listNodes rest) := h
  ⟨h'.mono (List.subset_append_left _ _), h'.mono (List.subset_append_right _ _)⟩

theorem Covers.lookup {β : Type} {φ : Fact} {y : Expr} {lookup : Memo → Option β}
    {record : Memo → β → Memo} (hr : EmitM.Records φ y.tag lookup record) (h : m.Covers ys)
    (hy : y ∈ ys) (hφ : φ ∈ y.queries) : ∃ v, lookup m = some v :=
  Option.isSome_iff_exists.mp ((hr.1 m).symm.trans (h y hy φ hφ))

theorem Covers.type (h : m.Covers ys) {y : Expr} (hy : y ∈ ys) : m.types[y.tag]? = some (m.typeAt y) := by
  obtain ⟨t, ht⟩ := h.lookup (EmitM.records_types y.tag) hy (Expr.type_mem_queries y)
  simp [typeAt, ht]

end Memo

/-- The conversion of a node's value of type `source` to `target`, as `emitCast` makes it: one
diagnostic at the conversion when there is no implicit one. -/
def castDiagnostics (source target : CType) (y : Expr) : List (Code × Site) :=
  if source.score target == 0 then [(.e0030, .conversion y)] else []

theorem castDiagnostics_subperm (source target : CType) (y : Expr) :
    ((castDiagnostics source target y).map Prod.snd).Subperm [Site.conversion y] := by
  unfold castDiagnostics
  split
  · exact List.Subperm.refl _
  · exact List.nil_subperm

namespace EmitEnv

variable (env : EmitEnv) (m : Memo)

mutual

/-- The diagnostics emitting the value of an expression files, with their codes and sites, once
the memo answers every query. -/
def valueDiagnostics : Expr → List (Code × Site)
  | e@(.node tag _ (.variable _)) =>
    match m.names[tag]? with
    | some (some s) =>
      if s.type.isStruct then [(.e0020, .own e)]
      else
        match s with
        | .method _ _ => [(.e0119, .own e)]
        | _ => []
    | _ => []
  | e@(.node tag _ (.member _ _)) | e@(.node tag _ (.arrow _ _)) =>
    match m.fields[tag]? with
    | some (some (_, t)) => if t.isStruct then [(.e0020, .own e)] else memberDiagnostics e
    | _ => []
  | e@(.node tag _ (.call f args)) =>
    if f.isError then []
    else
      match m.calls[tag]? with
      | some (some o) =>
        match o.type.callable? with
        | some ft =>
          if args.length < ft.requiredCount || args.length > ft.params.length then [(.e1501, .own e)]
          else argumentDiagnostics args ft.params ++ calleeDiagnostics f o.callee
        | none => [(.e2064, .own e)]
      | _ => []
  | .node _ _ (.cast _ operand) | .node _ _ (.unary _ operand) => valueDiagnostics operand
  | .node _ _ (.binary op l r) =>
    match planBinary env.machine env.registry op (m.typeAt l) (m.typeAt r) with
    | .pointerOffset _ _ false => valueDiagnostics r ++ valueDiagnostics l
    | .invalid => []
    | _ => valueDiagnostics l ++ valueDiagnostics r
  | .node _ _ (.logical _ l r) => valueDiagnostics l ++ valueDiagnostics r
  | .node _ _ (.assign target value) =>
    if (m.typeAt target).isStruct then [(.e0020, .own target)]
    else
      (valueDiagnostics value ++ castDiagnostics (m.typeAt value) (m.typeAt target) value) ++
        pointerDiagnostics target
  | .node _ _ (.addressOf operand) =>
    if (m.typeAt operand).isFunction then valueDiagnostics operand else pointerDiagnostics operand
  | e@(.node _ _ (.deref operand)) =>
    match m.typeAt e with
    | .struct _ => [(.e0020, .own e)]
    | _ => valueDiagnostics operand
  | _ => []
termination_by e => 8 * sizeOf e + 2
decreasing_by
  all_goals
    try subst_vars
    simp_wf
    try simp
    try omega

/-- The diagnostics emitting the address of an expression files. -/
def pointerDiagnostics : Expr → List (Code × Site)
  | e@(.node tag _ (.variable _)) =>
    match m.names[tag]? with
    | some (some (.local _ _)) | some (some (.global _ _)) | some (some (.field _ _)) => []
    | some (some _) => [(.e0131, .own e)]
    | _ => []
  | e@(.node _ _ (.member _ _)) | e@(.node _ _ (.arrow _ _)) => memberDiagnostics e
  | .node _ _ (.deref operand) => valueDiagnostics operand
  | .node _ _ .error => []
  | e => [(.e0131, .own e)]
termination_by e => 8 * sizeOf e + 1
decreasing_by
  all_goals
    try subst_vars
    simp_wf
    try simp
    try omega

/-- The diagnostics emitting the address of the field a member access selects files. -/
def memberDiagnostics : Expr → List (Code × Site)
  | .node tag _ (.member target _) =>
    match m.fields[tag]? with
    | some (some _) => pointerDiagnostics target
    | _ => []
  | .node tag _ (.arrow target _) =>
    match m.fields[tag]? with
    | some (some _) => valueDiagnostics target
    | _ => []
  | _ => []
termination_by e => 8 * sizeOf e
decreasing_by
  all_goals
    try subst_vars
    simp_wf
    try simp
    try omega

/-- The diagnostics emitting the arguments of a call files, each converted to its parameter's
type. -/
def argumentDiagnostics : List Expr → List Parameter → List (Code × Site)
  | a :: rest, p :: ps =>
    (valueDiagnostics a ++ castDiagnostics (m.typeAt a) p.type a) ++ argumentDiagnostics rest ps
  | _, _ => []
termination_by args _ => 8 * sizeOf args
decreasing_by
  all_goals
    try subst_vars
    simp_wf
    try simp
    try omega

/-- The diagnostics pushing a callee and its receiver files. -/
def calleeDiagnostics : Expr → Callee → List (Code × Site)
  | .node _ _ (.member target _), .method .address _ => pointerDiagnostics target
  | .node _ _ (.arrow target _), .method .pointer _ => valueDiagnostics target
  | f, .value => valueDiagnostics f
  | _, _ => []
termination_by f _ => 8 * sizeOf f + 3
decreasing_by
  all_goals
    try subst_vars
    simp_wf
    try simp
    try omega

end

/-! ### Each site is used once -/

mutual

theorem valueDiagnostics_subperm (n : Expr) :
    ((env.valueDiagnostics m n).map Prod.snd).Subperm n.innerSites := by
  match n with
  | .node tag span k =>
    cases k with
    | integer v | character v | float v | constant v | this | error =>
      simp [valueDiagnostics]
    | «variable» name =>
      simp only [valueDiagnostics]
      split
      · split
        · exact Expr.own_subperm_innerSites _
        · split
          · exact Expr.own_subperm_innerSites _
          · exact List.nil_subperm
      · exact List.nil_subperm
    | member target name | arrow target name =>
      simp only [valueDiagnostics]
      split
      · split
        · exact Expr.own_subperm_innerSites _
        · exact Expr.subperm_innerSites_of_lower (memberDiagnostics_subperm _)
      · exact List.nil_subperm
    | call f args =>
      simp only [valueDiagnostics]
      split
      · exact List.nil_subperm
      split
      · split
        · split
          · exact Expr.own_subperm_innerSites _
          · rw [List.map_append]
            refine Expr.subperm_innerSites_of_lower (List.perm_append_comm.subperm.trans ?_)
            exact Expr.append_subperm_sites (calleeDiagnostics_subperm _ _)
              (argumentDiagnostics_subperm _ _)
        · exact Expr.own_subperm_innerSites _
      · exact List.nil_subperm
    | cast ty operand | unary op operand =>
      simp only [valueDiagnostics]
      exact Expr.subperm_innerSites_of_lower
        (Expr.subperm_nodes_of_innerSites (valueDiagnostics_subperm operand))
    | binary op l r =>
      have hl := Expr.subperm_nodes_of_innerSites (valueDiagnostics_subperm l)
      have hr := Expr.subperm_nodes_of_innerSites (valueDiagnostics_subperm r)
      simp only [valueDiagnostics]
      split
      · rw [List.map_append]
        exact Expr.subperm_innerSites_of_lower
          (List.perm_append_comm.subperm.trans (Expr.append_subperm_sites hl hr))
      · exact List.nil_subperm
      · rw [List.map_append]
        exact Expr.subperm_innerSites_of_lower (Expr.append_subperm_sites hl hr)
    | logical op l r =>
      simp only [valueDiagnostics, List.map_append]
      exact Expr.subperm_innerSites_of_lower (Expr.append_subperm_sites
        (Expr.subperm_nodes_of_innerSites (valueDiagnostics_subperm l))
        (Expr.subperm_nodes_of_innerSites (valueDiagnostics_subperm r)))
    | assign target value =>
      simp only [valueDiagnostics]
      split
      · simp only [List.map_cons, List.map_nil]
        refine Expr.subperm_innerSites_of_lower (List.singleton_sublist.mpr ?_).subperm
        exact List.mem_flatMap.mpr
          ⟨target, List.mem_append_left _ (Expr.mem_nodes_self _), by simp [Expr.sites]⟩
      · simp only [List.map_append]
        refine Expr.subperm_innerSites_of_lower (List.perm_append_comm.subperm.trans ?_)
        exact Expr.append_subperm_sites
          (Expr.subperm_nodes_of_innerSites (pointerDiagnostics_subperm target))
          (Expr.converted_subperm (valueDiagnostics_subperm value) (castDiagnostics_subperm _ _ _))
    | addressOf operand =>
      simp only [valueDiagnostics]
      split
      · exact Expr.subperm_innerSites_of_lower
          (Expr.subperm_nodes_of_innerSites (valueDiagnostics_subperm operand))
      · exact Expr.subperm_innerSites_of_lower
          (Expr.subperm_nodes_of_innerSites (pointerDiagnostics_subperm operand))
    | deref operand =>
      simp only [valueDiagnostics]
      split
      · exact Expr.own_subperm_innerSites _
      · exact Expr.subperm_innerSites_of_lower
          (Expr.subperm_nodes_of_innerSites (valueDiagnostics_subperm operand))
termination_by 8 * sizeOf n + 2
decreasing_by
  all_goals
    try subst_vars
    simp_wf
    try simp
    try omega

theorem pointerDiagnostics_subperm (n : Expr) :
    ((env.pointerDiagnostics m n).map Prod.snd).Subperm n.innerSites := by
  match n with
  | .node tag span (.variable name) =>
    simp only [pointerDiagnostics]
    split
    · exact List.nil_subperm
    · exact List.nil_subperm
    · exact List.nil_subperm
    · exact Expr.own_subperm_innerSites _
    · exact List.nil_subperm
  | .node tag span (.member target name) | .node tag span (.arrow target name) =>
    simp only [pointerDiagnostics]
    exact Expr.subperm_innerSites_of_lower (memberDiagnostics_subperm _)
  | .node tag span (.deref operand) =>
    simp only [pointerDiagnostics]
    exact Expr.subperm_innerSites_of_lower
      (Expr.subperm_nodes_of_innerSites (valueDiagnostics_subperm operand))
  | .node tag span .error =>
    simp [pointerDiagnostics]
  | .node tag span (.integer _) | .node tag span (.character _) | .node tag span (.float _)
  | .node tag span (.constant _) | .node tag span .this | .node tag span (.call _ _)
  | .node tag span (.cast _ _) | .node tag span (.unary _ _) | .node tag span (.binary _ _ _)
  | .node tag span (.logical _ _ _) | .node tag span (.assign _ _)
  | .node tag span (.addressOf _) =>
    simp only [pointerDiagnostics]
    exact Expr.own_subperm_innerSites _
termination_by 8 * sizeOf n + 1
decreasing_by
  all_goals
    try subst_vars
    simp_wf
    try simp
    try omega

theorem memberDiagnostics_subperm (n : Expr) :
    ((env.memberDiagnostics m n).map Prod.snd).Subperm (n.kind.nodes.flatMap Expr.sites) := by
  match n with
  | .node tag span (.member target name) =>
    simp only [memberDiagnostics]
    split
    · exact Expr.subperm_nodes_of_innerSites (pointerDiagnostics_subperm target)
    · exact List.nil_subperm
  | .node tag span (.arrow target name) =>
    simp only [memberDiagnostics]
    split
    · exact Expr.subperm_nodes_of_innerSites (valueDiagnostics_subperm target)
    · exact List.nil_subperm
  | .node tag span (.integer _) | .node tag span (.character _) | .node tag span (.float _)
  | .node tag span (.constant _) | .node tag span (.variable _) | .node tag span .this
  | .node tag span (.call _ _) | .node tag span (.cast _ _) | .node tag span (.unary _ _)
  | .node tag span (.binary _ _ _) | .node tag span (.logical _ _ _)
  | .node tag span (.assign _ _) | .node tag span (.addressOf _) | .node tag span (.deref _)
  | .node tag span .error =>
    simp [memberDiagnostics]
termination_by 8 * sizeOf n
decreasing_by
  all_goals
    try subst_vars
    simp_wf
    try simp
    try omega

theorem argumentDiagnostics_subperm (args : List Expr) (ps : List Parameter) :
    ((env.argumentDiagnostics m args ps).map Prod.snd).Subperm ((Expr.listNodes args).flatMap Expr.sites) := by
  match args, ps with
  | a :: rest, p :: ps =>
    simp only [argumentDiagnostics, List.map_append, Expr.listNodes]
    exact Expr.append_subperm_sites
      (Expr.converted_subperm (valueDiagnostics_subperm a) (castDiagnostics_subperm _ _ _))
      (argumentDiagnostics_subperm rest ps)
  | [], _ | _ :: _, [] =>
    simp [argumentDiagnostics]
termination_by 8 * sizeOf args
decreasing_by
  all_goals
    try subst_vars
    simp_wf
    try simp
    try omega

theorem calleeDiagnostics_subperm (f : Expr) (callee : Callee) :
    ((env.calleeDiagnostics m f callee).map Prod.snd).Subperm (f.nodes.flatMap Expr.sites) := by
  match f, callee with
  | .node tag span k, .method .address address =>
    cases k
    case member target name =>
      simp only [calleeDiagnostics]
      exact Expr.subperm_nodes_of_innerSites (Expr.subperm_innerSites_of_lower
        (Expr.subperm_nodes_of_innerSites (pointerDiagnostics_subperm target)))
    all_goals simp [calleeDiagnostics]
  | .node tag span k, .method .pointer address =>
    cases k
    case arrow target name =>
      simp only [calleeDiagnostics]
      exact Expr.subperm_nodes_of_innerSites (Expr.subperm_innerSites_of_lower
        (Expr.subperm_nodes_of_innerSites (valueDiagnostics_subperm target)))
    all_goals simp [calleeDiagnostics]
  | _, .method .this address | _, .function address | _, .nothing =>
    simp [calleeDiagnostics]
  | f, .value =>
    simp only [calleeDiagnostics]
    exact Expr.subperm_nodes_of_innerSites (valueDiagnostics_subperm f)
termination_by 8 * sizeOf f + 3
decreasing_by
  all_goals
    try subst_vars
    simp_wf
    try simp
    try omega

end

end EmitEnv

namespace EmitM

variable {α β : Type} {env : EmitEnv} {m : Memo}

/-- Run from a state whose memo is `m`, `x` answers `v` and leaves the state as it was. -/
def Reads (env : EmitEnv) (m : Memo) (v : α) (x : EmitM α) : Prop :=
  ∀ st, st.memo = m → (x.run env).run st = (v, st)

/-- Run from a state whose memo is `m` and whose report keeps everything, `x` keeps the memo and
the configuration and files exactly the diagnostics `ds`, in order, at their sites' spans. -/
def Files (env : EmitEnv) (m : Memo) (ds : List (Code × Site)) (x : EmitM α) : Prop :=
  ∀ st, st.memo = m → st.report.config = .keepAll →
    ((x.run env).run st).2.memo = m ∧ ((x.run env).run st).2.report.config = .keepAll ∧
      ((x.run env).run st).2.report.filed = st.report.filed ++ Site.filed ds ∧
      ((x.run env).run st).2.report.failures = st.report.failures + ds.length

namespace Reads

variable {v : α} {x : EmitM α}

theorem bind {f : α → EmitM β} {w : β} (hx : Reads env m v x) (hf : Reads env m w (f v)) :
    Reads env m w (x >>= f) := fun st hst => by
  rw [run_bind, hx st hst]
  exact hf st hst

theorem pure (v : α) : Reads env m v (Pure.pure v : EmitM α) := fun _ _ => rfl

theorem machine : Reads env m env.machine machine := fun _ _ => rfl

theorem registry : Reads env m env.registry registry := fun _ _ => rfl

theorem memoised {lookup : Memo → Option α} {record : Memo → α → Memo} {compute : EmitM α}
    (h : lookup m = some v) : Reads env m v (memoised lookup record compute) := fun st hst =>
  memoised_run_of_some (by rw [hst]; exact h)

theorem typeOf {y : Expr} {t : CType} (h : m.types[y.tag]? = some t) : Reads env m t (typeOf y) := by
  rw [typeOf_eq_memoised]
  exact memoised h

theorem variableSymbol {y : Expr} {name : String} {r : Option Symbol} (h : m.names[y.tag]? = some r) :
    Reads env m r (variableSymbol y name) := by
  rw [variableSymbol_eq_memoised]
  exact memoised h

theorem fieldOf {y : Expr} {r : Option (Nat × CType)} (h : m.fields[y.tag]? = some r) :
    Reads env m r (fieldOf y) := by
  rw [fieldOf_eq_memoised]
  exact memoised h

theorem callOverload {tag : Nat} {span : Span} {f : Expr} {args : List Expr} {o : Option Overload}
    (h : m.calls[tag]? = some o) : Reads env m o (callOverload (.node tag span (.call f args))) := by
  rw [callOverload_eq_memoised]
  exact memoised h

theorem typesOf (args : List Expr) (hc : m.Covers (Expr.listNodes args)) :
    Reads env m (args.map m.typeAt) (typesOf args) := by
  induction args with
  | nil =>
    simp only [EmitM.typesOf, List.map_nil]
    exact pure _
  | cons a rest ih =>
    obtain ⟨ha, hrest⟩ := hc.args
    simp only [EmitM.typesOf, List.map_cons]
    exact bind (typeOf (ha.type (Expr.mem_nodes_self a))) (bind (ih hrest) (pure _))

end Reads

namespace Files

variable {a b : List (Code × Site)} {x : EmitM α}

theorem congr (h : a = b) (hx : Files env m a x) : Files env m b x := h ▸ hx

theorem bind {f : α → EmitM β} (hx : Files env m a x) (hf : ∀ v, Files env m b (f v)) :
    Files env m (a ++ b) (x >>= f) := fun st hmemo hconfig => by
  obtain ⟨hmemo₁, hconfig₁, hfiled₁, hfailures₁⟩ := hx st hmemo hconfig
  obtain ⟨hmemo₂, hconfig₂, hfiled₂, hfailures₂⟩ := hf _ _ hmemo₁ hconfig₁
  rw [run_bind]
  refine ⟨hmemo₂, hconfig₂, ?_, ?_⟩
  · rw [hfiled₂, hfiled₁, Site.filed_append, List.append_assoc]
  · rw [hfailures₂, hfailures₁, List.length_append]
    omega

theorem read {f : β → EmitM α} {v : β} {y : EmitM β} (hy : Reads env m v y) (hf : Files env m a (f v)) :
    Files env m a (y >>= f) := fun st hmemo hconfig => by
  rw [run_bind, hy st hmemo]
  exact hf st hmemo hconfig

theorem of_keeps (h : ∀ st, ((x.run env).run st).2.memo = st.memo ∧
    ((x.run env).run st).2.report = st.report) : Files env m [] x := fun st hmemo hconfig => by
  obtain ⟨hm, hr⟩ := h st
  rw [hm, hr]
  exact ⟨hmemo, hconfig, by simp, by simp⟩

theorem pure (v : α) : Files env m [] (Pure.pure v : EmitM α) := of_keeps fun _ => ⟨rfl, rfl⟩

theorem push (i : Instr) : Files env m [] (push i) := of_keeps fun _ => ⟨rfl, rfl⟩

theorem emit (i : Instr) : Files env m [] (emit i) := of_keeps fun _ => ⟨rfl, rfl⟩

theorem patch (p target : Nat) : Files env m [] (patch p target) := of_keeps fun _ => ⟨rfl, rfl⟩

theorem nextIndex : Files env m [] nextIndex := of_keeps fun _ => ⟨rfl, rfl⟩

theorem intKind : Files env m [] intKind := of_keeps fun _ => ⟨rfl, rfl⟩

theorem pushAddress (address : Nat) : Files env m [] (pushAddress address) := push _

theorem conversion (source target : CType) : Files env m [] (emitConversion source target) :=
  of_keeps fun st => by
    rw [emitConversion_run]
    exact ⟨rfl, rfl⟩

theorem thisField (offset : Nat) : Files env m [] (emitThisField offset) := by
  unfold emitThisField
  refine bind (push _) fun _ => ?_
  split
  · exact push _
  · exact pure _

theorem error (s : Site) (code : Code) (message : String) :
    Files env m [(code, s)] (error code s.node.span message) := fun st hmemo hconfig => by
  rw [error_run]
  refine ⟨hmemo, ?_, ?_, ?_⟩ <;> simp only [Id.pure_snd, Report.error_of_keepAll hconfig]
  · exact hconfig
  · simp only [Report.filed, Array.toList_push, List.map_append, Site.filed]
    rfl
  · simp only [Report.failures, List.length_singleton]
    omega

theorem structValue (e : Expr) : Files env m [(.e0020, .own e)] (structValue e) := error _ _ _

theorem invalidInContext (e : Expr) : Files env m [(.e0119, .own e)] (invalidInContext e) :=
  error _ _ _

theorem notAnLvalue (e : Expr) : Files env m [(.e0131, .own e)] (notAnLvalue e) := error _ _ _

theorem cast (source target : CType) (y : Expr) :
    Files env m (castDiagnostics source target y) (emitCast source target y.span) := by
  unfold emitCast castDiagnostics
  by_cases h : (source.score target == 0) = true
  · rw [if_pos h, if_pos h]
    exact error (.conversion y) _ _
  · rw [if_neg h, if_neg h]
    exact conversion _ _

theorem forIn {γ : Type} (xs : List γ) {f : γ → PUnit → EmitM (ForInStep PUnit)}
    (hf : ∀ x, Files env m [] (f x PUnit.unit)) : Files env m [] (ForIn.forIn xs PUnit.unit f) := by
  induction xs with
  | nil => exact pure _
  | cons x xs ih =>
    rw [List.forIn_cons]
    refine bind (b := []) (hf x) fun step => ?_
    cases step with
    | done b => exact pure _
    | yield b => exact ih

theorem logical {op : LogicalOp} {l r : EmitM Unit} (hl : Files env m a l) (hr : Files env m b r) :
    Files env m (a ++ b) (emitLogical op l r) := by
  cases op <;> unfold emitLogical <;> simp only [reduceCtorEq, ↓reduceIte, pure_bind]
  case and =>
    refine congr (by simp) (bind intKind fun _ => bind hl fun _ => bind (emit _) fun _ =>
      bind hr fun _ => bind (emit _) fun _ => bind (push _) fun _ => bind (emit _) fun _ =>
        bind (emit _) fun _ => bind nextIndex fun _ => bind (patch _ _) fun _ =>
          bind (patch _ _) fun _ => bind (patch _ _) fun _ => pure _)
  case or =>
    refine congr (by simp) (bind intKind fun _ => bind hl fun _ => bind (emit _) fun _ =>
      bind (push _) fun _ => bind (emit _) fun _ => bind nextIndex fun _ =>
        bind (patch _ _) fun _ => bind hr fun _ => bind (emit _) fun _ => bind (push _) fun _ =>
          bind (emit _) fun _ => bind (emit _) fun _ => bind nextIndex fun _ =>
            bind (patch _ _) fun _ => bind (patch _ _) fun _ => patch _ _)

end Files

theorem literal_files (e : Expr) (v : Value) {t : CType} (ht : m.types[e.tag]? = some t) :
    Files env m [] (emitLiteral e v) := by
  unfold emitLiteral
  exact Files.read (Reads.typeOf ht) (Files.push _)

/-! ### Emission files the diagnostics of its sites -/

mutual

theorem emitExpr_files (n : Expr) (hc : m.Covers n.nodes) :
    Files env m (env.valueDiagnostics m n) (emitExpr n) := by
  match n with
  | .node tag span k =>
    have hself : m.types[tag]? = some (m.typeAt (.node tag span k)) := hc.type (Expr.mem_nodes_self _)
    cases k with
    | integer v | character v | float v =>
      simp only [emitExpr, EmitEnv.valueDiagnostics]
      exact literal_files _ _ hself
    | constant v =>
      simp only [emitExpr, EmitEnv.valueDiagnostics]
      exact Files.push _
    | «variable» name =>
      obtain ⟨r, hr⟩ := hc.lookup (records_names tag) (Expr.mem_nodes_self _) (by simp [Expr.queries])
      simp only [emitExpr, EmitEnv.valueDiagnostics, hr]
      refine Files.read (Reads.variableSymbol hr) ?_
      rcases r with _ | s
      · exact Files.pure _
      by_cases hs : s.type.isStruct = true
      · simp only [hs, ↓reduceIte]
        exact Files.structValue _
      simp only [hs, Bool.false_eq_true, ↓reduceIte]
      cases s with
      | «local» slot t => exact Files.push _
      | global address t => exact Files.push _
      | field offset t => exact Files.bind (Files.thisField _) fun _ => Files.push _
      | function address t => exact Files.pushAddress _
      | method address t => exact Files.invalidInContext _
    | this =>
      simp only [emitExpr, EmitEnv.valueDiagnostics]
      refine Files.read (Reads.typeOf hself) ?_
      split
      · exact Files.push _
      · exact Files.pure _
    | member target name | arrow target name =>
      obtain ⟨r, hr⟩ := hc.lookup (records_fields tag) (Expr.mem_nodes_self _) (by simp [Expr.queries])
      simp only [emitExpr, EmitEnv.valueDiagnostics, hr]
      refine Files.read (Reads.fieldOf hr) ?_
      rcases r with _ | ⟨offset, t⟩
      · exact Files.pure _
      by_cases ht : t.isStruct = true
      · simp only [ht, ↓reduceIte]
        exact Files.structValue _
      · simp only [ht, Bool.false_eq_true, ↓reduceIte]
        exact Files.congr (List.append_nil _)
          (Files.bind (emitMemberPointer_files _ hc) fun _ => Files.push _)
    | call f args =>
      simp only [emitExpr, EmitEnv.valueDiagnostics]
      by_cases hf : f.isError = true
      · simp only [hf, ↓reduceIte]
        exact Files.pure _
      simp only [hf, Bool.false_eq_true, ↓reduceIte]
      have hargs : m.Covers (Expr.listNodes args) := hc.lower (List.subset_append_right _ _)
      obtain ⟨r, hr⟩ := hc.lookup (records_calls tag) (Expr.mem_nodes_self _) (by simp [Expr.queries])
      simp only [hr]
      refine Files.read (Reads.typesOf args hargs) (Files.read (Reads.callOverload hr) ?_)
      rcases r with _ | o
      · exact Files.pure _
      dsimp only
      cases o.type.callable? with
      | none => exact Files.error (.own _) _ _
      | some ft =>
        by_cases harity : (args.length < ft.requiredCount || args.length > ft.params.length) = true
        · simp only [harity, ↓reduceIte]
          exact Files.bind (Files.error (.own _) _ _) fun _ => Files.pure _
        simp only [harity, Bool.false_eq_true, ↓reduceIte]
        refine Files.congr (by simp) (Files.bind (emitArguments_files args ft.params hargs) fun _ =>
          Files.bind (Files.forIn _ fun _ => Files.bind (Files.push _) fun _ => Files.pure _) fun _ =>
            Files.bind (emitCallee_files f o.callee (hc.lower (List.subset_append_left _ _))) fun _ =>
              Files.bind (b := []) (Files.push _) fun _ => ?_)
        split
        · exact Files.bind Files.intKind fun _ => Files.push _
        · exact Files.pure _
    | cast ty operand =>
      simp only [emitExpr, EmitEnv.valueDiagnostics]
      have hop : m.Covers operand.nodes := hc.lower (List.Subset.refl _)
      refine Files.read (Reads.typeOf hself) (Files.read (Reads.typeOf (hop.type (Expr.mem_nodes_self _)))
        (Files.congr (List.append_nil _) (Files.bind (b := []) (emitExpr_files operand hop) fun _ => ?_)))
      split
      · exact Files.conversion _ _
      · exact Files.pure _
    | unary op operand =>
      simp only [emitExpr, EmitEnv.valueDiagnostics]
      have hop : m.Covers operand.nodes := hc.lower (List.Subset.refl _)
      refine Files.read (Reads.typeOf hself) (Files.read (Reads.typeOf (hop.type (Expr.mem_nodes_self _)))
        (Files.congr (List.append_nil _) (Files.bind (b := []) (emitExpr_files operand hop) fun _ => ?_)))
      split
      · exact Files.bind (Files.conversion _ _) fun _ => Files.push _
      · exact Files.push _
    | binary op l r =>
      simp only [emitExpr, EmitEnv.valueDiagnostics]
      have hl : m.Covers l.nodes := hc.lower (List.subset_append_left _ _)
      have hr : m.Covers r.nodes := hc.lower (List.subset_append_right _ _)
      have hL := emitExpr_files l hl
      have hR := emitExpr_files r hr
      refine Files.read (Reads.typeOf hself) (Files.read (Reads.typeOf (hl.type (Expr.mem_nodes_self _)))
        (Files.read (Reads.typeOf (hr.type (Expr.mem_nodes_self _)))
          (Files.read Reads.machine (Files.read Reads.registry ?_))))
      cases planBinary env.machine env.registry op (m.typeAt l) (m.typeAt r) with
      | arithmetic t | shift t =>
        exact Files.congr (by simp) (Files.bind hL fun _ => Files.bind (Files.conversion _ _) fun _ =>
          Files.bind hR fun _ => Files.bind (Files.conversion _ _) fun _ => Files.push _)
      | pointerOffset t stride pointerFirst =>
        cases pointerFirst
        · exact Files.congr (by simp) (Files.bind hR fun _ => Files.bind hL fun _ => Files.push _)
        · exact Files.congr (by simp) (Files.bind hL fun _ => Files.bind hR fun _ => Files.push _)
      | pointerCompare =>
        exact Files.congr (by simp) (Files.bind hL fun _ => Files.bind (Files.conversion _ _) fun _ =>
          Files.bind hR fun _ => Files.bind (Files.conversion _ _) fun _ => Files.push _)
      | invalid => exact Files.pure _
    | logical op l r =>
      simp only [emitExpr, EmitEnv.valueDiagnostics]
      exact Files.read (Reads.typeOf hself) (Files.logical
        (emitExpr_files l (hc.lower (List.subset_append_left _ _)))
        (emitExpr_files r (hc.lower (List.subset_append_right _ _))))
    | assign target value =>
      simp only [emitExpr, EmitEnv.valueDiagnostics]
      have ht : m.Covers target.nodes := hc.lower (List.subset_append_left _ _)
      have hv : m.Covers value.nodes := hc.lower (List.subset_append_right _ _)
      refine Files.read (Reads.typeOf (ht.type (Expr.mem_nodes_self _)))
        (Files.read (Reads.typeOf (hv.type (Expr.mem_nodes_self _))) ?_)
      by_cases hs : (m.typeAt target).isStruct = true
      · simp only [hs, ↓reduceIte]
        exact Files.structValue _
      simp only [hs, Bool.false_eq_true, ↓reduceIte]
      exact Files.congr (by simp) (Files.bind (emitExpr_files value hv) fun _ =>
        Files.bind (Files.cast _ _ value) fun _ => Files.bind (Files.push _) fun _ =>
          Files.bind (emitPointer_files target ht) fun _ => Files.push _)
    | addressOf operand =>
      simp only [emitExpr, EmitEnv.valueDiagnostics]
      have hop : m.Covers operand.nodes := hc.lower (List.Subset.refl _)
      refine Files.read (Reads.typeOf (hop.type (Expr.mem_nodes_self _))) ?_
      by_cases hfn : (m.typeAt operand).isFunction = true
      · simp only [hfn, ↓reduceIte]
        exact emitExpr_files operand hop
      · simp only [hfn, Bool.false_eq_true, ↓reduceIte]
        exact emitPointer_files operand hop
    | deref operand =>
      simp only [emitExpr, EmitEnv.valueDiagnostics]
      have hop : m.Covers operand.nodes := hc.lower (List.Subset.refl _)
      refine Files.read (Reads.typeOf hself) ?_
      cases m.typeAt (.node tag span (.deref operand))
      case struct => exact Files.structValue _
      case function => exact emitExpr_files operand hop
      all_goals
        exact Files.congr (List.append_nil _)
          (Files.bind (emitExpr_files operand hop) fun _ => Files.push _)
    | error =>
      simp only [emitExpr, EmitEnv.valueDiagnostics]
      exact Files.pure _
termination_by 8 * sizeOf n + 2
decreasing_by
  all_goals
    try subst_vars
    simp_wf
    try simp
    try omega

theorem emitPointer_files (n : Expr) (hc : m.Covers n.nodes) :
    Files env m (env.pointerDiagnostics m n) (emitPointer n) := by
  match n with
  | .node tag span (.variable name) =>
    obtain ⟨r, hr⟩ := hc.lookup (records_names tag) (Expr.mem_nodes_self _) (by simp [Expr.queries])
    simp only [emitPointer, EmitEnv.pointerDiagnostics, hr]
    refine Files.read (Reads.variableSymbol hr) ?_
    rcases r with _ | s
    · exact Files.pure _
    cases s with
    | «local» slot t => exact Files.push _
    | global address t => exact Files.push _
    | field offset t => exact Files.thisField _
    | function address t => exact Files.notAnLvalue _
    | method address t => exact Files.notAnLvalue _
  | .node tag span (.member target name) =>
    simp only [emitPointer, EmitEnv.pointerDiagnostics]
    exact emitMemberPointer_files _ hc
  | .node tag span (.arrow target name) =>
    simp only [emitPointer, EmitEnv.pointerDiagnostics]
    exact emitMemberPointer_files _ hc
  | .node tag span (.deref operand) =>
    simp only [emitPointer, EmitEnv.pointerDiagnostics]
    exact Files.read (Reads.typeOf (hc.type (Expr.mem_nodes_self _)))
      (emitExpr_files operand (hc.lower (List.Subset.refl _)))
  | .node tag span .error =>
    simp only [emitPointer, EmitEnv.pointerDiagnostics]
    exact Files.pure _
  | .node tag span (.integer _) | .node tag span (.character _) | .node tag span (.float _)
  | .node tag span (.constant _) | .node tag span .this | .node tag span (.call _ _)
  | .node tag span (.cast _ _) | .node tag span (.unary _ _) | .node tag span (.binary _ _ _)
  | .node tag span (.logical _ _ _) | .node tag span (.assign _ _)
  | .node tag span (.addressOf _) =>
    simp only [emitPointer, EmitEnv.pointerDiagnostics]
    exact Files.notAnLvalue _
termination_by 8 * sizeOf n + 1
decreasing_by
  all_goals
    try subst_vars
    simp_wf
    try simp
    try omega

theorem emitMemberPointer_files (n : Expr) (hc : m.Covers n.nodes) :
    Files env m (env.memberDiagnostics m n) (emitMemberPointer n) := by
  match n with
  | .node tag span (.member target name) =>
    obtain ⟨r, hr⟩ := hc.lookup (records_fields tag) (Expr.mem_nodes_self _) (by simp [Expr.queries])
    simp only [emitMemberPointer, EmitEnv.memberDiagnostics, hr]
    refine Files.read (Reads.fieldOf hr) ?_
    rcases r with _ | ⟨offset, t⟩
    · exact Files.pure _
    refine Files.congr (List.append_nil _) (Files.bind (b := [])
      (emitPointer_files target (hc.lower (List.Subset.refl _))) fun _ => ?_)
    split
    · exact Files.push _
    · exact Files.pure _
  | .node tag span (.arrow target name) =>
    obtain ⟨r, hr⟩ := hc.lookup (records_fields tag) (Expr.mem_nodes_self _) (by simp [Expr.queries])
    simp only [emitMemberPointer, EmitEnv.memberDiagnostics, hr]
    refine Files.read (Reads.fieldOf hr) ?_
    rcases r with _ | ⟨offset, t⟩
    · exact Files.pure _
    refine Files.congr (List.append_nil _) (Files.bind (b := [])
      (emitExpr_files target (hc.lower (List.Subset.refl _))) fun _ => ?_)
    split
    · exact Files.push _
    · exact Files.pure _
  | .node tag span (.integer _) | .node tag span (.character _) | .node tag span (.float _)
  | .node tag span (.constant _) | .node tag span (.variable _) | .node tag span .this
  | .node tag span (.call _ _) | .node tag span (.cast _ _) | .node tag span (.unary _ _)
  | .node tag span (.binary _ _ _) | .node tag span (.logical _ _ _)
  | .node tag span (.assign _ _) | .node tag span (.addressOf _) | .node tag span (.deref _)
  | .node tag span .error =>
    simp only [emitMemberPointer, EmitEnv.memberDiagnostics]
    exact Files.pure _
termination_by 8 * sizeOf n
decreasing_by
  all_goals
    try subst_vars
    simp_wf
    try simp
    try omega

theorem emitArguments_files (args : List Expr) (ps : List Parameter)
    (hc : m.Covers (Expr.listNodes args)) :
    Files env m (env.argumentDiagnostics m args ps) (emitArguments args (args.map m.typeAt) ps) := by
  match args, ps with
  | a :: rest, p :: ps =>
    obtain ⟨ha, hrest⟩ := hc.args
    simp only [List.map_cons, emitArguments, EmitEnv.argumentDiagnostics]
    exact Files.congr (by simp) (Files.bind (emitExpr_files a ha) fun _ =>
      Files.bind (Files.cast _ _ a) fun _ => emitArguments_files rest ps hrest)
  | [], _ | _ :: _, [] =>
    simp only [List.map_nil, List.map_cons, emitArguments, EmitEnv.argumentDiagnostics]
    exact Files.pure _
termination_by 8 * sizeOf args
decreasing_by
  all_goals
    try subst_vars
    simp_wf
    try simp
    try omega

theorem emitCallee_files (f : Expr) (callee : Callee) (hc : m.Covers f.nodes) :
    Files env m (env.calleeDiagnostics m f callee) (emitCallee f callee) := by
  match f, callee with
  | .node tag span k, .method .address address =>
    cases k
    case member target name =>
      simp only [emitCallee, EmitEnv.calleeDiagnostics]
      exact Files.congr (List.append_nil _) (Files.bind
        (emitPointer_files target (hc.lower (List.Subset.refl _))) fun _ =>
          Files.pushAddress _)
    all_goals
      simp only [emitCallee, EmitEnv.calleeDiagnostics]
      exact Files.pushAddress _
  | .node tag span k, .method .pointer address =>
    cases k
    case arrow target name =>
      simp only [emitCallee, EmitEnv.calleeDiagnostics]
      exact Files.congr (List.append_nil _) (Files.bind
        (emitExpr_files target (hc.lower (List.Subset.refl _))) fun _ =>
          Files.pushAddress _)
    all_goals
      simp only [emitCallee, EmitEnv.calleeDiagnostics]
      exact Files.pushAddress _
  | _, .method .this address =>
    simp only [emitCallee, EmitEnv.calleeDiagnostics]
    exact Files.bind (Files.push _) fun _ => Files.pushAddress _
  | _, .function address =>
    simp only [emitCallee, EmitEnv.calleeDiagnostics]
    exact Files.pushAddress _
  | f, .value =>
    simp only [emitCallee, EmitEnv.calleeDiagnostics]
    exact emitExpr_files f hc
  | _, .nothing =>
    simp only [emitCallee, EmitEnv.calleeDiagnostics]
    exact Files.pure _
termination_by 8 * sizeOf f + 3
decreasing_by
  all_goals
    try subst_vars
    simp_wf
    try simp
    try omega

end

end EmitM

end CStack
