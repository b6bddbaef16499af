import Mathlib
import CStack.Proofs.StaticTyping
import CStack.Proofs.DefaultArguments

/-!
# Each failure is reported once

Typing a node asks about its parts, and emission asks again about nodes typing has seen: a
parent's typing, argument typing, call resolution and the emission of values and addresses all
query the same node. What keeps a failure from being reported at every query is the memo: the
type of a node, the symbol its name denotes, the field it selects and the target it calls are each
a `Fact` the memo records under the node's tag the first time it is learnt, and a query the memo
can answer files nothing.

The accounting here makes that exact. A fact not yet known may still cost diagnostics: one for a
name, a field or a call target, one for a type, and two for the type of a cast, which resolves the
type it names and then checks the conversion to it (`Fact.weight`). `Spends facts a x` says that
a run of `x` forgets nothing the memo knows and files at most `a` diagnostics more than the
weights of the facts of the list it learns. Typing spends nothing beyond what it learns; emission
may file one diagnostic of each node's own and one for the conversion of each node below the one
emitted. Since facts are never forgotten and a known fact weighs nothing, no fact is paid for
twice, however often it is asked about. The four queries share one shape, `memoised`, whose
accounting is proved once (`Spends.query`, `memoised_memoises`). What emission files of its own
is made exact in `EmissionDiagnostics`, which states the whole as `diagnostics_reportedOnce`.
-/

namespace CStack

/-- What the memo records about a node. -/
inductive Fact where
  | type
  | name
  | field
  | call
  deriving DecidableEq

/-- The diagnostics learning a fact about a node may file: two for the type of a cast, one for
every other fact. -/
def Fact.weight : Fact → Expr → Nat
  | .type, .node _ _ (.cast _ _) => 2
  | _, _ => 1

namespace Expr

/-- The facts about one node. -/
def ownFacts (n : Expr) : List (Fact × Expr) := [(.type, n), (.name, n), (.field, n), (.call, n)]

/-- The facts about the nodes of an expression. -/
def facts (n : Expr) : List (Fact × Expr) := n.nodes.flatMap ownFacts

/-- The facts about the nodes below a node. -/
def lowerFacts (n : Expr) : List (Fact × Expr) := n.kind.nodes.flatMap ownFacts

/-- The facts about the nodes of a list of expressions. -/
def listFacts (es : List Expr) : List (Fact × Expr) := (listNodes es).flatMap ownFacts

/-- The facts of an expression other than the type of its root. -/
def restFacts (n : Expr) : List (Fact × Expr) :=
  (.name, n) :: (.field, n) :: (.call, n) :: n.lowerFacts

@[simp] theorem kind_node (tag : Nat) (span : Span) (k : ExprKind) : (Expr.node tag span k).kind = k :=
  rfl

theorem nodes_eq (n : Expr) : n.nodes = n :: n.kind.nodes := by
  cases n
  rfl

theorem facts_eq (n : Expr) : n.facts = (.type, n) :: n.restFacts := by
  simp [facts, restFacts, lowerFacts, nodes_eq n, ownFacts]

theorem length_nodes (n : Expr) : n.nodes.length = n.kind.nodes.length + 1 := by
  simp [nodes_eq n]

theorem listFacts_cons (a : Expr) (rest : List Expr) :
    listFacts (a :: rest) = a.facts ++ listFacts rest := by
  simp [listFacts, listNodes, facts]

theorem lowerFacts_sublist_restFacts (n : Expr) : n.lowerFacts.Sublist n.restFacts :=
  ((List.sublist_cons_self _ _).trans (List.sublist_cons_self _ _)).trans (List.sublist_cons_self _ _)

theorem restFacts_sublist_facts (n : Expr) : n.restFacts.Sublist n.facts := by
  rw [facts_eq]
  exact List.sublist_cons_self _ _

theorem facts_sublist_lowerFacts {n c : Expr} (h : c.nodes.Sublist n.kind.nodes) :
    c.facts.Sublist n.lowerFacts :=
  h.flatMap _

theorem facts_sublist_restFacts {n c : Expr} (h : c.nodes.Sublist n.kind.nodes) :
    c.facts.Sublist n.restFacts :=
  (facts_sublist_lowerFacts h).trans n.lowerFacts_sublist_restFacts

theorem facts_sublist_facts {n c : Expr} (h : c.nodes.Sublist n.kind.nodes) :
    c.facts.Sublist n.facts :=
  (facts_sublist_restFacts h).trans n.restFacts_sublist_facts

theorem name_sublist_facts (n : Expr) : [(Fact.name, n)].Sublist n.facts := by
  simp [facts_eq, restFacts]

theorem field_sublist_facts (n : Expr) : ((Fact.field, n) :: n.lowerFacts).Sublist n.facts := by
  rw [facts_eq, restFacts]
  exact .cons _ (.cons _ (.cons_cons _ (.cons _ (.refl _))))

theorem call_sublist_facts (n : Expr) : ((Fact.call, n) :: n.lowerFacts).Sublist n.facts := by
  rw [facts_eq, restFacts]
  exact .cons _ (.cons _ (.cons _ (.cons_cons _ (.refl _))))

theorem listFacts_sublist_lowerFacts {n : Expr} {es : List Expr} (h : (listNodes es).Sublist n.kind.nodes) :
    (listFacts es).Sublist n.lowerFacts :=
  h.flatMap _

theorem listFacts_sublist_facts {n : Expr} {es : List Expr} (h : (listNodes es).Sublist n.kind.nodes) :
    (listFacts es).Sublist n.facts :=
  ((listFacts_sublist_lowerFacts h).trans n.lowerFacts_sublist_restFacts).trans n.restFacts_sublist_facts

end Expr

namespace Report

variable {r r' : Report}

theorem failures_accept (r : Report) (d : Diagnostic) : (r.accept d).failures = r.failures + 1 := by
  unfold accept failures
  split <;> (dsimp only; omega)

theorem failures_add_le (r : Report) (d : Diagnostic) : (r.add d).failures ≤ r.failures + 1 := by
  unfold add
  cases (if r.config.deduplicate = true then d.key? else none) with
  | none => exact Nat.le_of_eq (failures_accept r d)
  | some k =>
    dsimp only
    split
    · omega
    · exact Nat.le_of_eq (failures_accept _ d)

theorem After.failures_le {ok : Bool} (h : r.After r' ok) : r'.failures ≤ r.failures + 1 := by
  unfold After at h
  split at h
  · subst h
    omega
  · obtain ⟨code, span, message, rfl⟩ := h
    exact failures_add_le r _

end Report

namespace Memo

/-- Whether the memo holds a fact about the node with a tag. -/
def knows (m : Memo) : Fact → Nat → Bool
  | .type, k => m.types.contains k
  | .name, k => m.names.contains k
  | .field, k => m.fields.contains k
  | .call, k => m.calls.contains k

/-- `m'` knows every fact `m` knows. -/
def Le (m m' : Memo) : Prop := ∀ φ k, m.knows φ k = true → m'.knows φ k = true

/-- What the facts of a list may still cost: the weight of each one the memo does not know. -/
def owed (m : Memo) (facts : List (Fact × Expr)) : Nat :=
  (facts.map fun p => if m.knows p.1 p.2.tag then 0 else p.1.weight p.2).sum

variable {m m₁ m₂ : Memo}

theorem Le.refl (m : Memo) : m.Le m := fun _ _ h => h

theorem Le.trans (h₁ : m.Le m₁) (h₂ : m₁.Le m₂) : m.Le m₂ := fun φ k h => h₂ φ k (h₁ φ k h)

@[simp] theorem owed_nil : m.owed [] = 0 := rfl

@[simp] theorem owed_cons (φ : Fact) (n : Expr) (facts : List (Fact × Expr)) :
    m.owed ((φ, n) :: facts) = (if m.knows φ n.tag then 0 else φ.weight n) + m.owed facts := by
  simp [owed]

@[simp] theorem owed_append (facts facts' : List (Fact × Expr)) :
    m.owed (facts ++ facts') = m.owed facts + m.owed facts' := by
  simp [owed]

theorem owed_le_of_le (h : m.Le m₁) (facts : List (Fact × Expr)) : m₁.owed facts ≤ m.owed facts := by
  induction facts with
  | nil => simp
  | cons p facts ih =>
    obtain ⟨φ, n⟩ := p
    simp only [owed_cons]
    have hterm : (if m₁.knows φ n.tag then 0 else φ.weight n) ≤
        (if m.knows φ n.tag then 0 else φ.weight n) := by
      cases hk : m.knows φ n.tag
      · cases m₁.knows φ n.tag <;> simp
      · simp [h φ n.tag hk]
    omega

theorem owed_sublist (h : m.Le m₁) {facts facts' : List (Fact × Expr)} (hsub : facts.Sublist facts') :
    m₁.owed facts' + m.owed facts ≤ m.owed facts' + m₁.owed facts := by
  induction hsub with
  | slnil => simp
  | cons p _ ih =>
    obtain ⟨φ, n⟩ := p
    have := owed_le_of_le h [(φ, n)]
    simp only [owed_cons, owed_nil] at this ⊢
    omega
  | cons_cons p _ ih =>
    obtain ⟨φ, n⟩ := p
    simp only [owed_cons]
    omega

theorem le_insertType (k : Nat) (t : CType) : m.Le { m with types := m.types.insert k t } := by
  intro φ k' h
  cases φ <;> simp_all [knows, Std.HashMap.contains_insert]

theorem le_insertName (k : Nat) (r : Option Symbol) : m.Le { m with names := m.names.insert k r } := by
  intro φ k' h
  cases φ <;> simp_all [knows, Std.HashMap.contains_insert]

theorem le_insertField (k : Nat) (r : Option (Nat × CType)) :
    m.Le { m with fields := m.fields.insert k r } := by
  intro φ k' h
  cases φ <;> simp_all [knows, Std.HashMap.contains_insert]

theorem le_insertCall (k : Nat) (r : Option Overload) : m.Le { m with calls := m.calls.insert k r } := by
  intro φ k' h
  cases φ <;> simp_all [knows, Std.HashMap.contains_insert]

end Memo

namespace EmitM

/-- Run from any state, `x` forgets nothing the memo knows and files at most `a` diagnostics more
than the weights of the facts of `facts` it learns. -/
def Spends {α : Type} (facts : List (Fact × Expr)) (a : Nat) (x : EmitM α) : Prop :=
  ∀ env st, st.memo.Le ((x.run env).run st).2.memo ∧
    ((x.run env).run st).2.report.failures + ((x.run env).run st).2.memo.owed facts ≤
      st.report.failures + st.memo.owed facts + a

namespace Spends

variable {α β : Type} {facts facts' : List (Fact × Expr)} {a b c : Nat} {x : EmitM α}

theorem mono (hle : a ≤ b) (h : Spends facts a x) : Spends facts b x := fun env st => by
  obtain ⟨hmemo, hcost⟩ := h env st
  exact ⟨hmemo, by omega⟩

theorem widen (h : Spends facts a x) (hsub : facts.Sublist facts') : Spends facts' a x :=
  fun env st => by
    obtain ⟨hmemo, hcost⟩ := h env st
    have := Memo.owed_sublist hmemo hsub
    exact ⟨hmemo, by omega⟩

theorem bind {f : α → EmitM β} (hx : Spends facts a x) (hf : ∀ v, Spends facts b (f v)) :
    Spends facts (a + b) (x >>= f) := fun env st => by
  obtain ⟨hmemo₁, hcost₁⟩ := hx env st
  obtain ⟨hmemo₂, hcost₂⟩ := hf ((x.run env).run st).1 env ((x.run env).run st).2
  rw [run_bind]
  exact ⟨hmemo₁.trans hmemo₂, by omega⟩

theorem get {f : EmitState → EmitM α} (hf : ∀ s, Spends facts a (f s)) :
    Spends facts a (MonadState.get >>= f) :=
  fun env st => hf st env st

theorem of_keeps (h : ∀ env st, ((x.run env).run st).2.memo = st.memo ∧
    ((x.run env).run st).2.report = st.report) : Spends facts 0 x := fun env st => by
  obtain ⟨hmemo, hreport⟩ := h env st
  rw [hmemo, hreport]
  exact ⟨.refl _, by omega⟩

theorem of_report (h : ∀ env st, ∃ v r, (x.run env).run st = (v, { st with report := r }) ∧
    r.failures ≤ st.report.failures + 1) : Spends facts 1 x := fun env st => by
  obtain ⟨v, r, hrun, hr⟩ := h env st
  rw [hrun]
  refine ⟨.refl _, ?_⟩
  dsimp only
  omega

theorem pure (v : α) : Spends facts 0 (Pure.pure v : EmitM α) := of_keeps fun _ _ => ⟨rfl, rfl⟩

/-! ### The steps typing is made of -/

theorem error (code : Code) (span : Span) (message : String) : Spends facts 1 (error code span message) :=
  of_report fun _ _ => ⟨(), _, rfl, Report.failures_add_le _ _⟩

theorem resolveType (ty : TypeName) (span : Span) : Spends facts 1 (resolveType ty span) :=
  of_report fun env st => by
    obtain ⟨r, hrun, hafter⟩ := resolveType_run env st ty span
    exact ⟨_, r, hrun, hafter.failures_le⟩

theorem resolveVariable (name : String) (args : Option (List CType)) (span : Span) :
    Spends facts 1 (resolveVariable name args span) :=
  of_report fun env st => by
    obtain ⟨r, hrun, hafter⟩ := resolveVariable_run env st name args span
    exact ⟨_, r, hrun, hafter.failures_le⟩

theorem resolveMethod (f : Expr) (owner : StructId) (member : String) (args : List CType)
    (receiver : Receiver) : Spends facts 1 (resolveMethod f owner member args receiver) :=
  of_report fun env st => by
    obtain ⟨r, hrun, hafter⟩ := resolveMethod_run env st f owner member args receiver
    exact ⟨_, r, hrun, hafter.failures_le⟩

theorem selectField (e target : Expr) (member : String) (owner : Option StructId) :
    Spends facts 1 (selectField e target member owner) :=
  of_report fun env st => by
    obtain ⟨r, hrun, hafter⟩ := selectField_run env st e target member owner
    exact ⟨_, r, hrun, hafter.failures_le⟩

theorem machine : Spends facts 0 machine := of_keeps fun _ _ => ⟨rfl, rfl⟩

theorem registry : Spends facts 0 registry := of_keeps fun _ _ => ⟨rfl, rfl⟩

theorem intType : Spends facts 0 intType := of_keeps fun _ _ => ⟨rfl, rfl⟩

theorem thisType (e : Expr) : Spends facts 1 (thisType e) := by
  unfold EmitM.thisType
  refine get fun s => ?_
  split
  · exact mono (by omega) (pure _)
  · exact bind (error _ _ _) fun _ => intType

theorem learn {φ : Fact} {n : Expr} {st st₁ st' : EmitState}
    (hunknown : st.memo.knows φ n.tag = false) (hle : st.memo.Le st₁.memo)
    (hcost : st₁.report.failures + st₁.memo.owed facts ≤
      st.report.failures + st.memo.owed facts + φ.weight n)
    (hgrow : st₁.memo.Le st'.memo) (hknown : st'.memo.knows φ n.tag = true)
    (hreport : st'.report = st₁.report) :
    st.memo.Le st'.memo ∧ st'.report.failures + st'.memo.owed ((φ, n) :: facts) ≤
      st.report.failures + st.memo.owed ((φ, n) :: facts) + 0 := by
  have := Memo.owed_le_of_le hgrow facts
  refine ⟨hle.trans hgrow, ?_⟩
  simp only [Memo.owed_cons, hunknown, hknown, hreport, if_true, Bool.false_eq_true, if_false]
  omega

/-! ### The steps emission adds -/

theorem push (i : Instr) : Spends facts 0 (push i) := of_keeps fun _ _ => ⟨rfl, rfl⟩

theorem emit (i : Instr) : Spends facts 0 (emit i) := of_keeps fun _ _ => ⟨rfl, rfl⟩

theorem patch (p target : Nat) : Spends facts 0 (patch p target) := of_keeps fun _ _ => ⟨rfl, rfl⟩

theorem nextIndex : Spends facts 0 nextIndex := of_keeps fun _ _ => ⟨rfl, rfl⟩

theorem intKind : Spends facts 0 intKind := of_keeps fun _ _ => ⟨rfl, rfl⟩

theorem pushAddress (address : Nat) : Spends facts 0 (pushAddress address) := push _

theorem conversion (source target : CType) : Spends facts 0 (emitConversion source target) :=
  of_keeps fun env st => by
    rw [emitConversion_run]
    exact ⟨rfl, rfl⟩

theorem cast (source target : CType) (span : Span) : Spends facts 1 (emitCast source target span) := by
  unfold emitCast
  split
  · exact error _ _ _
  · exact mono (by omega) (conversion _ _)

theorem thisField (offset : Nat) : Spends facts 0 (emitThisField offset) := by
  unfold emitThisField
  refine bind (b := 0) (push _) fun _ => ?_
  split
  · exact push _
  · exact pure _

theorem forIn {γ : Type} (xs : List γ) {f : γ → PUnit → EmitM (ForInStep PUnit)}
    (hf : ∀ x, Spends facts 0 (f x PUnit.unit)) : Spends facts 0 (ForIn.forIn xs PUnit.unit f) := by
  induction xs with
  | nil => exact pure _
  | cons x xs ih =>
    rw [List.forIn_cons]
    refine bind (b := 0) (hf x) fun step => ?_
    cases step with
    | done b => exact pure _
    | yield b => exact ih

theorem logical {op : LogicalOp} {l r : EmitM Unit} (hl : Spends facts a l) (hr : Spends facts b r) :
    Spends facts (a + b) (emitLogical op l r) := by
  cases op <;> unfold emitLogical <;> simp only [reduceCtorEq, ↓reduceIte, pure_bind]
  case and =>
    refine mono (by omega) (bind intKind fun _ => bind hl fun _ => bind (emit _) fun _ =>
      bind hr fun _ => bind (emit _) fun _ => bind (push _) fun _ => bind (emit _) fun _ =>
        bind (emit _) fun _ => bind nextIndex fun _ => bind (patch _ _) fun _ =>
          bind (patch _ _) fun _ => bind (patch _ _) fun _ => pure _)
  case or =>
    refine mono (by omega) (bind intKind fun _ => bind hl fun _ => bind (emit _) fun _ =>
      bind (push _) fun _ => bind (emit _) fun _ => bind nextIndex fun _ =>
        bind (patch _ _) fun _ => bind hr fun _ => bind (emit _) fun _ => bind (push _) fun _ =>
          bind (emit _) fun _ => bind (emit _) fun _ => bind nextIndex fun _ =>
            bind (patch _ _) fun _ => bind (patch _ _) fun _ => patch _ _)

end Spends

/-! ### The shape of a query

Each of the four queries answers from its memo table when the table holds the node's tag, and
otherwise computes the answer and records it under the tag. `memoised` is that shape; the four
queries are instances of it, and what it does is proved once. -/

/-- Answer from the memo with `lookup`, or run `compute` and store its answer with `record`. -/
def memoised {β : Type} (lookup : Memo → Option β) (record : Memo → β → Memo) (compute : EmitM β) :
    EmitM β := do
  if let some v := lookup (← get).memo then return v
  let v ← compute
  modify fun s => { s with memo := record s.memo v }
  return v

/-- `lookup` and `record` keep fact `φ` of the node tagged `k`: the memo knows the fact exactly
when `lookup` finds it, and `record` adds it and forgets nothing. -/
def Records {β : Type} (φ : Fact) (k : Nat) (lookup : Memo → Option β) (record : Memo → β → Memo) :
    Prop :=
  (∀ m, m.knows φ k = (lookup m).isSome) ∧ ∀ m v, m.Le (record m v) ∧ (record m v).knows φ k = true

theorem records_types (k : Nat) :
    Records .type k (·.types[k]?) (fun m t => { m with types := m.types.insert k t }) :=
  ⟨fun _ => Std.HashMap.contains_eq_isSome_getElem?, fun _ t =>
    ⟨Memo.le_insertType k t, by simp [Memo.knows]⟩⟩

theorem records_names (k : Nat) :
    Records .name k (·.names[k]?) (fun m r => { m with names := m.names.insert k r }) :=
  ⟨fun _ => Std.HashMap.contains_eq_isSome_getElem?, fun _ r =>
    ⟨Memo.le_insertName k r, by simp [Memo.knows]⟩⟩

theorem records_fields (k : Nat) :
    Records .field k (·.fields[k]?) (fun m r => { m with fields := m.fields.insert k r }) :=
  ⟨fun _ => Std.HashMap.contains_eq_isSome_getElem?, fun _ r =>
    ⟨Memo.le_insertField k r, by simp [Memo.knows]⟩⟩

theorem records_calls (k : Nat) :
    Records .call k (·.calls[k]?) (fun m o => { m with calls := m.calls.insert k o }) :=
  ⟨fun _ => Std.HashMap.contains_eq_isSome_getElem?, fun _ o =>
    ⟨Memo.le_insertCall k o, by simp [Memo.knows]⟩⟩

-- The queries' bodies match `memoised` only up to the matcher each `if let` elaborates to, so
-- each equation cases on the lookup.
theorem typeOf_eq_memoised (n : Expr) :
    typeOf n = memoised (·.types[n.tag]?) (fun m t => { m with types := m.types.insert n.tag t })
      (typeOfNode n) := by
  unfold typeOf memoised
  congr 1
  funext s
  beta_reduce
  cases s.memo.types[n.tag]? <;> rfl

theorem variableSymbol_eq_memoised (n : Expr) (name : String) :
    variableSymbol n name =
      memoised (·.names[n.tag]?) (fun m r => { m with names := m.names.insert n.tag r })
        (resolveVariable name none n.span) := by
  unfold variableSymbol memoised
  congr 1
  funext s
  beta_reduce
  cases s.memo.names[n.tag]? <;> rfl

theorem fieldOf_eq_memoised (n : Expr) :
    fieldOf n = memoised (·.fields[n.tag]?) (fun m r => { m with fields := m.fields.insert n.tag r })
      (resolveField n) := by
  unfold fieldOf memoised
  congr 1
  funext s
  beta_reduce
  cases s.memo.fields[n.tag]? <;> rfl

theorem callOverload_eq_memoised (tag : Nat) (span : Span) (f : Expr) (args : List Expr) :
    callOverload (.node tag span (.call f args)) =
      memoised (·.calls[tag]?) (fun m o => { m with calls := m.calls.insert tag o })
        (typesOf args >>= resolveOverload f) := by
  rw [callOverload]
  unfold memoised
  congr 1
  funext s
  beta_reduce
  cases s.memo.calls[tag]?
  · simp only [bind_assoc]
  · rfl

section Memoised

variable {β : Type} {lookup : Memo → Option β} {record : Memo → β → Memo} {compute : EmitM β}
  {env : EmitEnv} {st : EmitState}

theorem memoised_run_of_some {v : β} (h : lookup st.memo = some v) :
    ((memoised lookup record compute).run env).run st = (v, st) := by
  simp only [memoised, run_bind, get_run, Id.pure_fst, Id.pure_snd, h, pure_run]

theorem memoised_run_of_none (h : lookup st.memo = none) :
    ((memoised lookup record compute).run env).run st =
      (((compute.run env).run st).1,
        { ((compute.run env).run st).2 with
          memo := record ((compute.run env).run st).2.memo ((compute.run env).run st).1 }) := by
  simp only [memoised, run_bind, get_run, Id.pure_fst, Id.pure_snd, h, modify_run, pure_run]

/-- A memoised query spends nothing beyond the fact it records, provided computing the answer
files no more than the fact weighs. -/
theorem Spends.query {φ : Fact} {n : Expr} {facts : List (Fact × Expr)} (hr : Records φ n.tag lookup record)
    (hcompute : Spends facts (φ.weight n) compute) :
    Spends ((φ, n) :: facts) 0 (memoised lookup record compute) := by
  intro env st
  cases hlook : lookup st.memo with
  | some v =>
    rw [memoised_run_of_some hlook]
    exact ⟨.refl _, Nat.le_add_right _ _⟩
  | none =>
    rw [memoised_run_of_none hlook]
    obtain ⟨hle, hcost⟩ := hcompute env st
    exact Spends.learn (by rw [hr.1, hlook]; rfl) hle hcost (hr.2 _ _).1 (hr.2 _ _).2 rfl

end Memoised

/-! ### Typing spends only what it learns -/

theorem variableSymbol_spends (e : Expr) (name : String) :
    Spends [(.name, e)] 0 (variableSymbol e name) := by
  rw [variableSymbol_eq_memoised]
  exact Spends.query (records_names e.tag) (Spends.resolveVariable name none e.span)

mutual

theorem typeOf_spends (n : Expr) : Spends n.facts 0 (typeOf n) := by
  rw [typeOf_eq_memoised, Expr.facts_eq]
  exact Spends.query (records_types n.tag) (typeOfNode_spends n)
termination_by 8 * sizeOf n + 3
decreasing_by
  all_goals
    try subst_vars
    simp_wf
    try simp
    try omega

theorem typesOf_spends (args : List Expr) : Spends (Expr.listFacts args) 0 (typesOf args) := by
  match args with
  | [] =>
    simp only [typesOf]
    exact Spends.pure _
  | a :: rest =>
    simp only [typesOf, Expr.listFacts_cons]
    exact Spends.mono (by omega) (Spends.bind (Spends.widen (typeOf_spends a) (List.sublist_append_left _ _)) fun _ =>
      Spends.bind (Spends.widen (typesOf_spends rest) (List.sublist_append_right _ _)) fun _ => Spends.pure _)
termination_by 8 * sizeOf args
decreasing_by
  all_goals
    try subst_vars
    simp_wf
    try simp
    try omega

theorem typeOfNode_spends (n : Expr) : Spends n.restFacts (Fact.weight .type n) (typeOfNode n) := by
  match n with
  | .node tag span k =>
    have part : ∀ {c : Expr}, c.nodes.Sublist k.nodes →
        c.facts.Sublist (Expr.node tag span k).restFacts := fun h => Expr.facts_sublist_restFacts h
    cases k with
    | integer v | character v | float v | constant v =>
      simp only [typeOfNode]
      exact Spends.mono (by simp [Fact.weight]) (Spends.bind Spends.machine fun _ => Spends.pure _)
    | «variable» name =>
      simp only [typeOfNode]
      refine Spends.mono (by simp [Fact.weight])
        (Spends.bind (b := 0) (Spends.widen (variableSymbol_spends _ _) (by simp [Expr.restFacts]))
          fun r => ?_)
      cases r
      · exact Spends.intType
      · exact Spends.pure _
    | this =>
      simp only [typeOfNode]
      exact Spends.mono (by simp [Fact.weight]) (Spends.thisType _)
    | member target name | arrow target name =>
      simp only [typeOfNode]
      refine Spends.mono (by simp [Fact.weight])
        (Spends.bind (b := 0) (Spends.widen (fieldOf_spends _) (by simp [Expr.restFacts])) fun r => ?_)
      cases r
      · exact Spends.intType
      · exact Spends.pure _
    | call f args =>
      simp only [typeOfNode]
      split
      · exact Spends.mono (by simp [Fact.weight]) Spends.intType
      · refine Spends.mono (by simp [Fact.weight])
          (Spends.bind (b := 0) (Spends.widen (callOverload_spends _) (by simp [Expr.restFacts]))
            fun r => ?_)
        cases r with
        | none => exact Spends.intType
        | some o =>
          dsimp only
          split
          · exact Spends.pure _
          · exact Spends.intType
    | cast ty operand =>
      simp only [typeOfNode]
      refine Spends.mono (by simp [Fact.weight]) (Spends.bind (Spends.resolveType _ _) fun _ =>
        Spends.bind (b := 1) (Spends.widen (typeOf_spends operand) (part (List.Sublist.refl _)))
          fun _ => ?_)
      split
      · exact Spends.bind (Spends.error _ _ _) fun _ => Spends.pure _
      · exact Spends.mono (by omega) (Spends.pure _)
    | unary op operand =>
      simp only [typeOfNode]
      refine Spends.mono (by simp [Fact.weight])
        (Spends.bind (Spends.widen (typeOf_spends operand) (part (List.Sublist.refl _))) fun _ =>
          Spends.bind (b := 1) Spends.machine fun _ => ?_)
      split
      · exact Spends.mono (by omega) (Spends.pure _)
      · exact Spends.bind (Spends.error _ _ _) fun _ => Spends.intType
    | binary op l r =>
      simp only [typeOfNode]
      refine Spends.mono (by simp [Fact.weight])
        (Spends.bind (Spends.widen (typeOf_spends l) (part (List.sublist_append_left _ _))) fun _ =>
          Spends.bind (Spends.widen (typeOf_spends r) (part (List.sublist_append_right _ _))) fun _ =>
            Spends.bind Spends.machine fun _ => Spends.bind (b := 1) Spends.registry fun _ => ?_)
      split
      · exact Spends.mono (by omega) Spends.intType
      · split
        · exact Spends.mono (by omega) (Spends.pure _)
        · exact Spends.mono (by omega) (Spends.pure _)
        · exact Spends.mono (by omega) (Spends.pure _)
        · exact Spends.mono (by omega) Spends.intType
        · exact Spends.bind (Spends.error _ _ _) fun _ => Spends.intType
    | logical op l r =>
      simp only [typeOfNode]
      refine Spends.mono (by simp [Fact.weight])
        (Spends.bind (Spends.widen (typeOf_spends l) (part (List.sublist_append_left _ _))) fun _ =>
          Spends.bind (b := 1) (Spends.widen (typeOf_spends r) (part (List.sublist_append_right _ _)))
            fun _ => ?_)
      split
      · exact Spends.bind (Spends.error _ _ _) fun _ => Spends.intType
      · exact Spends.mono (by omega) Spends.intType
    | assign target value =>
      simp only [typeOfNode]
      exact Spends.mono (by simp [Fact.weight])
        (Spends.widen (typeOf_spends target) (part (List.sublist_append_left _ _)))
    | addressOf operand =>
      simp only [typeOfNode]
      exact Spends.mono (by simp [Fact.weight])
        (Spends.bind (Spends.widen (typeOf_spends operand) (part (List.Sublist.refl _))) fun _ => Spends.pure _)
    | deref operand =>
      simp only [typeOfNode]
      refine Spends.mono (by simp [Fact.weight])
        (Spends.bind (b := 1) (Spends.widen (typeOf_spends operand) (part (List.Sublist.refl _)))
          fun t => ?_)
      split
      · split
        · exact Spends.mono (by omega) (Spends.pure _)
        · exact Spends.bind (Spends.error _ _ _) fun _ => Spends.intType
      · exact Spends.mono (by omega) (Spends.pure _)
      · exact Spends.bind (Spends.error _ _ _) fun _ => Spends.intType
    | error =>
      simp only [typeOfNode]
      exact Spends.mono (by simp [Fact.weight]) Spends.intType
termination_by 8 * sizeOf n + 2
decreasing_by
  all_goals
    try subst_vars
    simp_wf
    try simp
    try omega

theorem fieldOf_spends (n : Expr) : Spends ((.field, n) :: n.lowerFacts) 0 (fieldOf n) := by
  rw [fieldOf_eq_memoised]
  exact Spends.query (records_fields n.tag) (resolveField_spends n)
termination_by 8 * sizeOf n + 1
decreasing_by
  all_goals
    try subst_vars
    simp_wf
    try simp
    try omega

theorem resolveField_spends (n : Expr) : Spends n.lowerFacts 1 (resolveField n) := by
  match n with
  | .node tag span (.member target name) =>
    simp only [resolveField]
    exact Spends.bind (Spends.widen (typeOf_spends target) (Expr.facts_sublist_lowerFacts (List.Sublist.refl _)))
      fun _ => Spends.selectField _ _ _ _
  | .node tag span (.arrow target name) =>
    simp only [resolveField]
    exact Spends.bind (Spends.widen (typeOf_spends target) (Expr.facts_sublist_lowerFacts (List.Sublist.refl _)))
      fun _ => Spends.selectField _ _ _ _
  | .node tag span (.integer _) | .node tag span (.character _) | .node tag span (.float _)
  | .node tag span (.constant _) | .node tag span (.variable _) | .node tag span .this
  | .node tag span (.call _ _) | .node tag span (.cast _ _) | .node tag span (.unary _ _)
  | .node tag span (.binary _ _ _) | .node tag span (.logical _ _ _)
  | .node tag span (.assign _ _) | .node tag span (.addressOf _) | .node tag span (.deref _)
  | .node tag span .error =>
    simp only [resolveField]
    exact Spends.bind (Spends.error _ _ _) fun _ => Spends.pure _
termination_by 8 * sizeOf n
decreasing_by
  all_goals
    try subst_vars
    simp_wf
    try simp
    try omega

theorem callOverload_spends (n : Expr) : Spends ((.call, n) :: n.lowerFacts) 0 (callOverload n) := by
  match n with
  | .node tag span (.call f args) =>
    rw [callOverload_eq_memoised]
    -- the arguments' types, then the callee's resolution, which files at most one diagnostic
    exact Spends.query (n := .node tag span (.call f args)) (records_calls tag)
      (Spends.bind (Spends.widen (typesOf_spends args)
          (Expr.listFacts_sublist_lowerFacts (List.sublist_append_right _ _))) fun ts =>
        Spends.widen (resolveOverload_spends f ts)
          (Expr.facts_sublist_lowerFacts (List.sublist_append_left _ _)))
  | .node tag span (.integer _) | .node tag span (.character _) | .node tag span (.float _)
  | .node tag span (.constant _) | .node tag span (.variable _) | .node tag span .this
  | .node tag span (.member _ _) | .node tag span (.arrow _ _) | .node tag span (.cast _ _)
  | .node tag span (.unary _ _) | .node tag span (.binary _ _ _)
  | .node tag span (.logical _ _ _) | .node tag span (.assign _ _)
  | .node tag span (.addressOf _) | .node tag span (.deref _) | .node tag span .error =>
    simp only [callOverload]
    exact Spends.pure _
termination_by 8 * sizeOf n + 1
decreasing_by
  all_goals
    try subst_vars
    simp_wf
    try simp
    try omega

theorem resolveOverload_spends (f : Expr) (args : List CType) :
    Spends f.facts 1 (resolveOverload f args) := by
  match f with
  | .node tag span (.member target name) =>
    simp only [resolveOverload]
    refine Spends.bind (b := 1) (Spends.widen (typeOf_spends target)
      (Expr.facts_sublist_facts (n := .node tag span (.member target name)) (List.Sublist.refl _)))
      fun _ => ?_
    split
    · exact Spends.resolveMethod _ _ _ _ _
    · exact Spends.bind (Spends.error _ _ _) fun _ => Spends.pure _
  | .node tag span (.arrow target name) =>
    simp only [resolveOverload]
    refine Spends.bind (b := 1) (Spends.widen (typeOf_spends target)
      (Expr.facts_sublist_facts (n := .node tag span (.arrow target name)) (List.Sublist.refl _)))
      fun _ => ?_
    split
    · exact Spends.resolveMethod _ _ _ _ _
    · exact Spends.bind (Spends.error _ _ _) fun _ => Spends.pure _
  | .node tag span (.variable name) =>
    simp only [resolveOverload]
    refine Spends.bind (b := 0) (Spends.resolveVariable _ _ _) fun r => ?_
    split <;> exact Spends.pure _
  | .node tag span .error =>
    simp only [resolveOverload]
    exact Spends.mono (by omega) (Spends.bind Spends.intType fun _ => Spends.pure _)
  | .node tag span (.integer _) | .node tag span (.character _) | .node tag span (.float _)
  | .node tag span (.constant _) | .node tag span .this | .node tag span (.call _ _)
  | .node tag span (.cast _ _) | .node tag span (.unary _ _) | .node tag span (.binary _ _ _)
  | .node tag span (.logical _ _ _) | .node tag span (.assign _ _)
  | .node tag span (.addressOf _) | .node tag span (.deref _) =>
    simp only [resolveOverload]
    exact Spends.mono (by omega) (Spends.bind (typeOf_spends _) fun _ => Spends.pure _)
termination_by 8 * sizeOf f + 4
decreasing_by
  all_goals
    try subst_vars
    simp_wf
    try simp
    try omega

end

theorem literal_spends (e : Expr) (v : Value) : Spends e.facts 0 (emitLiteral e v) := by
  unfold emitLiteral
  exact Spends.bind (typeOf_spends e) fun _ => Spends.push _

/-! ### Emission files one diagnostic of each node's own and one per conversion -/

mutual

theorem emitExpr_spends (n : Expr) : Spends n.facts (2 * n.kind.nodes.length + 1) (emitExpr n) := by
  match n with
  | .node tag span k =>
    have part : ∀ {c : Expr}, c.nodes.Sublist k.nodes → c.facts.Sublist (Expr.node tag span k).facts :=
      fun h => Expr.facts_sublist_facts h
    cases k with
    | integer v | character v | float v =>
      simp only [emitExpr]
      exact Spends.mono (by omega) (literal_spends _ _)
    | constant v =>
      simp only [emitExpr]
      exact Spends.mono (by omega) (Spends.push _)
    | «variable» name =>
      simp only [emitExpr]
      refine Spends.mono (by omega) (Spends.bind (b := 1)
        (Spends.widen (variableSymbol_spends _ _) (Expr.name_sublist_facts _)) fun r => ?_)
      split
      · split
        · exact Spends.error _ _ _
        · split
          · exact Spends.mono (by omega) (Spends.push _)
          · exact Spends.mono (by omega) (Spends.push _)
          · exact Spends.mono (by omega) (Spends.bind (Spends.thisField _) fun _ => Spends.push _)
          · exact Spends.mono (by omega) (Spends.push _)
          · exact Spends.error _ _ _
      · exact Spends.mono (by omega) (Spends.pure _)
    | this =>
      simp only [emitExpr]
      refine Spends.mono (by omega) (Spends.bind (b := 0) (typeOf_spends _) fun _ => ?_)
      split
      · exact Spends.push _
      · exact Spends.pure _
    | member target name | arrow target name =>
      simp only [emitExpr]
      refine Spends.mono ?_ (Spends.bind (b := 2 * target.nodes.length + 1)
        (Spends.widen (fieldOf_spends _) (Expr.field_sublist_facts _)) fun r => ?_)
      · simp only [Expr.kind_node, ExprKind.nodes]
        omega
      split
      · split
        · exact Spends.mono (by omega) (Spends.error _ _ _)
        · refine Spends.mono ?_ (Spends.bind (emitMemberPointer_spends _) fun _ => Spends.push _)
          simp only [Expr.kind_node, ExprKind.nodes]
          omega
      · exact Spends.mono (by omega) (Spends.pure _)
    | call f args =>
      simp only [emitExpr]
      split
      · exact Spends.mono (by omega) (Spends.pure _)
      refine Spends.mono ?_ (Spends.bind (Spends.widen (typesOf_spends args)
        (Expr.listFacts_sublist_facts (n := .node tag span (.call f args))
          (List.sublist_append_right _ _))) fun ts =>
        Spends.bind (b := 2 * (Expr.listNodes args).length + (2 * f.kind.nodes.length + 1))
          (Spends.widen (callOverload_spends _) (Expr.call_sublist_facts _)) fun r => ?_)
      · simp only [Expr.kind_node, ExprKind.nodes, List.length_append, Expr.length_nodes f]
        omega
      split
      · split
        · split
          · exact Spends.mono (by omega) (Spends.bind (Spends.error _ _ _) fun _ => Spends.pure _)
          · refine Spends.mono (by omega) (Spends.bind (Spends.widen (emitArguments_spends args ts _)
              (Expr.listFacts_sublist_facts (n := .node tag span (.call f args))
                (List.sublist_append_right _ _))) fun _ =>
              Spends.bind (Spends.forIn _ fun _ => Spends.bind (Spends.push _) fun _ => Spends.pure _)
                fun _ => Spends.bind (Spends.widen (emitCallee_spends f _)
                  (part (List.sublist_append_left _ _))) fun _ =>
                  Spends.bind (b := 0) (Spends.push _) fun _ => ?_)
            split
            · exact Spends.bind Spends.intKind fun _ => Spends.push _
            · exact Spends.pure _
        · exact Spends.mono (by omega) (Spends.error _ _ _)
      · exact Spends.mono (by omega) (Spends.pure _)
    | cast ty operand =>
      simp only [emitExpr]
      refine Spends.mono ?_ (Spends.bind (typeOf_spends _) fun _ =>
        Spends.bind (Spends.widen (typeOf_spends operand) (part (List.Sublist.refl _))) fun _ =>
          Spends.bind (b := 0) (Spends.widen (emitExpr_spends operand) (part (List.Sublist.refl _)))
            fun _ => ?_)
      · simp only [Expr.kind_node, ExprKind.nodes, Expr.length_nodes operand]
        omega
      split
      · exact Spends.conversion _ _
      · exact Spends.pure _
    | unary op operand =>
      simp only [emitExpr]
      refine Spends.mono ?_ (Spends.bind (typeOf_spends _) fun _ =>
        Spends.bind (Spends.widen (typeOf_spends operand) (part (List.Sublist.refl _))) fun _ =>
          Spends.bind (b := 0) (Spends.widen (emitExpr_spends operand) (part (List.Sublist.refl _)))
            fun _ => ?_)
      · simp only [Expr.kind_node, ExprKind.nodes, Expr.length_nodes operand]
        omega
      split
      · exact Spends.bind (Spends.conversion _ _) fun _ => Spends.push _
      · exact Spends.push _
    | binary op l r =>
      simp only [emitExpr]
      have hl := Spends.widen (emitExpr_spends l) (part (List.sublist_append_left _ _))
      have hr := Spends.widen (emitExpr_spends r) (part (List.sublist_append_right _ _))
      refine Spends.mono ?_ (Spends.bind (typeOf_spends _) fun _ =>
        Spends.bind (Spends.widen (typeOf_spends l) (part (List.sublist_append_left _ _))) fun _ =>
          Spends.bind (Spends.widen (typeOf_spends r) (part (List.sublist_append_right _ _))) fun _ =>
            Spends.bind Spends.machine fun _ =>
              Spends.bind (b := 2 * l.kind.nodes.length + 1 + (2 * r.kind.nodes.length + 1))
                Spends.registry fun _ => ?_)
      · simp only [Expr.kind_node, ExprKind.nodes, List.length_append, Expr.length_nodes l, Expr.length_nodes r]
        omega
      split
      · exact Spends.mono (by omega) (Spends.bind hl fun _ => Spends.bind (Spends.conversion _ _)
          fun _ => Spends.bind hr fun _ => Spends.bind (Spends.conversion _ _) fun _ => Spends.push _)
      · exact Spends.mono (by omega) (Spends.bind hl fun _ => Spends.bind (Spends.conversion _ _)
          fun _ => Spends.bind hr fun _ => Spends.bind (Spends.conversion _ _) fun _ => Spends.push _)
      · split
        · exact Spends.mono (by omega) (Spends.bind hl fun _ => Spends.bind hr fun _ => Spends.push _)
        · exact Spends.mono (by omega) (Spends.bind hr fun _ => Spends.bind hl fun _ => Spends.push _)
      · exact Spends.mono (by omega) (Spends.bind hl fun _ => Spends.bind (Spends.conversion _ _)
          fun _ => Spends.bind hr fun _ => Spends.bind (Spends.conversion _ _) fun _ => Spends.push _)
      · exact Spends.mono (by omega) (Spends.pure _)
    | logical op l r =>
      simp only [emitExpr]
      refine Spends.mono ?_ (Spends.bind (typeOf_spends _) fun _ =>
        Spends.logical (Spends.widen (emitExpr_spends l) (part (List.sublist_append_left _ _)))
          (Spends.widen (emitExpr_spends r) (part (List.sublist_append_right _ _))))
      simp only [Expr.kind_node, ExprKind.nodes, List.length_append, Expr.length_nodes l, Expr.length_nodes r]
      omega
    | assign target value =>
      simp only [emitExpr]
      refine Spends.mono ?_ (Spends.bind (Spends.widen (typeOf_spends target)
        (part (List.sublist_append_left _ _))) fun _ =>
          Spends.bind (b := 2 * value.kind.nodes.length + 1 + (1 + (2 * target.kind.nodes.length + 1)))
            (Spends.widen (typeOf_spends value) (part (List.sublist_append_right _ _))) fun _ => ?_)
      · simp only [Expr.kind_node, ExprKind.nodes, List.length_append, Expr.length_nodes target,
          Expr.length_nodes value]
        omega
      split
      · exact Spends.mono (by omega) (Spends.error _ _ _)
      · exact Spends.mono (by omega) (Spends.bind (Spends.widen (emitExpr_spends value)
          (part (List.sublist_append_right _ _))) fun _ => Spends.bind (Spends.cast _ _ _) fun _ =>
            Spends.bind (Spends.push _) fun _ => Spends.bind (Spends.widen (emitPointer_spends target)
              (part (List.sublist_append_left _ _))) fun _ => Spends.push _)
    | addressOf operand =>
      simp only [emitExpr]
      refine Spends.mono ?_ (Spends.bind (b := 2 * operand.kind.nodes.length + 1)
        (Spends.widen (typeOf_spends operand) (part (List.Sublist.refl _))) fun _ => ?_)
      · simp only [Expr.kind_node, ExprKind.nodes, Expr.length_nodes operand]
        omega
      split
      · exact Spends.widen (emitExpr_spends operand) (part (List.Sublist.refl _))
      · exact Spends.widen (emitPointer_spends operand) (part (List.Sublist.refl _))
    | deref operand =>
      simp only [emitExpr]
      refine Spends.mono ?_ (Spends.bind (b := 2 * operand.kind.nodes.length + 1)
        (typeOf_spends _) fun _ => ?_)
      · simp only [Expr.kind_node, ExprKind.nodes, Expr.length_nodes operand]
        omega
      split
      · exact Spends.widen (emitExpr_spends operand) (part (List.Sublist.refl _))
      · exact Spends.mono (by omega) (Spends.error _ _ _)
      · exact Spends.mono (by omega) (Spends.bind (Spends.widen (emitExpr_spends operand)
          (part (List.Sublist.refl _))) fun _ => Spends.push _)
    | error =>
      simp only [emitExpr]
      exact Spends.mono (by omega) (Spends.pure _)
termination_by 8 * sizeOf n + 2
decreasing_by
  all_goals
    try subst_vars
    simp_wf
    try simp
    try omega

theorem emitPointer_spends (n : Expr) :
    Spends n.facts (2 * n.kind.nodes.length + 1) (emitPointer n) := by
  match n with
  | .node tag span (.variable name) =>
    simp only [emitPointer]
    refine Spends.mono (by omega) (Spends.bind (b := 1)
      (Spends.widen (variableSymbol_spends _ _) (Expr.name_sublist_facts _)) fun r => ?_)
    split
    · exact Spends.mono (by omega) (Spends.pure _)
    · exact Spends.mono (by omega) (Spends.push _)
    · exact Spends.mono (by omega) (Spends.push _)
    · exact Spends.mono (by omega) (Spends.thisField _)
    · exact Spends.error _ _ _
  | .node tag span (.member target name) =>
    simp only [emitPointer]
    exact emitMemberPointer_spends _
  | .node tag span (.arrow target name) =>
    simp only [emitPointer]
    exact emitMemberPointer_spends _
  | .node tag span (.deref operand) =>
    simp only [emitPointer]
    refine Spends.mono ?_ (Spends.bind (typeOf_spends _) fun _ =>
      Spends.widen (emitExpr_spends operand) (Expr.facts_sublist_facts
        (n := .node tag span (.deref operand)) (List.Sublist.refl _)))
    simp only [Expr.kind_node, ExprKind.nodes, Expr.length_nodes operand]
    omega
  | .node tag span .error =>
    simp only [emitPointer]
    exact Spends.mono (by omega) (Spends.pure _)
  | .node tag span (.integer _) | .node tag span (.character _) | .node tag span (.float _)
  | .node tag span (.constant _) | .node tag span .this | .node tag span (.call _ _)
  | .node tag span (.cast _ _) | .node tag span (.unary _ _) | .node tag span (.binary _ _ _)
  | .node tag span (.logical _ _ _) | .node tag span (.assign _ _)
  | .node tag span (.addressOf _) =>
    simp only [emitPointer]
    exact Spends.mono (by omega) (Spends.error _ _ _)
termination_by 8 * sizeOf n + 1
decreasing_by
  all_goals
    try subst_vars
    simp_wf
    try simp
    try omega

theorem emitMemberPointer_spends (n : Expr) :
    Spends n.facts (2 * n.kind.nodes.length + 1) (emitMemberPointer n) := by
  match n with
  | .node tag span (.member target name) =>
    simp only [emitMemberPointer]
    refine Spends.mono ?_ (Spends.bind (b := 2 * target.kind.nodes.length + 1)
      (Spends.widen (fieldOf_spends _) (Expr.field_sublist_facts _)) fun r => ?_)
    · simp only [Expr.kind_node, ExprKind.nodes, Expr.length_nodes target]
      omega
    split
    · refine Spends.bind (b := 0) (Spends.widen (emitPointer_spends target) (Expr.facts_sublist_facts
        (n := .node tag span (.member target name)) (List.Sublist.refl _))) fun _ => ?_
      split
      · exact Spends.push _
      · exact Spends.pure _
    · exact Spends.mono (by omega) (Spends.pure _)
  | .node tag span (.arrow target name) =>
    simp only [emitMemberPointer]
    refine Spends.mono ?_ (Spends.bind (b := 2 * target.kind.nodes.length + 1)
      (Spends.widen (fieldOf_spends _) (Expr.field_sublist_facts _)) fun r => ?_)
    · simp only [Expr.kind_node, ExprKind.nodes, Expr.length_nodes target]
      omega
    split
    · refine Spends.bind (b := 0) (Spends.widen (emitExpr_spends target) (Expr.facts_sublist_facts
        (n := .node tag span (.arrow target name)) (List.Sublist.refl _))) fun _ => ?_
      split
      · exact Spends.push _
      · exact Spends.pure _
    · exact Spends.mono (by omega) (Spends.pure _)
  | .node tag span (.integer _) | .node tag span (.character _) | .node tag span (.float _)
  | .node tag span (.constant _) | .node tag span (.variable _) | .node tag span .this
  | .node tag span (.call _ _) | .node tag span (.cast _ _) | .node tag span (.unary _ _)
  | .node tag span (.binary _ _ _) | .node tag span (.logical _ _ _)
  | .node tag span (.assign _ _) | .node tag span (.addressOf _) | .node tag span (.deref _)
  | .node tag span .error =>
    simp only [emitMemberPointer]
    exact Spends.mono (by omega) (Spends.pure _)
termination_by 8 * sizeOf n
decreasing_by
  all_goals
    try subst_vars
    simp_wf
    try simp
    try omega

theorem emitArguments_spends (args : List Expr) (ts : List CType) (ps : List Parameter) :
    Spends (Expr.listFacts args) (2 * (Expr.listNodes args).length) (emitArguments args ts ps) := by
  match args, ts, ps with
  | a :: rest, t :: ts, p :: ps =>
    simp only [emitArguments, Expr.listFacts_cons]
    refine Spends.mono ?_ (Spends.bind (Spends.widen (emitExpr_spends a)
      (List.sublist_append_left _ _)) fun _ => Spends.bind (Spends.cast _ _ _) fun _ =>
        Spends.widen (emitArguments_spends rest ts ps) (List.sublist_append_right _ _))
    simp only [Expr.listNodes, List.length_append, Expr.length_nodes a]
    omega
  | [], _, _ | _ :: _, [], _ | _ :: _, _ :: _, [] =>
    simp only [emitArguments]
    exact Spends.mono (by omega) (Spends.pure _)
termination_by 8 * sizeOf args
decreasing_by
  all_goals
    try subst_vars
    simp_wf
    try simp
    try omega

theorem emitCallee_spends (f : Expr) (callee : Callee) :
    Spends f.facts (2 * f.kind.nodes.length + 1) (emitCallee f callee) := by
  match f, callee with
  | .node tag span k, .method .address address =>
    cases k
    case member target name =>
      simp only [emitCallee]
      refine Spends.mono ?_ (Spends.bind (Spends.widen (emitPointer_spends target)
        (Expr.facts_sublist_facts (n := .node tag span (.member target name)) (List.Sublist.refl _)))
          fun _ => Spends.pushAddress _)
      simp only [Expr.kind_node, ExprKind.nodes, Expr.length_nodes target]
      omega
    all_goals
      simp only [emitCallee]
      exact Spends.mono (by omega) (Spends.pushAddress _)
  | .node tag span k, .method .pointer address =>
    cases k
    case arrow target name =>
      simp only [emitCallee]
      refine Spends.mono ?_ (Spends.bind (Spends.widen (emitExpr_spends target)
        (Expr.facts_sublist_facts (n := .node tag span (.arrow target name)) (List.Sublist.refl _)))
          fun _ => Spends.pushAddress _)
      simp only [Expr.kind_node, ExprKind.nodes, Expr.length_nodes target]
      omega
    all_goals
      simp only [emitCallee]
      exact Spends.mono (by omega) (Spends.pushAddress _)
  | _, .method .this address =>
    simp only [emitCallee]
    exact Spends.mono (by omega) (Spends.bind (Spends.push _) fun _ => Spends.pushAddress _)
  | _, .function address =>
    simp only [emitCallee]
    exact Spends.mono (by omega) (Spends.pushAddress _)
  | f, .value =>
    simp only [emitCallee]
    exact emitExpr_spends f
  | _, .nothing =>
    simp only [emitCallee]
    exact Spends.mono (by omega) (Spends.pure _)
termination_by 8 * sizeOf f + 3
decreasing_by
  all_goals
    try subst_vars
    simp_wf
    try simp
    try omega

end

/-! ### A known fact is asked about at no cost -/

theorem typeOf_cast_unknownType {env : EmitEnv} {st : EmitState} {tag : Nat} {span : Span}
    {ty : TypeName} {operand : Expr} {t : CType} {err : TypeError} (hmiss : st.memo.types[tag]? = none)
    (hoperand : st.memo.types[operand.tag]? = some t)
    (hunknown : env.registry.resolve env.machine ty = .error err)
    (hcast : t.castAllowed (CType.int env.machine) = false) :
    ((typeOf (.node tag span (.cast ty operand))).run env).run st =
      (CType.int env.machine, { st with
        report := (st.report.error .e0246 span err.message).error .e0030 span
          (conversionMessage t (CType.int env.machine))
        memo := { st.memo with types := st.memo.types.insert tag (CType.int env.machine) } }) := by
  -- The unknown type files E0246 and stands in `int`; the memo is untouched, so the operand hits.
  have hresolve : ((resolveType ty span).run env).run st =
      (CType.int env.machine, { st with report := st.report.error .e0246 span err.message }) := by
    unfold resolveType
    simp only [run_bind, registry_run, machine_run, hunknown, error_run, intType_run,
      StateT.run_pure, Id.pure_fst, Id.pure_snd]
  have hoperandRun : ((typeOf operand).run env).run
      { st with report := st.report.error .e0246 span err.message } =
        (t, { st with report := st.report.error .e0246 span err.message }) := by
    rw [typeOf_eq_memoised]
    exact memoised_run_of_some hoperand
  rw [typeOf_eq_memoised, memoised_run_of_none hmiss]
  simp only [typeOfNode, run_bind, hresolve, hoperandRun, hcast, Bool.not_false, ↓reduceIte,
    error_run, pure_run, Id.pure_snd, Expr.tag]

end EmitM

end CStack
