import CStack.Proofs.Resolution

/-!
# The tables the declaration passes build

Before any body is emitted, the passes of a unit fill three tables: the struct registry, the
overloads of each free function or intrinsic with the address of its body once it has one, and
the bodies recorded for struct methods, together with the functions of the executable, indexed by
address. Emission reads them and never changes them.

This module says once what each pass can do to the tables, as one inversion lemma per pass, so
that every invariant of the tables is proved from these lemmas and never by unfolding a pass
again. It also collects the facts about type identity that the pairing of declarations rests on:
prototypes and definitions are paired by `FunctionType.sameParameterTypes`, which compares the
parameter types with `CType.same` and nothing else.
-/

namespace CStack

/-! ### Type identity -/

mutual

theorem CType.same_refl : ∀ t : CType, t.same t = true
  | .void => by simp [CType.same]
  | .basic b => by simp [CType.same, BasicType.same]
  | .pointer t => by simp [CType.same, CType.same_refl t]
  | .function f => by simp [CType.same, FunctionType.same_refl f]
  | .struct id => by simp [CType.same]

theorem FunctionType.same_refl : ∀ f : FunctionType, f.same f = true
  | .mk r ps i => by simp [FunctionType.same, CType.same_refl r, Parameter.sameList_refl ps]

theorem Parameter.sameList_refl : ∀ ps : List Parameter, Parameter.sameList ps ps = true
  | [] => by simp [Parameter.sameList]
  | .mk n t d :: ps => by simp [Parameter.sameList, CType.same_refl t, Parameter.sameList_refl ps]

end

mutual

theorem CType.same_comm : ∀ t u : CType, t.same u = u.same t
  | .void, u => by cases u <;> simp [CType.same]
  | .basic a, u => by
    cases u with
    | basic b =>
      simp only [CType.same, BasicType.same]
      rw [Bool.and_comm (a.kind == b.kind), Bool.and_comm (b.kind == a.kind)]
      simp only [Bool.beq_comm]
    | _ => simp [CType.same]
  | .pointer t, u => by
    cases u with
    | pointer u => simp only [CType.same, CType.same_comm t u]
    | _ => simp [CType.same]
  | .function f, u => by
    cases u with
    | function g => simp only [CType.same, FunctionType.same_comm f g]
    | _ => simp [CType.same]
  | .struct a, u => by
    cases u with
    | struct b => simp only [CType.same, Bool.beq_comm]
    | _ => simp [CType.same]

theorem FunctionType.same_comm : ∀ f g : FunctionType, f.same g = g.same f
  | .mk r ps i, .mk r' ps' i' => by
    simp only [FunctionType.same, CType.same_comm r r', Parameter.sameList_comm ps ps', Bool.beq_comm]

theorem Parameter.sameList_comm : ∀ ps qs : List Parameter,
    Parameter.sameList ps qs = Parameter.sameList qs ps
  | [], [] => rfl
  | [], _ :: _ => by simp [Parameter.sameList]
  | _ :: _, [] => by simp [Parameter.sameList]
  | .mk n t d :: ps, .mk n' t' d' :: qs => by
    simp only [Parameter.sameList, CType.same_comm t t', Parameter.sameList_comm ps qs, Bool.beq_comm]

end

namespace FunctionType

private theorem all_zip_same_self :
    ∀ ps : List Parameter, ((ps.zip ps).all fun (p, q) => p.type.same q.type) = true
  | [] => rfl
  | p :: ps => by simp [List.zip_cons_cons, CType.same_refl p.type, all_zip_same_self ps]

private theorem all_zip_same_comm : ∀ ps qs : List Parameter,
    ((ps.zip qs).all fun (p, q) => p.type.same q.type) =
      ((qs.zip ps).all fun (p, q) => p.type.same q.type)
  | [], _ => by simp
  | _ :: _, [] => by simp
  | p :: ps, q :: qs => by
    simp [List.zip_cons_cons, CType.same_comm p.type q.type, all_zip_same_comm ps qs]

theorem sameParameterTypes_refl (f : FunctionType) : f.sameParameterTypes f = true := by
  simp [sameParameterTypes, all_zip_same_self]

theorem sameParameterTypes_comm (f g : FunctionType) :
    f.sameParameterTypes g = g.sameParameterTypes f := by
  unfold sameParameterTypes
  rw [all_zip_same_comm, Bool.beq_comm]

@[simp] theorem ret_intoInstance (f : FunctionType) : f.intoInstance.ret = f.ret := by
  cases f; rfl

@[simp] theorem params_intoInstance (f : FunctionType) : f.intoInstance.params = f.params := by
  cases f; rfl

@[simp] theorem isInstance_intoInstance (f : FunctionType) : f.intoInstance.isInstance = true := by
  cases f; rfl

@[simp] theorem sameParameterTypes_intoInstance_left (f g : FunctionType) :
    f.intoInstance.sameParameterTypes g = f.sameParameterTypes g := by
  simp [sameParameterTypes]

@[simp] theorem sameParameterTypes_intoInstance_right (f g : FunctionType) :
    f.sameParameterTypes g.intoInstance = f.sameParameterTypes g := by
  simp [sameParameterTypes]

theorem length_params_eq_of_sameParameterTypes {f g : FunctionType}
    (h : f.sameParameterTypes g = true) : f.params.length = g.params.length := by
  simp only [sameParameterTypes, Bool.and_eq_true, beq_iff_eq] at h
  exact h.1

end FunctionType

theorem Registry.isInstance_of_resolveSignature {r : Registry} {m : Machine} {s : Signature}
    {f : FunctionType} (h : r.resolveSignature m s = .ok f) : f.isInstance = false := by
  unfold Registry.resolveSignature at h
  simp only [bind, Except.bind] at h
  split at h
  · cases h
  · split at h
    · cases h
    · simp only [pure, Except.pure, Except.ok.injEq] at h
      rw [← h]
      rfl

/-! ### The symbol table's operations -/

namespace SymbolTable

private theorem lookup_cons_ite {κ ν : Type} [BEq κ] (k a : κ) (v : ν) (l : List (κ × ν)) :
    ((k, v) :: l).lookup a = if a == k then some v else l.lookup a := by
  simp only [List.lookup_cons]
  split <;> simp_all

private theorem lookup_filter_ne {κ ν : Type} [BEq κ] [LawfulBEq κ] (l : List (κ × ν)) (k a : κ) :
    (l.filter (·.1 != k)).lookup a = if a == k then none else l.lookup a := by
  induction l with
  | nil => simp
  | cons p l ih =>
    obtain ⟨k', v⟩ := p
    by_cases hk : k' = k
    · subst hk
      have hdrop : ((k', v) :: l).filter (·.1 != k') = l.filter (·.1 != k') := by
        simp
      rw [hdrop, ih, lookup_cons_ite]
      by_cases ha : a = k' <;> simp [ha]
    · have hkeep : ((k', v) :: l).filter (·.1 != k) = (k', v) :: l.filter (·.1 != k) := by
        simp [hk]
      rw [hkeep, lookup_cons_ite, lookup_cons_ite, ih]
      by_cases ha : a = k'
      · subst ha
        simp [hk]
      · simp [ha]

theorem functionsNamed_setOverloads (t : SymbolTable) (name name' : String)
    (fs : List FunctionSymbol) :
    (t.setOverloads name fs).functionsNamed name' =
      if name' = name then fs else t.functionsNamed name' := by
  simp only [setOverloads, functionsNamed, lookup_cons_ite, lookup_filter_ne]
  by_cases h : name' = name <;> simp [h]

theorem functionsNamed_addOverload (t : SymbolTable) (name name' : String) (f : FunctionSymbol) :
    (t.addOverload name f).functionsNamed name' =
      if name' = name then t.functionsNamed name ++ [f] else t.functionsNamed name' :=
  functionsNamed_setOverloads t name name' _

theorem methodBodies_setOverloads (t : SymbolTable) (name : String) (fs : List FunctionSymbol)
    (owner : StructId) (method : String) :
    (t.setOverloads name fs).methodBodies owner method = t.methodBodies owner method := rfl

theorem functionsNamed_addMethod (t : SymbolTable) (owner : StructId) (method : String)
    (type : FunctionType) (address : Nat) (name : String) :
    (t.addMethod owner method type address).functionsNamed name = t.functionsNamed name := rfl

theorem methodBodies_addMethod (t : SymbolTable) (owner : StructId) (method : String)
    (type : FunctionType) (address : Nat) (owner' : StructId) (method' : String) :
    (t.addMethod owner method type address).methodBodies owner' method' =
      if (owner', method') = (owner, method) then t.methodBodies owner method ++ [(type, address)]
      else t.methodBodies owner' method' := by
  simp only [addMethod, methodBodies, lookup_cons_ite, lookup_filter_ne]
  by_cases h : (owner', method') = (owner, method) <;> simp [h]

theorem addGlobal_tables {t t' : SymbolTable} {name : String} {g : GlobalSymbol}
    (h : t.addGlobal name g = some t') : t'.functions = t.functions ∧ t'.methods = t.methods := by
  unfold addGlobal at h
  split at h
  · cases h
  · cases h
    exact ⟨rfl, rfl⟩

theorem methodDefinition_spec {t : SymbolTable} {owner : StructId} {name : String}
    {declared : FunctionType} {address : Nat}
    (h : t.methodDefinition owner name declared = some address) :
    ∃ type, (type, address) ∈ t.methodBodies owner name ∧
      type.sameParameterTypes declared = true := by
  unfold methodDefinition at h
  cases hfind : (t.methodBodies owner name).find? (·.1.sameParameterTypes declared) with
  | none => simp [hfind] at h
  | some body =>
    simp only [hfind, Option.map_some, Option.some.injEq] at h
    subst h
    have hsame := List.find?_some hfind
    exact ⟨body.1, List.mem_of_find?_eq_some hfind, hsame⟩

end SymbolTable

/-! ### The registry's methods -/

theorem StructType.mem_methodsNamed {s : StructType} {name : String} {f : FunctionType} :
    f ∈ s.methodsNamed name ↔ StructMember.method name f ∈ s.members := by
  unfold StructType.methodsNamed
  simp only [List.mem_filterMap]
  constructor
  · rintro ⟨member, hmem, hf⟩
    cases member with
    | method n g =>
      by_cases hn : n = name
      · simp only [hn, if_true, Option.some.injEq] at hf
        rw [← hn, ← hf]
        exact hmem
      · simp [hn] at hf
    | field _ _ => cases hf
  · intro h
    exact ⟨_, h, by simp⟩

namespace Registry

/-- Every method a struct of the registry declares takes a receiver. -/
def MethodsTakeReceivers (r : Registry) : Prop :=
  ∀ st ∈ r.structs, ∀ name f, StructMember.method name f ∈ st.members → f.isInstance = true

theorem mem_structs_of_get? {r : Registry} {id : StructId} {st : StructType}
    (h : r.get? id = some st) : st ∈ r.structs := by
  unfold get? at h
  split at h
  · rename_i s hs
    split at h
    · cases h
      exact Array.mem_of_getElem? hs
    · cases h
  · cases h

namespace MethodsTakeReceivers

variable {r : Registry}

theorem isInstance (h : r.MethodsTakeReceivers) {id : StructId} {st : StructType} {name : String}
    {f : FunctionType} (hst : r.get? id = some st) (hf : f ∈ st.methodsNamed name) :
    f.isInstance = true :=
  h st (mem_structs_of_get? hst) name f (StructType.mem_methodsNamed.mp hf)

theorem empty : ({} : Registry).MethodsTakeReceivers := by
  simp [MethodsTakeReceivers]

theorem declare (h : r.MethodsTakeReceivers) (name : String) :
    (r.declare name).2.MethodsTakeReceivers := by
  unfold Registry.declare
  split
  · exact h
  · intro st hst
    rcases Array.mem_push.mp hst with hst | rfl
    · exact h st hst
    · simp

theorem define (h : r.MethodsTakeReceivers) {id : StructId} {members : List StructMember}
    {r' : Registry} (hms : ∀ n f, StructMember.method n f ∈ members → f.isInstance = true)
    (hdef : r.define id members = .ok r') : r'.MethodsTakeReceivers := by
  unfold Registry.define at hdef
  simp only [bind, Except.bind] at hdef
  split at hdef
  · cases hdef
  · split at hdef
    · cases hdef
    · cases hdef
      intro st hst
      rcases Array.mem_or_eq_of_mem_setIfInBounds hst with hst | rfl
      · exact h st hst
      · exact hms

end MethodsTakeReceivers

end Registry

/-! ### Actions that keep the tables -/

namespace AssemblyM

variable {α β : Type}

/-- The action leaves the symbol table and the functions as they were: all it can do is file
diagnostics and return a result. -/
structure KeepsTables (x : AssemblyM α) : Prop where
  triple : ∀ t fs, Triple (fun a => a.symbols = t ∧ a.functions = fs) x
    fun _ a => a.symbols = t ∧ a.functions = fs

namespace KeepsTables

theorem of_pure (a : α) : KeepsTables (pure a : AssemblyM α) :=
  ⟨fun _ _ => Triple.pure fun _ h => h⟩

theorem bind {x : AssemblyM α} {f : α → AssemblyM β} (hx : KeepsTables x)
    (hf : ∀ a, KeepsTables (f a)) : KeepsTables (x >>= f) :=
  ⟨fun t fs => Triple.bind (hx.triple t fs) fun a => (hf a).triple t fs⟩

theorem forIn {xs : List α} {b : β} {f : α → β → AssemblyM (ForInStep β)}
    (hf : ∀ x ∈ xs, ∀ b, KeepsTables (f x b)) : KeepsTables (ForIn.forIn xs b f) :=
  ⟨fun t fs => Triple.forIn (fun _ (a : Assembly) => a.symbols = t ∧ a.functions = fs) xs b
    fun x hx b => (hf x hx b).triple t fs⟩

theorem forIn_array {xs : Array α} {b : β} {f : α → β → AssemblyM (ForInStep β)}
    (hf : ∀ x ∈ xs, ∀ b, KeepsTables (f x b)) : KeepsTables (ForIn.forIn xs b f) :=
  ⟨fun t fs => Triple.forIn_array (fun _ (a : Assembly) => a.symbols = t ∧ a.functions = fs) xs b
    fun x hx b => (hf x hx b).triple t fs⟩

theorem run {x : AssemblyM α} (h : KeepsTables x) (a : Assembly) :
    (x.run a).2.symbols = a.symbols ∧ (x.run a).2.functions = a.functions :=
  h.triple _ _ a ⟨rfl, rfl⟩

theorem preserves {x : AssemblyM α} (h : KeepsTables x) {I : Assembly → Prop}
    (hI : ∀ a a', a'.symbols = a.symbols → a'.functions = a.functions → I a → I a') :
    Triple I x fun _ => I :=
  fun a ha => hI a _ (h.run a).1 (h.run a).2 ha

end KeepsTables

/-- The action changes the assembly only by filing diagnostics: run from a state that differs
from `a` only in a report that extends `a`'s, it ends in another such state. -/
def OnlyReports (x : AssemblyM α) : Prop :=
  ∀ a : Assembly, Triple (fun s => ∃ r, s = { a with report := r } ∧ a.report.Extends r) x
    fun _ s => ∃ r, s = { a with report := r } ∧ a.report.Extends r

namespace OnlyReports

theorem of_pure (a : α) : OnlyReports (pure a : AssemblyM α) :=
  fun _ => Triple.pure fun _ h => h

theorem bind {x : AssemblyM α} {f : α → AssemblyM β} (hx : OnlyReports x)
    (hf : ∀ a, OnlyReports (f a)) : OnlyReports (x >>= f) :=
  fun a => Triple.bind (hx a) fun b => hf b a

theorem forIn {xs : List α} {b : β} {f : α → β → AssemblyM (ForInStep β)}
    (hf : ∀ x ∈ xs, ∀ b, OnlyReports (f x b)) : OnlyReports (ForIn.forIn xs b f) :=
  fun a => Triple.forIn (fun _ s => ∃ r, s = { a with report := r } ∧ a.report.Extends r) xs b
    fun x hx b => hf x hx b a

theorem forIn_array {xs : Array α} {b : β} {f : α → β → AssemblyM (ForInStep β)}
    (hf : ∀ x ∈ xs, ∀ b, OnlyReports (f x b)) : OnlyReports (ForIn.forIn xs b f) :=
  fun a => Triple.forIn_array (fun _ s => ∃ r, s = { a with report := r } ∧ a.report.Extends r)
    xs b fun x hx b => hf x hx b a

theorem preserves {x : AssemblyM α} (h : OnlyReports x) {I : Assembly → Prop}
    (hI : ∀ a r, a.report.Extends r → I a → I { a with report := r }) :
    Triple I x fun _ => I := fun a ha => by
  obtain ⟨r, hr, hext⟩ := h a a ⟨a.report, rfl, .refl _⟩
  rw [hr]
  exact hI a r hext ha

theorem keepsTables {x : AssemblyM α} (h : OnlyReports x) : KeepsTables x :=
  ⟨fun _ _ => h.preserves fun _ _ _ h => h⟩

end OnlyReports

theorem error_onlyReports (code : Code) (span : Span) (message : String) :
    OnlyReports (error code span message) := by
  rintro a s ⟨r, rfl, hext⟩
  exact ⟨_, rfl, hext.trans (Report.extends_error code span message)⟩

theorem checkByValue_onlyReports (name : String) (f : FunctionType) (span : Span) :
    OnlyReports (checkByValue name f span) := by
  unfold checkByValue
  dsimp only
  split
  case' isTrue => refine (error_onlyReports _ _ _).bind fun _ => ?_
  all_goals
    refine (OnlyReports.forIn fun p _ _ => ?_).bind fun _ => OnlyReports.of_pure _
    split
    · exact (error_onlyReports _ _ _).bind fun _ => OnlyReports.of_pure _
    · exact OnlyReports.of_pure _

theorem structMembers_onlyReports (m : Machine) (reg : Registry) (d : StructDecl) :
    OnlyReports (structMembers m reg d) := by
  unfold structMembers
  refine (OnlyReports.forIn fun member _ _ => ?_).bind fun _ => OnlyReports.of_pure _
  dsimp only
  split
  · split
    · exact (error_onlyReports _ _ _).bind fun _ => OnlyReports.of_pure _
    · split
      · exact OnlyReports.of_pure _
      · exact (error_onlyReports _ _ _).bind fun _ => OnlyReports.of_pure _
  · split
    · exact (error_onlyReports _ _ _).bind fun _ => OnlyReports.of_pure _
    · refine (checkByValue_onlyReports _ _ _).bind fun _ => ?_
      split
      · exact (error_onlyReports _ _ _).bind fun _ => OnlyReports.of_pure _
      · exact OnlyReports.of_pure _

theorem registerStructs_onlyReports (m : Machine) (structs : List StructDecl) :
    OnlyReports (registerStructs m structs) := by
  unfold registerStructs
  refine (OnlyReports.forIn fun d _ _ => ?_).bind fun _ => ?_
  · dsimp only
    split
    · exact (error_onlyReports _ _ _).bind fun _ => OnlyReports.of_pure _
    · exact OnlyReports.of_pure _
  · refine (OnlyReports.forIn_array fun d _ _ => ?_).bind fun _ => OnlyReports.of_pure _
    refine (structMembers_onlyReports _ _ _).bind fun _ => ?_
    split
    · exact OnlyReports.of_pure _
    · exact (error_onlyReports _ _ _).bind fun _ => OnlyReports.of_pure _

theorem registerStructs_keepsTables (m : Machine) (structs : List StructDecl) :
    KeepsTables (registerStructs m structs) :=
  (registerStructs_onlyReports m structs).keepsTables

/-! ### What each pass does to the tables -/

theorem addIntrinsics_triple (m : Machine) (reg : Registry) {I : Assembly → Prop}
    (hkeep : ∀ a r, a.report.Extends r → I a → I { a with report := r })
    (hadd : ∀ i ∈ m.intrinsics, ∀ f a, reg.resolveSignature m i.signature = .ok f → I a →
      I { a with
        symbols := a.symbols.addOverload i.name ⟨f, some a.functions.size⟩
        functions := a.functions.push ⟨i.name, f, .intrinsic i.program⟩ }) :
    Triple I (addIntrinsics m reg) fun _ => I := by
  unfold addIntrinsics
  refine Triple.bind (Triple.forIn (fun _ => I) m.intrinsics _ fun i hi _ => ?_) fun _ =>
    Triple.pure fun _ h => h
  split
  · exact ((error_onlyReports _ _ _).bind fun _ => OnlyReports.of_pure _).preserves hkeep
  · rename_i f hf
    exact fun a ha => hadd i hi f a hf ha

theorem allocateGlobals_triple (m : Machine) (reg : Registry) (globals : List GlobalDecl)
    {I : Assembly → Prop}
    (hkeep : ∀ a a', a'.symbols.functions = a.symbols.functions →
      a'.symbols.methods = a.symbols.methods → a'.functions = a.functions →
      a'.pending = a.pending → a.report.Extends a'.report → I a → I a') :
    Triple I (allocateGlobals m reg globals) fun _ => I := by
  have herror : ∀ a r, a.report.Extends r → I a → I { a with report := r } :=
    fun a _ hext => hkeep a _ rfl rfl rfl rfl hext
  unfold allocateGlobals
  refine Triple.bind (Triple.forIn (fun _ => I) globals _ fun d _ _ => ?_) fun _ =>
    Triple.pure fun _ h => h
  split
  · exact ((error_onlyReports _ _ _).bind fun _ => OnlyReports.of_pure _).preserves herror
  · intro a ha
    simp only [StateT.run_bind, StateT.run_get, pure_bind]
    split
    · exact herror a _ (Report.extends_error _ _ _) ha
    · rename_i symbols hadd
      obtain ⟨hfunctions, hmethods⟩ := SymbolTable.addGlobal_tables hadd
      exact hkeep a _ (by simpa using hfunctions) (by simpa using hmethods) rfl rfl (.refl _) ha

theorem declareFree_run (d : FunctionDef) (f : FunctionType) (a : Assembly) :
    (((declareFree d f).run a).2.symbols = a.symbols ∧
      ((declareFree d f).run a).2.functions = a.functions) ∨
    (((declareFree d f).run a).2.functions = a.functions ∧
      ((declareFree d f).run a).2.symbols =
        a.symbols.setOverloads d.name (a.symbols.functionsNamed d.name ++ [⟨f, none⟩])) ∨
    (∃ i o, (a.symbols.functionsNamed d.name)[i]? = some o ∧ o.address = none ∧
      o.type.sameParameterTypes f = true ∧
      ((declareFree d f).run a).2.functions =
        a.functions.push ⟨d.qualifiedName, f, .compiled #[] #[]⟩ ∧
      ((declareFree d f).run a).2.symbols =
        a.symbols.setOverloads d.name ((a.symbols.functionsNamed d.name).mapIdx fun j o =>
          if j = i then { o with address := some a.functions.size } else o)) ∨
    (((declareFree d f).run a).2.functions =
        a.functions.push ⟨d.qualifiedName, f, .compiled #[] #[]⟩ ∧
      ((declareFree d f).run a).2.symbols =
        a.symbols.setOverloads d.name
          (a.symbols.functionsNamed d.name ++ [⟨f, some a.functions.size⟩])) := by
  cases hfound : (a.symbols.functionsNamed d.name).findIdx? (·.type.sameParameterTypes f) with
  | none =>
    cases hbody : d.body.isNone
    · refine .inr (.inr (.inr ?_))
      simp [declareFree, addBody, hbody, hfound]
    · refine .inr (.inl ?_)
      simp only [declareFree, StateT.run_bind, StateT.run_get, pure_bind, hfound,
        Option.isNone_none, hbody]
      simp [SymbolTable.addOverload]
  | some i =>
    obtain ⟨hi, hsame, -⟩ := List.findIdx?_eq_some_iff_getElem.mp hfound
    cases hbody : d.body.isNone
    · cases haddr : (a.symbols.functionsNamed d.name)[i].address with
      | some address =>
        refine .inl ?_
        simp [declareFree, hbody, hfound, List.getElem?_eq_getElem hi, haddr]
      | none =>
        refine .inr (.inr (.inl ⟨i, _, List.getElem?_eq_getElem hi, haddr, hsame, ?_⟩))
        simp [declareFree, addBody, hbody, hfound, List.getElem?_eq_getElem hi, haddr]
    · refine .inl ?_
      simp only [declareFree, StateT.run_bind, StateT.run_get, pure_bind, hfound,
        Option.isNone_some, hbody]
      simp

theorem declareMethod_run (reg : Registry) (d : FunctionDef) (f : FunctionType)
    (ownerName : String) (a : Assembly) :
    (((declareMethod reg d f ownerName).run a).2.symbols = a.symbols ∧
      ((declareMethod reg d f ownerName).run a).2.functions = a.functions) ∨
    (∃ owner, reg.lookup ownerName = some owner ∧
      ((declareMethod reg d f ownerName).run a).2.functions =
        a.functions.push ⟨d.qualifiedName, f.intoInstance, .compiled #[] #[]⟩ ∧
      ((declareMethod reg d f ownerName).run a).2.symbols =
        a.symbols.addMethod owner d.name f.intoInstance a.functions.size) := by
  cases howner : reg.lookup ownerName with
  | none =>
    refine .inl ?_
    simp [declareMethod, howner]
  | some owner =>
    -- the declarations are compared by parameter types, which the receiver flag does not touch
    by_cases hdeclared : ((reg.get? owner).map fun st =>
        (st.methodsNamed d.name).any (·.sameParameterTypes f)).getD false = true
    · cases hbody : d.body.isNone
      · cases hdef : a.symbols.methodDefinition owner d.name f.intoInstance with
        | none =>
          refine .inr ⟨owner, rfl, ?_⟩
          simp only [declareMethod, howner]
          simp [hdeclared, hbody, hdef, addBody]
        | some address =>
          refine .inl ?_
          simp only [declareMethod, howner]
          simp [hdeclared, hbody, hdef]
      · refine .inl ?_
        simp [declareMethod, howner, hdeclared, hbody]
    · refine .inl ?_
      simp only [Bool.not_eq_true] at hdeclared
      simp [declareMethod, howner, hdeclared]

theorem declareFunctions_triple (m : Machine) (reg : Registry) (defs : List FunctionDef)
    {I : Assembly → Prop}
    (hkeep : ∀ a r, a.report.Extends r → I a → I { a with report := r })
    (hfree : ∀ d ∈ defs, ∀ f a, d.owner = none → reg.resolveSignature m d.signature = .ok f →
      I a → I ((declareFree d f).run a).2)
    (hmethod : ∀ d ∈ defs, ∀ f a ownerName, d.owner = some ownerName →
      reg.resolveSignature m d.signature = .ok f → I a → I ((declareMethod reg d f ownerName).run a).2) :
    Triple I (declareFunctions m reg defs) fun _ => I := by
  unfold declareFunctions
  refine Triple.bind (Triple.forIn (fun _ => I) defs _ fun d hd _ => ?_) fun _ =>
    Triple.pure fun _ h => h
  split
  · exact ((error_onlyReports _ _ _).bind fun _ => OnlyReports.of_pure _).preserves hkeep
  · rename_i f hf
    refine Triple.bind ((checkByValue_onlyReports _ _ _).preserves hkeep) fun _ => ?_
    split
    · rename_i ownerName howner
      exact Triple.bind (fun a ha => hmethod d hd f a ownerName howner hf ha) fun _ =>
        Triple.pure fun _ h => h
    · rename_i howner
      exact Triple.bind (fun a ha => hfree d hd f a howner hf ha) fun _ =>
        Triple.pure fun _ h => h

/-! ### Methods take their receiver -/

theorem structMembers_methods (m : Machine) (reg : Registry) (d : StructDecl) :
    Triple (fun _ => True) (structMembers m reg d)
      fun ms _ => ∀ n f, StructMember.method n f ∈ ms → f.isInstance = true := by
  unfold structMembers
  refine Triple.bind (Triple.mono (Triple.forIn
    (fun b _ => ∀ n f, StructMember.method n f ∈ b → f.isInstance = true) d.members #[] ?_)
    (by simp) fun _ _ h => h) fun b => Triple.pure fun _ h n f hm => h n f (by simpa using hm)
  intro member _ b s hb
  dsimp only
  split
  · split
    · simpa [StateT.run_bind] using hb
    · split
      · simpa using hb
      · simpa [StateT.run_bind] using hb
  · split
    · simpa [StateT.run_bind] using hb
    · simp only [StateT.run_bind]
      split
      · simpa [StateT.run_bind] using hb
      · -- the one member added: the method, made an instance
        intro n f hm
        simp at hm
        rcases hm with hm | ⟨-, rfl⟩
        · exact hb n _ hm
        · simp

theorem registerStructs_methodsTakeReceivers (m : Machine) (structs : List StructDecl) :
    Triple (fun _ => True) (registerStructs m structs) fun reg _ => reg.MethodsTakeReceivers := by
  unfold registerStructs
  refine Triple.bind (Triple.mono (Triple.forIn
    (fun (acc : Registry × Array StructDecl) _ => acc.1.MethodsTakeReceivers) structs _ ?_)
    (fun _ _ => Registry.MethodsTakeReceivers.empty) fun _ _ h => h) fun acc => ?_
  · -- declaring names: each struct is declared with no members
    intro d _ acc s hacc
    dsimp only
    split
    · simpa [StateT.run_bind] using hacc.declare d.name
    · simpa using hacc.declare d.name
  · -- defining each first declaration with the members its pass resolves
    refine Triple.bind (Triple.forIn_array (fun (reg : Registry) _ => reg.MethodsTakeReceivers)
      acc.2 acc.1 fun d _ reg s hreg => ?_) fun reg => Triple.pure fun _ h => h
    have hms := structMembers_methods m reg d s trivial
    simp only [StateT.run_bind, Id.bind_apply]
    split
    · rename_i r hdef
      exact hreg.define hms hdef
    · simpa using hreg

end AssemblyM

/-! ### Numbering keeps the declarations -/

private theorem mem_mapM_keeps_declaration {F : FunctionDef → StateM Nat FunctionDef}
    (hF : ∀ d n, ((F d).run n).1.name = d.name ∧ ((F d).run n).1.owner = d.owner ∧
      ((F d).run n).1.signature = d.signature) :
    ∀ (l : List FunctionDef) (n : Nat), ∀ d ∈ ((l.mapM F).run n).1,
      ∃ d₀ ∈ l, d₀.name = d.name ∧ d₀.owner = d.owner ∧ d₀.signature = d.signature
  | [], n => by simp
  | d :: l, n => by
    intro d' hd'
    simp only [List.mapM_cons, StateT.run_bind, StateT.run_pure, Id.bind_apply] at hd'
    rcases List.mem_cons.mp hd' with rfl | hd'
    · obtain ⟨hname, howner, hsignature⟩ := hF d n
      exact ⟨d, List.mem_cons_self, hname.symm, howner.symm, hsignature.symm⟩
    · obtain ⟨d₀, hd₀, hsame⟩ := mem_mapM_keeps_declaration hF l _ d' hd'
      exact ⟨d₀, List.mem_cons_of_mem d hd₀, hsame⟩

theorem CompilationUnit.mem_numbered_functions {u : CompilationUnit} {d : FunctionDef}
    (h : d ∈ u.numbered.functions) :
    ∃ d₀ ∈ u.functions, d₀.name = d.name ∧ d₀.owner = d.owner ∧ d₀.signature = d.signature := by
  simp only [CompilationUnit.numbered, StateT.run_bind, Id.bind_apply] at h
  refine mem_mapM_keeps_declaration (fun d n => ?_) _ _ d h
  split <;> exact ⟨rfl, rfl, rfl⟩

end CStack
