import CStack.Proofs.Declarations

/-!
# Call targets and the functions they reach

A direct call is emitted for the function type its callee resolves to: the overload the symbol
table records for a free function or intrinsic, or the declaration a struct gives for a method.
The call pushes the arguments of that type, the receiver when it is a method, and a placeholder
when it returns `void`. The function it reaches is the one the executable stores at the address
the table gives.

The tables pair declarations with definitions by parameter types alone. What the pairing keeps is
proved here: the function a direct call reaches takes the receiver and the parameter types the
call was emitted for, so the argument count of every direct call is the parameter count of its
target. Return types are not compared, and a definition after a prototype of the same parameters
is reached under the prototype's type: the call agrees on the return type exactly when the
declarations it pairs do (`DeclarationsAgreeOnReturns`).

The argument is one invariant of the tables, `Assembly.TargetsAgree`, kept by every pass that
builds them, and one lemma per resolution function saying which tables a resolved callee comes
from.
-/

namespace CStack

/-! ### Fitting a call site -/

/-- A function of type `stored` can stand where a call was emitted for `site`: it takes a receiver
exactly when the site pushes one, and the same parameter types; where `returns` holds it also
returns the same type. -/
structure FunctionType.Fits (returns : Prop) (stored site : FunctionType) : Prop where
  isInstance : stored.isInstance = site.isInstance
  params : stored.sameParameterTypes site = true
  ret : returns → stored.ret.same site.ret = true

theorem FunctionType.Fits.refl (returns : Prop) (f : FunctionType) : f.Fits returns f :=
  ⟨rfl, sameParameterTypes_refl f, fun _ => CType.same_refl f.ret⟩

/-- The declarations of a unit agree on return types: two free functions of one name with the same
parameter types return the same type, and so do a method definition and each declaration of its
method in the struct with the same parameter types. A C compiler demands this of every unit; the
passes here never check it. -/
structure DeclarationsAgreeOnReturns (reg : Registry) (m : Machine) (defs : List FunctionDef) :
    Prop where
  free : ∀ d ∈ defs, ∀ d' ∈ defs, ∀ f f', d.owner = none → d'.owner = none → d.name = d'.name →
    reg.resolveSignature m d.signature = .ok f → reg.resolveSignature m d'.signature = .ok f' →
    f.sameParameterTypes f' = true → f.ret.same f'.ret = true
  method : ∀ d ∈ defs, ∀ ownerName owner st f g, d.owner = some ownerName →
    reg.lookup ownerName = some owner → reg.get? owner = some st →
    reg.resolveSignature m d.signature = .ok f → g ∈ st.methodsNamed d.name →
    g.sameParameterTypes f = true → g.ret.same f.ret = true

/-! ### The invariant of the tables -/

namespace Assembly

variable (reg : Registry) (m : Machine) (defs : List FunctionDef) (a : Assembly)

/-- What an overload of `name` promises a direct call: with an address, a function there that fits
its type; without one, a prototype of the unit that it stands for. -/
def OverloadAgrees (name : String) (o : FunctionSymbol) : Prop :=
  match o.address with
  | some address => ∃ fn, a.functions[address]? = some fn ∧
      fn.type.Fits (DeclarationsAgreeOnReturns reg m defs) o.type
  | none => ∃ d ∈ defs, d.owner = none ∧ d.name = name ∧ reg.resolveSignature m d.signature = .ok o.type

/-- What a body recorded for the method `name` of `owner` promises: a function of exactly its type
at its address, defined in the unit for that struct. -/
def BodyAgrees (owner : StructId) (name : String) (type : FunctionType) (address : Nat) : Prop :=
  (∃ fn, a.functions[address]? = some fn ∧ fn.type = type) ∧
  ∃ d ∈ defs, ∃ ownerName f, d.owner = some ownerName ∧ reg.lookup ownerName = some owner ∧
    d.name = name ∧ reg.resolveSignature m d.signature = .ok f ∧ type = f.intoInstance

/-- What the tables built from the declarations `defs` promise a direct call: every overload and
every recorded method body keeps its promise. -/
structure TargetsAgree : Prop where
  overload : ∀ {name o}, o ∈ a.symbols.functionsNamed name → a.OverloadAgrees reg m defs name o
  body : ∀ {owner name type address}, (type, address) ∈ a.symbols.methodBodies owner name →
    a.BodyAgrees reg m defs owner name type address

variable {reg m defs a}

private theorem getElem?_push_of_getElem? {xs : Array Function} {i : Nat} {x y : Function}
    (h : xs[i]? = some x) : (xs.push y)[i]? = some x := by
  have hi : i < xs.size := (Array.getElem?_eq_some_iff.mp h).1
  rw [Array.getElem?_push_lt hi, ← Array.getElem?_eq_getElem hi, h]

/-! Adding a function keeps every promise, since addresses are never reused. -/

theorem OverloadAgrees.push {name : String} {o : FunctionSymbol}
    (h : a.OverloadAgrees reg m defs name o) (g : Function) :
    ({ a with functions := a.functions.push g } : Assembly).OverloadAgrees reg m defs name o := by
  unfold OverloadAgrees at *
  split
  · rename_i address haddr
    rw [haddr] at h
    obtain ⟨fn, hfn, hfits⟩ := h
    exact ⟨fn, getElem?_push_of_getElem? hfn, hfits⟩
  · rename_i haddr
    rwa [haddr] at h

theorem BodyAgrees.push {owner : StructId} {name : String} {type : FunctionType} {address : Nat}
    (h : a.BodyAgrees reg m defs owner name type address) (g : Function) :
    ({ a with functions := a.functions.push g } : Assembly).BodyAgrees reg m defs owner name type
      address := by
  obtain ⟨⟨fn, hfn, htype⟩, hdef⟩ := h
  exact ⟨⟨fn, getElem?_push_of_getElem? hfn, htype⟩, hdef⟩

namespace TargetsAgree

theorem push (h : a.TargetsAgree reg m defs) (g : Function) :
    ({ a with functions := a.functions.push g } : Assembly).TargetsAgree reg m defs :=
  ⟨fun ho => (h.overload ho).push g, fun hb => (h.body hb).push g⟩

theorem of_tables (h : a.TargetsAgree reg m defs) {a' : Assembly}
    (hfunctions : a'.symbols.functions = a.symbols.functions)
    (hmethods : a'.symbols.methods = a.symbols.methods) (hfn : a'.functions = a.functions) :
    a'.TargetsAgree reg m defs := by
  have hnamed : ∀ name, a'.symbols.functionsNamed name = a.symbols.functionsNamed name :=
    fun name => by simp [SymbolTable.functionsNamed, hfunctions]
  have hbodies : ∀ owner name,
      a'.symbols.methodBodies owner name = a.symbols.methodBodies owner name :=
    fun owner name => by simp [SymbolTable.methodBodies, hmethods]
  refine ⟨fun ho => ?_, fun hb => ?_⟩
  · have h' := h.overload (hnamed _ ▸ ho)
    unfold OverloadAgrees at h' ⊢
    rwa [hfn]
  · have h' := h.body (hbodies _ _ ▸ hb)
    unfold BodyAgrees at h' ⊢
    rwa [hfn]

theorem of_empty (hsymbols : a.symbols = {}) : a.TargetsAgree reg m defs := by
  refine ⟨fun ho => ?_, fun hb => ?_⟩ <;>
    simp [hsymbols, SymbolTable.functionsNamed, SymbolTable.methodBodies] at *

theorem setOverloads (h : a.TargetsAgree reg m defs) {name : String} {fs : List FunctionSymbol}
    (hfs : ∀ o ∈ fs, a.OverloadAgrees reg m defs name o) :
    ({ a with symbols := a.symbols.setOverloads name fs } : Assembly).TargetsAgree reg m defs := by
  refine ⟨fun {name' o} ho => ?_, fun hb => h.body hb⟩
  rw [SymbolTable.functionsNamed_setOverloads] at ho
  split at ho
  · rename_i hname
    subst hname
    exact hfs _ ho
  · exact h.overload ho

theorem addMethod (h : a.TargetsAgree reg m defs) {owner : StructId} {name : String}
    {type : FunctionType} {address : Nat} (hb : a.BodyAgrees reg m defs owner name type address) :
    ({ a with symbols := a.symbols.addMethod owner name type address } : Assembly).TargetsAgree
      reg m defs := by
  refine ⟨fun ho => h.overload ho, fun {owner' name' type' address'} hmem => ?_⟩
  rw [SymbolTable.methodBodies_addMethod] at hmem
  split at hmem
  · rename_i hkey
    obtain ⟨rfl, rfl⟩ := Prod.mk.inj hkey
    rcases List.mem_append.mp hmem with hmem | hmem
    · exact h.body hmem
    · obtain ⟨rfl, rfl⟩ := Prod.mk.inj (List.mem_singleton.mp hmem)
      exact hb
  · exact h.body hmem

/-! ### Every pass keeps the invariant -/

theorem fits_prototype {d d' : FunctionDef} (hd : d ∈ defs) (hd' : d' ∈ defs)
    (hfree : d.owner = none) (hfree' : d'.owner = none) (hname : d'.name = d.name)
    {f t : FunctionType} (hf : reg.resolveSignature m d.signature = .ok f)
    (ht : reg.resolveSignature m d'.signature = .ok t) (hsame : t.sameParameterTypes f = true) :
    f.Fits (DeclarationsAgreeOnReturns reg m defs) t where
  isInstance := by
    rw [Registry.isInstance_of_resolveSignature hf, Registry.isInstance_of_resolveSignature ht]
  params := by rw [FunctionType.sameParameterTypes_comm]; exact hsame
  ret := fun hagree => hagree.free d hd d' hd' f t hfree hfree' hname.symm hf ht
    (by rw [FunctionType.sameParameterTypes_comm]; exact hsame)

theorem addIntrinsic (h : a.TargetsAgree reg m defs) (name : String) (f : FunctionType)
    (program : HostProgram Unit) :
    ({ a with
        symbols := a.symbols.addOverload name ⟨f, some a.functions.size⟩
        functions := a.functions.push ⟨name, f, .intrinsic program⟩ } : Assembly).TargetsAgree
      reg m defs := by
  have h' := h.push ⟨name, f, .intrinsic program⟩
  refine h'.setOverloads fun o ho => ?_
  rcases List.mem_append.mp ho with ho | ho
  · exact h'.overload ho
  · rw [List.mem_singleton.mp ho]
    exact ⟨_, Array.getElem?_push_size, FunctionType.Fits.refl _ f⟩

theorem declareFree (h : a.TargetsAgree reg m defs) {d : FunctionDef} (hd : d ∈ defs)
    (hfree : d.owner = none) {f : FunctionType} (hf : reg.resolveSignature m d.signature = .ok f) :
    ((AssemblyM.declareFree d f).run a).2.TargetsAgree reg m defs := by
  let fn : Function := ⟨d.qualifiedName, f, .compiled #[] #[]⟩
  have h' := h.push fn
  rcases AssemblyM.declareFree_run d f a with
    ⟨hs, hfn⟩ | ⟨hfn, hs⟩ | ⟨i, o, hi, haddr, hsame, hfn, hs⟩ | ⟨hfn, hs⟩
  · exact h.of_tables (by rw [hs]) (by rw [hs]) hfn
  · -- a prototype joins the overloads and stands for itself
    have hfs : ∀ o ∈ a.symbols.functionsNamed d.name ++ [⟨f, none⟩],
        a.OverloadAgrees reg m defs d.name o := by
      intro o ho
      rcases List.mem_append.mp ho with ho | ho
      · exact h.overload ho
      · rw [List.mem_singleton.mp ho]
        exact ⟨d, hd, hfree, rfl, hf⟩
    exact (h.setOverloads hfs).of_tables (by rw [hs]) (by rw [hs]) hfn
  · -- the body goes to the prototype's overload, which keeps the prototype's type
    obtain ⟨d', hd', hfree', hname, ht⟩ : ∃ d' ∈ defs, d'.owner = none ∧ d'.name = d.name ∧
        reg.resolveSignature m d'.signature = .ok o.type := by
      have hagrees := h.overload (List.mem_of_getElem? hi)
      unfold OverloadAgrees at hagrees
      rwa [haddr] at hagrees
    have hfs : ∀ o' ∈ (a.symbols.functionsNamed d.name).mapIdx (fun j o =>
          if j = i then { o with address := some a.functions.size } else o),
        ({ a with functions := a.functions.push fn } : Assembly).OverloadAgrees reg m defs d.name o' := by
      intro o' ho'
      obtain ⟨j, hj, rfl⟩ := List.mem_mapIdx.mp ho'
      split
      · rename_i hji
        subst hji
        have ho : (a.symbols.functionsNamed d.name)[j] = o := by
          rw [List.getElem?_eq_getElem hj] at hi
          exact Option.some.inj hi
        rw [ho]
        exact ⟨fn, Array.getElem?_push_size,
          fits_prototype hd hd' hfree hfree' hname hf ht hsame⟩
      · exact h'.overload (List.getElem_mem hj)
    exact (h'.setOverloads hfs).of_tables (by rw [hs]) (by rw [hs]) hfn
  · -- a definition with no prototype before it is a new overload of exactly its type
    have hfs : ∀ o ∈ a.symbols.functionsNamed d.name ++ [⟨f, some a.functions.size⟩],
        ({ a with functions := a.functions.push fn } : Assembly).OverloadAgrees reg m defs d.name o := by
      intro o ho
      rcases List.mem_append.mp ho with ho | ho
      · exact h'.overload ho
      · rw [List.mem_singleton.mp ho]
        exact ⟨fn, Array.getElem?_push_size, FunctionType.Fits.refl _ f⟩
    exact (h'.setOverloads hfs).of_tables (by rw [hs]) (by rw [hs]) hfn

theorem declareMethod (h : a.TargetsAgree reg m defs) {d : FunctionDef} (hd : d ∈ defs)
    {ownerName : String} (howner : d.owner = some ownerName) {f : FunctionType}
    (hf : reg.resolveSignature m d.signature = .ok f) :
    ((AssemblyM.declareMethod reg d f ownerName).run a).2.TargetsAgree reg m defs := by
  rcases AssemblyM.declareMethod_run reg d f ownerName a with ⟨hs, hfn⟩ | ⟨owner, hlookup, hfn, hs⟩
  · exact h.of_tables (by rw [hs]) (by rw [hs]) hfn
  · let fn : Function := ⟨d.qualifiedName, f.intoInstance, .compiled #[] #[]⟩
    have hb : ({ a with functions := a.functions.push fn } : Assembly).BodyAgrees reg m defs owner
        d.name f.intoInstance a.functions.size :=
      ⟨⟨fn, Array.getElem?_push_size, rfl⟩, d, hd, ownerName, f, howner, hlookup, rfl, hf, rfl⟩
    exact ((h.push fn).addMethod hb).of_tables (by rw [hs]) (by rw [hs]) hfn

end TargetsAgree

end Assembly

/-! ### The tables of a unit -/

theorem CompilationUnit.assemble_targetsAgree (unit : CompilationUnit) (m : Machine)
    (config : ReportConfig) :
    (unit.assemble m config).1.MethodsTakeReceivers ∧
      (unit.assemble m config).2.TargetsAgree (unit.assemble m config).1 m unit.functions := by
  unfold CompilationUnit.assemble
  dsimp only
  refine Triple.bind (P := fun a : Assembly => a.symbols = {})
    (R := fun (reg : Registry) (a : Assembly) => reg.MethodsTakeReceivers ∧ a.symbols = {})
    (Q := fun (reg : Registry) (a : Assembly) =>
      reg.MethodsTakeReceivers ∧ a.TargetsAgree reg m unit.functions)
    ?_ (fun reg => ?_) { report := Report.empty config } rfl
  · intro a ha
    exact ⟨AssemblyM.registerStructs_methodsTakeReceivers m unit.structs a trivial,
      ((AssemblyM.registerStructs_keepsTables m unit.structs).run a).1.trans ha⟩
  · -- with the registry fixed, the remaining passes keep the invariant from empty tables on
    intro a ⟨hreg, hempty⟩
    have hkeep : ∀ (a : Assembly) r, a.report.Extends r → a.TargetsAgree reg m unit.functions →
        ({ a with report := r } : Assembly).TargetsAgree reg m unit.functions :=
      fun _ _ _ h => h.of_tables rfl rfl rfl
    refine (?_ : Triple (fun a : Assembly => a.TargetsAgree reg m unit.functions) _
      fun (reg' : Registry) (a : Assembly) =>
        reg'.MethodsTakeReceivers ∧ a.TargetsAgree reg' m unit.functions)
      a (Assembly.TargetsAgree.of_empty hempty)
    refine Triple.bind (AssemblyM.addIntrinsics_triple m reg hkeep
      fun i _ f _ _ h => h.addIntrinsic i.name f i.program) fun _ => ?_
    refine Triple.bind (AssemblyM.allocateGlobals_triple m reg unit.globals
      fun _ _ hfs hms hfn _ _ h => h.of_tables hfs hms hfn) fun _ => ?_
    refine Triple.bind (AssemblyM.declareFunctions_triple m reg unit.functions hkeep
      (fun _ hd _ _ howner hf h => h.declareFree hd howner hf)
      (fun _ hd _ _ _ howner hf h => h.declareMethod hd howner hf)) fun _ => ?_
    exact Triple.pure fun _ h => ⟨hreg, h⟩

theorem DeclarationsAgreeOnReturns.numbered {reg : Registry} {m : Machine} {unit : CompilationUnit}
    (h : DeclarationsAgreeOnReturns reg m unit.functions) :
    DeclarationsAgreeOnReturns reg m unit.numbered.functions where
  free d hd d' hd' f f' hfree hfree' hname hf hf' hsame := by
    obtain ⟨d₀, hd₀, hname₀, howner₀, hsig₀⟩ := CompilationUnit.mem_numbered_functions hd
    obtain ⟨d₁, hd₁, hname₁, howner₁, hsig₁⟩ := CompilationUnit.mem_numbered_functions hd'
    exact h.free d₀ hd₀ d₁ hd₁ f f' (howner₀.trans hfree) (howner₁.trans hfree')
      (by rw [hname₀, hname₁, hname]) (hsig₀ ▸ hf) (hsig₁ ▸ hf') hsame
  method d hd ownerName owner st f g howner hlookup hst hf hg hsame := by
    obtain ⟨d₀, hd₀, hname₀, howner₀, hsig₀⟩ := CompilationUnit.mem_numbered_functions hd
    exact h.method d₀ hd₀ ownerName owner st f g (howner₀.trans howner) hlookup hst (hsig₀ ▸ hf)
      (hname₀ ▸ hg) hsame

private theorem type_foldl_modify (bodies : List (Nat × Array Instr × Array Kind))
    (fs : Array Function) (address : Nat) :
    ((bodies.foldl (fun fs (b : Nat × Array Instr × Array Kind) =>
        fs.modify b.1 fun f => { f with body := .compiled b.2.1 b.2.2 }) fs)[address]?).map
        Function.type = (fs[address]?).map Function.type := by
  induction bodies generalizing fs with
  | nil => rfl
  | cons b bodies ih =>
    rw [List.foldl_cons, ih, Array.getElem?_modify]
    split
    · cases fs[address]? <;> rfl
    · rfl

theorem compile_keeps_types {unit : CompilationUnit} {m : Machine} {config : ReportConfig}
    {x : Executable} (hx : compile unit m config = .ok x) {address : Nat} {fn : Function}
    (hfn : (unit.numbered.assemble m config).2.functions[address]? = some fn) :
    ∃ fn', x.functions[address]? = some fn' ∧ fn'.type = fn.type := by
  unfold compile at hx
  simp only [bind, Except.bind] at hx
  split at hx
  · cases hx
  · split at hx
    rename_i bodies st _
    split at hx
    · cases hx
    · cases hx
      have hlt : address < (unit.numbered.assemble m config).2.functions.size :=
        (Array.getElem?_eq_some_iff.mp hfn).1
      have htypes := type_foldl_modify bodies ((unit.numbered.assemble m config).2.functions.push
        ⟨initFunctionName, EmitM.initType, .compiled #[] #[]⟩) address
      rw [Array.getElem?_push_lt hlt, ← Array.getElem?_eq_getElem hlt, hfn, Option.map_some] at htypes
      exact Option.map_eq_some_iff.mp htypes

/-! ### What a callee resolves to -/

/-- A symbol that names code names it through the tables: a function through an overload of a name
with an address, a method through a declaration of its struct and the body defined for it. -/
def EmitEnv.Names (env : EmitEnv) : Symbol → Prop
  | .function address t => ∃ name, ∃ o ∈ env.symbols.functionsNamed name,
      o.address = some address ∧ o.type = t
  | .method address t => ∃ owner name st, env.registry.get? owner = some st ∧
      t ∈ st.methodsNamed name ∧ env.symbols.methodDefinition owner name t = some address
  | _ => True

/-- The function a resolved call target loads by address, with the type the call is emitted for;
`none` for a call through a value, or a target that failed to resolve. -/
def Overload.target? (o : Overload) : Option (Nat × FunctionType) :=
  match o.callee, o.type with
  | .function address, .function ft => some (address, ft)
  | .method _ address, .function ft => some (address, ft)
  | _, _ => none

theorem Overload.target?_ofValue (t : CType) : (EmitM.Overload.ofValue t).target? = none := by
  unfold EmitM.Overload.ofValue
  split <;> rfl

namespace EmitM

variable (env : EmitEnv) (s : EmitState)

theorem resolveMethodFunction_some {owner : StructId} {name : String} {i : Nat} {span : Span}
    {address : Nat} (h : (((resolveMethodFunction owner name i span).run env).run s).1 = some address) :
    ∃ st g, env.registry.get? owner = some st ∧ (st.methodsNamed name)[i]? = some g ∧
      env.symbols.methodDefinition owner name g = some address := by
  cases hst : env.registry.get? owner with
  | none => simp [resolveMethodFunction, registry, hst, error] at h
  | some st =>
    cases hg : (st.methodsNamed name)[i]? with
    | none => simp [resolveMethodFunction, registry, hst, hg, error] at h
    | some g =>
      cases hdef : env.symbols.methodDefinition owner name g with
      | none => simp [resolveMethodFunction, registry, hst, hg, hdef, error] at h
      | some address' =>
        simp [resolveMethodFunction, registry, hst, hg, hdef] at h
        exact ⟨st, g, rfl, hg, h ▸ hdef⟩

theorem resolveMethodFunction_names {owner : StructId} {entry : StructType} {name : String}
    {i : Nat} {span : Span} {address : Nat} (hentry : env.registry.get? owner = some entry)
    (haddr : (((resolveMethodFunction owner name i span).run env).run s).1 = some address) :
    env.Names (.method address ((entry.methodsNamed name)[i]?.getD default)) := by
  obtain ⟨st, g, hst, hg, hdef⟩ := resolveMethodFunction_some env s haddr
  rw [hentry, Option.some.injEq] at hst
  subst hst
  rw [hg, Option.getD_some]
  exact ⟨owner, name, entry, hentry, List.mem_of_getElem? hg, hdef⟩

theorem receiverSymbol_names {name : String} {args : Option (List CType)} {span : Span}
    {sym : Symbol} (h : (((receiverSymbol name args span).run env).run s).1 = some (some sym)) :
    env.Names sym := by
  unfold receiverSymbol at h
  simp only [ReaderT.run_bind, StateT.run_bind, get_run, Id.bind_apply, Id.pure_fst, Id.pure_snd] at h
  cases howner : s.function.owner with
  | none => simp [howner] at h
  | some owner =>
    cases hentry : env.registry.get? owner with
    | none => simp [howner, hentry] at h
    | some entry =>
      cases hfield : entry.field? name with
      | some field =>
        simp [howner, hentry, hfield] at h
        rw [← h]
        trivial
      | none =>
        have hcall : ∀ i, (((do
              let found ← resolveMethodFunction owner name i span
              match found with
              | some address => pure (some (some (Symbol.method address
                  ((entry.methodsNamed name)[i]?.getD default))))
              | none => pure (some none) : EmitM (Option (Option Symbol))).run env).run s).1 =
              some (some sym) → env.Names sym := by
          intro i hi
          simp only [ReaderT.run_bind, StateT.run_bind, Id.bind_apply] at hi
          split at hi
          · rename_i address haddr
            simp only [ReaderT.run_pure, StateT.run_pure, Id.pure_fst, Option.some.injEq] at hi
            rw [← hi]
            exact resolveMethodFunction_names env s hentry haddr
          · simp at hi
        cases args <;> simp [howner, hentry, hfield, mismatch] at h
        · split at h
          · simp at h
          · exact hcall 0 h
        · split at h
          · simp at h
          · split at h
            · simp at h
            · exact hcall _ h

theorem resolveVariable_names {name : String} {args : Option (List CType)} {span : Span}
    {sym : Symbol} (h : (((resolveVariable name args span).run env).run s).1 = some sym) :
    env.Names sym := by
  unfold resolveVariable at h
  simp only [ReaderT.run_bind, StateT.run_bind, get_run, Id.bind_apply, Id.pure_fst,
    Id.pure_snd] at h
  cases hlocal : s.function.scopes.findSome? (·.lookup name) with
  | some l =>
    simp [hlocal] at h
    rw [← h]
    trivial
  | none =>
    simp only [hlocal, ReaderT.run_bind, StateT.run_bind, Id.bind_apply] at h
    split at h
    · -- a member of the receiver
      rename_i found hfound
      simp only [ReaderT.run_pure, StateT.run_pure, Id.pure_fst] at h
      exact receiverSymbol_names env s (h ▸ hfound)
    · simp only [ReaderT.run_bind, StateT.run_bind, read_run, StateT.run_pure, Id.bind_apply,
        Id.pure_fst, Id.pure_snd] at h
      cases hglobal : env.symbols.global? name with
      | some g =>
        simp [hglobal] at h
        rw [← h]
        trivial
      | none =>
        simp only [hglobal] at h
        split at h
        · simp at h
        · split at h
          · simp [mismatch] at h
          · -- an overload of the name that has an address
            rename_i f hf
            obtain ⟨i, -, hi⟩ := Option.bind_eq_some_iff.mp hf
            split at h
            · rename_i address haddr
              simp only [ReaderT.run_pure, StateT.run_pure, Id.pure_fst, Option.some.injEq] at h
              rw [← h]
              exact ⟨name, f, List.mem_of_getElem? hi, haddr, rfl⟩
            · simp at h

theorem resolveMethod_target {f : Expr} {owner : StructId} {member : String}
    {args : List CType} {receiver : Receiver} {o : Overload} {address : Nat} {ft : FunctionType}
    (h : (((resolveMethod f owner member args receiver).run env).run s).1 = some o)
    (ho : o.target? = some (address, ft)) : env.Names (.method address ft) := by
  unfold resolveMethod at h
  simp only [ReaderT.run_bind, StateT.run_bind, registry_run, StateT.run_pure,
    Id.bind_apply, Id.pure_fst, Id.pure_snd] at h
  cases hst : env.registry.get? owner with
  | none => simp [hst] at h
  | some st =>
    simp only [hst] at h
    split at h
    · -- no method of the name: at most a field called through its value
      split at h
      · split at h
        · simp only [ReaderT.run_pure, StateT.run_pure, Id.pure_fst, Option.some.injEq] at h
          rw [← h, Overload.target?_ofValue] at ho
          cases ho
        · simp at h
      · simp at h
    · split at h
      · simp [mismatch] at h
      · rename_i i hi
        simp only [ReaderT.run_bind, StateT.run_bind, Id.bind_apply] at h
        split at h
        · rename_i address' haddr
          simp only [ReaderT.run_pure, StateT.run_pure, Id.pure_fst, Option.some.injEq] at h
          rw [← h] at ho
          simp only [Overload.target?, Option.some.injEq, Prod.mk.injEq] at ho
          obtain ⟨rfl, rfl⟩ := ho
          exact resolveMethodFunction_names env s hst haddr
        · simp at h

theorem resolveOverload_target {f : Expr} {args : List CType} {o : Overload} {address : Nat}
    {ft : FunctionType} (h : (((resolveOverload f args).run env).run s).1 = some o)
    (ho : o.target? = some (address, ft)) :
    env.Names (.function address ft) ∨ env.Names (.method address ft) := by
  rw [resolveOverload.eq_def] at h
  split at h
  · -- a method of the struct the target has
    simp only [ReaderT.run_bind, StateT.run_bind, Id.bind_apply] at h
    split at h
    · exact .inr (resolveMethod_target env _ h ho)
    · simp [invalidInContext] at h
  · -- a method of the struct the target points to
    simp only [ReaderT.run_bind, StateT.run_bind, Id.bind_apply] at h
    split at h
    · exact .inr (resolveMethod_target env _ h ho)
    · simp [invalidInContext] at h
  · -- a name, whose symbol the tables give
    simp only [ReaderT.run_bind, StateT.run_bind, Id.bind_apply] at h
    split at h
    · simp at h
    · rename_i address' t hsym
      simp only [ReaderT.run_pure, StateT.run_pure, Id.pure_fst, Option.some.injEq] at h
      rw [← h] at ho
      simp only [Overload.target?, Option.some.injEq, Prod.mk.injEq] at ho
      obtain ⟨rfl, rfl⟩ := ho
      exact .inl (resolveVariable_names env s hsym)
    · rename_i address' t hsym
      simp only [ReaderT.run_pure, StateT.run_pure, Id.pure_fst, Option.some.injEq] at h
      rw [← h] at ho
      simp only [Overload.target?, Option.some.injEq, Prod.mk.injEq] at ho
      obtain ⟨rfl, rfl⟩ := ho
      exact .inr (resolveVariable_names env s hsym)
    · simp only [ReaderT.run_pure, StateT.run_pure, Id.pure_fst, Option.some.injEq] at h
      rw [← h, Overload.target?_ofValue] at ho
      cases ho
  · -- a callee that failed to parse reaches nothing
    simp only [ReaderT.run_bind, StateT.run_bind, Id.bind_apply, ReaderT.run_pure, StateT.run_pure,
      Id.pure_fst, Option.some.injEq] at h
    rw [← h] at ho
    simp [Overload.target?] at ho
  · -- any other callee is called through its value
    simp only [ReaderT.run_bind, StateT.run_bind, Id.bind_apply, ReaderT.run_pure, StateT.run_pure,
      Id.pure_fst, Option.some.injEq] at h
    rw [← h, Overload.target?_ofValue] at ho
    cases ho

end EmitM

/-! ### Direct calls -/

/-- The environment in which the bodies of a unit are emitted: the machine, and the registry and
symbol table that the declarations of the numbered unit build. -/
def CompilationUnit.emitEnv (unit : CompilationUnit) (m : Machine) (config : ReportConfig) :
    EmitEnv :=
  ⟨m, (unit.numbered.assemble m config).1, (unit.numbered.assemble m config).2.symbols⟩

theorem CompilationUnit.target_fits (unit : CompilationUnit) (m : Machine) (config : ReportConfig)
    {address : Nat} {ft : FunctionType}
    (hnames : (unit.emitEnv m config).Names (.function address ft) ∨
      (unit.emitEnv m config).Names (.method address ft)) :
    ∃ fn, (unit.numbered.assemble m config).2.functions[address]? = some fn ∧
      fn.type.Fits (DeclarationsAgreeOnReturns (unit.emitEnv m config).registry m
        unit.numbered.functions) ft := by
  obtain ⟨hreg, hagree⟩ := unit.numbered.assemble_targetsAgree m config
  rcases hnames with ⟨name, o, ho, haddr, rfl⟩ | ⟨owner, name, st, hst, hdeclared, hdef⟩
  · -- an overload with an address
    have hpromise := hagree.overload ho
    unfold Assembly.OverloadAgrees at hpromise
    rwa [haddr] at hpromise
  · -- a method declaration and the body defined for it, of the definition's own type
    obtain ⟨type, hbody, hsame⟩ := SymbolTable.methodDefinition_spec hdef
    obtain ⟨⟨fn, hfn, htype⟩, d, hd, ownerName, f, howner, hlookup, hname, hf, rfl⟩ :=
      hagree.body hbody
    refine ⟨fn, hfn, ?_⟩
    rw [htype]
    refine ⟨?_, hsame, fun hret => ?_⟩
    · rw [FunctionType.isInstance_intoInstance, hreg.isInstance hst hdeclared]
    · have hsame' : ft.sameParameterTypes f = true := by
        rw [FunctionType.sameParameterTypes_comm, ← FunctionType.sameParameterTypes_intoInstance_left]
        exact hsame
      rw [FunctionType.ret_intoInstance, CType.same_comm]
      exact hret.method d hd ownerName owner st f ft howner hlookup hst hf (hname ▸ hdeclared) hsame'

/-- Direct call sites agree with their callees. For a unit that compiles, wherever a callee
resolves to a function or a method by its address, the executable holds a function there that
takes a receiver exactly when the call pushes one and the parameter types the call converts its
arguments to, so as many parameters as the call passes. It returns the type the call expects
whenever the declarations of the unit agree on return types. -/
theorem directCall_fits {unit : CompilationUnit} {m : Machine} {config : ReportConfig}
    {x : Executable} (hx : compile unit m config = .ok x) (st : EmitState) (f : Expr)
    (args : List CType) {address : Nat} {ft : FunctionType}
    (hcall : ((((EmitM.resolveOverload f args).run (unit.emitEnv m config)).run st).1).bind
      Overload.target? = some (address, ft)) :
    ∃ fn, x.functions[address]? = some fn ∧ fn.type.isInstance = ft.isInstance ∧
      fn.type.sameParameterTypes ft = true ∧ fn.type.params.length = ft.params.length ∧
      (DeclarationsAgreeOnReturns (unit.emitEnv m config).registry m unit.functions →
        fn.type.ret.same ft.ret = true) := by
  obtain ⟨o, hres, ho⟩ := Option.bind_eq_some_iff.mp hcall
  obtain ⟨fn, hfn, hfits⟩ :=
    unit.target_fits m config (EmitM.resolveOverload_target _ _ hres ho)
  obtain ⟨fn', hfn', htype⟩ := compile_keeps_types hx hfn
  refine ⟨fn', hfn', ?_, ?_, ?_, fun hret => ?_⟩
  · rw [htype]
    exact hfits.isInstance
  · rw [htype]
    exact hfits.params
  · rw [htype]
    exact FunctionType.length_params_eq_of_sameParameterTypes hfits.params
  · rw [htype]
    exact hfits.ret hret.numbered

/-- A prototype `int f(int)` and then the definition `void f(int) {}`: the declarations disagree on
the return type, and the tables pair them anyway. -/
def prototypeThenVoidDefinition : CompilationUnit :=
  { functions := [
      { name := "f", signature := ⟨.int, [⟨"x", .int, none⟩]⟩ },
      { name := "f", signature := ⟨.void, [⟨"x", .int, none⟩]⟩, body := some [] }] }

/-- A call `f(1)` in that unit resolves to a direct target, and the function it reaches takes the
receiver flag and the parameter types of the call, but returns `void` where the call expects `int`. -/
theorem directCall_fits_prototypeThenVoidDefinition :
    ∃ x address ft, compile prototypeThenVoidDefinition Machine.desktop {} = .ok x ∧
      ((((EmitM.resolveOverload (.ofKind (.variable "f")) [CType.int Machine.desktop]).run
        (prototypeThenVoidDefinition.emitEnv Machine.desktop {})).run
          { report := Report.empty {} }).1).bind Overload.target? = some (address, ft) ∧
      ∃ fn, x.functions[address]? = some fn ∧ fn.type.isInstance = ft.isInstance ∧
        fn.type.sameParameterTypes ft = true ∧ fn.type.params.length = ft.params.length ∧
        (DeclarationsAgreeOnReturns (prototypeThenVoidDefinition.emitEnv Machine.desktop {}).registry
          Machine.desktop prototypeThenVoidDefinition.functions → fn.type.ret.same ft.ret = true) ∧
        fn.type.ret.same ft.ret = false := by
  have hcompiles : (compile prototypeThenVoidDefinition Machine.desktop {}).isOk = true := by
    decide +kernel
  have hresolves : ((((EmitM.resolveOverload (.ofKind (.variable "f"))
      [CType.int Machine.desktop]).run (prototypeThenVoidDefinition.emitEnv Machine.desktop {})).run
        { report := Report.empty {} }).1.bind Overload.target?).isSome = true := by
    decide +kernel
  have hdiffer : ((compile prototypeThenVoidDefinition Machine.desktop {}).toOption.bind fun x =>
      ((((EmitM.resolveOverload (.ofKind (.variable "f")) [CType.int Machine.desktop]).run
        (prototypeThenVoidDefinition.emitEnv Machine.desktop {})).run
          { report := Report.empty {} }).1.bind Overload.target?).bind fun target =>
        x.functions[target.1]?.map fun fn => fn.type.ret.same target.2.ret) = some false := by
    decide +kernel
  obtain ⟨⟨address, ft⟩, hcall⟩ := Option.isSome_iff_exists.mp hresolves
  cases hx : compile prototypeThenVoidDefinition Machine.desktop {} with
  | error e =>
    rw [hx] at hcompiles
    cases hcompiles
  | ok x =>
    obtain ⟨fn, hfn, hinstance, hparams, hlength, hret⟩ := directCall_fits hx _ _ _ hcall
    have hsame : fn.type.ret.same ft.ret = false := by
      rw [hx, hcall] at hdiffer
      simpa [Except.toOption, hfn] using hdiffer
    exact ⟨x, address, ft, rfl, hcall, fn, hfn, hinstance, hparams, hlength, hret, hsame⟩

end CStack
