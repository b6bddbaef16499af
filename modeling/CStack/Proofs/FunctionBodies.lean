import CStack.Proofs.Scoping

/-!
# Emitting function bodies

A body is emitted into a fresh function state. `beginFunction` lays out the start of the frame,
the receiver's cell first and then the cells of each parameter in order, and binds each parameter
to the first of its cells; the body's statements then only append cells for their locals and only
file diagnostics (`EmitState.Grows`), and the implicit return closes the code. So the code of
every body ends in a return and jumps only to its own instructions (`EndsInReturn`), and its frame
starts with the parameters' cells (`EmitEnv.paramFrame`). `emitBodies` does this for the global
initialiser and for every body waiting to be emitted (`emitBodies_spec`).
-/

namespace CStack

/-! ### Emission only adds diagnostics and frame cells -/

/-- `st'` is `st` after steps of one function's emission: the report only gained diagnostics and
the frame only gained cells at its end. -/
structure EmitState.Grows (st st' : EmitState) : Prop where
  report : st.report.Extends st'.report
  frame : ∃ extra : List Kind, st'.function.frame = st.function.frame ++ extra.toArray

namespace EmitState

variable {st st' st₁ st₂ : EmitState}

theorem Grows.refl (st : EmitState) : st.Grows st := ⟨.refl _, [], by simp⟩

theorem Grows.trans (h₁ : st.Grows st₁) (h₂ : st₁.Grows st₂) : st.Grows st₂ := by
  obtain ⟨extra₁, h₁frame⟩ := h₁.frame
  obtain ⟨extra₂, h₂frame⟩ := h₂.frame
  exact ⟨h₁.report.trans h₂.report, extra₁ ++ extra₂, by simp [h₂frame, h₁frame]⟩

theorem Grows.of_eq (hreport : st'.report = st.report)
    (hframe : st'.function.frame = st.function.frame) : st.Grows st' := ⟨hreport ▸ .refl _, [], by simp [hframe]⟩

end EmitState

namespace EmitM

/-- Run from any state, `x` only files diagnostics and appends frame cells. -/
def Grows {α : Type} (x : EmitM α) : Prop :=
  ∀ (env : EmitEnv) (st : EmitState), st.Grows ((x.run env).run st).2

namespace Grows

variable {α β : Type} {x : EmitM α}

theorem of_eq (h : ∀ env st, ((x.run env).run st).2.report = st.report ∧
    ((x.run env).run st).2.function.frame = st.function.frame) : Grows x :=
  fun env st => .of_eq (h env st).1 (h env st).2

theorem pure (a : α) : Grows (Pure.pure a : EmitM α) := fun _ st => .refl st

theorem bind {f : α → EmitM β} (hx : Grows x) (hf : ∀ a, Grows (f a)) : Grows (x >>= f) :=
  fun env st => by
    rw [run_bind]
    exact (hx env st).trans (hf _ env _)

theorem emit (i : Instr) : Grows (emit i) := of_eq fun _ _ => ⟨rfl, rfl⟩

theorem push (i : Instr) : Grows (push i) := of_eq fun _ _ => ⟨rfl, rfl⟩

theorem patch (p target : Nat) : Grows (patch p target) := of_eq fun _ _ => ⟨rfl, rfl⟩

theorem nextIndex : Grows nextIndex := of_eq fun _ _ => ⟨rfl, rfl⟩

theorem intKind : Grows intKind := of_eq fun _ _ => ⟨rfl, rfl⟩

end Grows

theorem grows_closed : ReportsClosed Grows where
  pure := Grows.pure
  bind := Grows.bind
  get hf := fun env st => hf st env st
  report h := fun env st => by
    obtain ⟨a, r, hrun, hext⟩ := h env st
    rw [hrun]
    exact ⟨hext, [], by simp⟩
  function h := Grows.of_eq fun _ s => ⟨(h s).2, by rw [modify_run, (h s).1]⟩
  push _ := Grows.push _
  logical := emitLogical_of_steps Grows.pure Grows.bind Grows.emit Grows.patch Grows.nextIndex
    Grows.intKind Grows.push

/-! ### Declaring a local -/

end EmitM

/-- The cells a local of a type takes: one per cell kind of the type, or one `int` cell for a
type that has none. -/
def EmitEnv.localCells (env : EmitEnv) (t : CType) : List Kind :=
  if (env.registry.cellKinds t).isEmpty then [env.intKind] else env.registry.cellKinds t

namespace EmitM

variable (env : EmitEnv) (st : EmitState)

theorem localCells_run_cells (t : CType) :
    ((localCells t).run env).run st = (env.localCells t, st) := by
  unfold localCells EmitEnv.localCells
  simp only [run_bind, registry_run, StateT.run_pure, Id.pure_fst, Id.pure_snd]
  by_cases hempty : (env.registry.cellKinds t).isEmpty = true
  · simp only [hempty, ↓reduceIte]
    rfl
  · simp only [hempty, Bool.false_eq_true, ↓reduceIte]
    rfl

theorem declareLocal_run (name : String) (t : CType) (span : Span) :
    ∃ r, ((declareLocal name t span).run env).run st =
      (st.function.frame.size, { st with report := r, function := { st.function with
        frame := st.function.frame ++ (env.localCells t).toArray
        scopes := bindInnermost [(name, ⟨st.function.frame.size, t⟩)] st.function.scopes } }) ∧
      st.report.Extends r := by
  obtain ⟨report, memo, fname, ret, owner, code, frame, scopes⟩ := st
  unfold declareLocal
  cases scopes with
  | nil =>
    simp [localCells_run_cells, bindInnermost, -bind_pure_comp]
    exact ⟨_, rfl, .refl _⟩
  | cons scope rest =>
    by_cases hduplicate : (scope.lookup name).isSome = true
    · simp [localCells_run_cells, hduplicate, -bind_pure_comp]
      exact ⟨_, rfl, Report.extends_error _ _ _⟩
    · simp [localCells_run_cells, hduplicate, -bind_pure_comp]
      exact ⟨_, rfl, .refl _⟩

end EmitM

/-- The bindings of parameters whose cells start at `first`, the last parameter first. -/
def EmitEnv.paramBindings (env : EmitEnv) (first : Nat) :
    List Parameter → List (String × LocalSymbol)
  | [] => []
  | p :: ps =>
    env.paramBindings (first + (env.localCells p.type).length) ps ++ [(p.name, ⟨first, p.type⟩)]

/-- The frame a function's body starts with: a pointer cell for a method's receiver, then the
cells of each parameter in order. -/
def EmitEnv.paramFrame (env : EmitEnv) (f : FunctionType) : List Kind :=
  (if f.isInstance then [.pointer] else []) ++ f.params.flatMap fun p => env.localCells p.type

namespace EmitM

variable (env : EmitEnv) (st : EmitState)

theorem declareParams_run (ps : List Parameter) (span : Span) :
    ∃ r, ((forIn ps PUnit.unit fun p _ => do
          let _ ← declareLocal p.name p.type span
          pure (ForInStep.yield PUnit.unit) : EmitM PUnit).run env).run st =
      (PUnit.unit, { st with report := r, function := { st.function with
        frame := st.function.frame ++ (ps.flatMap fun p => env.localCells p.type).toArray
        scopes := bindInnermost (env.paramBindings st.function.frame.size ps)
          st.function.scopes } }) ∧
      st.report.Extends r := by
  induction ps generalizing st with
  | nil =>
    refine ⟨st.report, ?_, .refl _⟩
    simp only [List.forIn_nil, pure_run, List.flatMap_nil, EmitEnv.paramBindings, bindInnermost_nil]
    simp
  | cons p ps ih =>
    obtain ⟨r₁, hrun₁, hext₁⟩ := declareLocal_run env st p.name p.type span
    obtain ⟨r, hrun, hext⟩ := ih { st with report := r₁, function := { st.function with
      frame := st.function.frame ++ (env.localCells p.type).toArray
      scopes := bindInnermost [(p.name, ⟨st.function.frame.size, p.type⟩)] st.function.scopes } }
    refine ⟨r, ?_, hext₁.trans hext⟩
    simp only [List.forIn_cons, run_bind, hrun₁, pure_run]
    rw [hrun]
    simp [EmitEnv.paramBindings, Array.append_assoc]

theorem beginFunction_run (name : String) (f : FunctionType) (owner : Option StructId)
    (span : Span) :
    ∃ r, ((beginFunction name f owner span).run env).run st =
      ((), { st with
        report := r
        function :=
          { name := name, returnType := f.ret, owner := owner, frame := (env.paramFrame f).toArray,
            scopes := [env.paramBindings (if f.isInstance then 1 else 0) f.params] } }) ∧
      st.report.Extends r := by
  unfold beginFunction
  simp only [run_bind, modify_run]
  obtain ⟨r, hrun, hext⟩ := declareParams_run env { st with function :=
    { name := name, returnType := f.ret, owner := owner,
      frame := if f.isInstance then #[.pointer] else #[] } }
    f.params span
  refine ⟨r, ?_, hext⟩
  rw [hrun]
  cases hinstance : f.isInstance <;> simp [EmitEnv.paramFrame, hinstance] <;> rfl

namespace Grows

theorem declareLocal (name : String) (t : CType) (span : Span) :
    Grows (declareLocal name t span) := fun env st => by
  obtain ⟨r, hrun, hext⟩ := declareLocal_run env st name t span
  rw [hrun]
  exact ⟨hext, env.localCells t, rfl⟩

theorem declaration (span : Span) (name : String) (type : TypeName) (init : Option Expr) :
    Grows (emitLocal span name type init) := by
  unfold emitLocal
  refine (grows_closed.resolveType _ _).bind fun _ => (declareLocal _ _ _).bind fun _ => ?_
  split
  · split
    · exact grows_closed.bind (grows_closed.error _ _ _) fun _ => Grows.pure _
    · exact (typeOf_closed grows_closed _).bind fun _ => (emitExpr_closed grows_closed _).bind
        fun _ => (grows_closed.cast _ _ _).bind fun _ => Grows.push _
  · exact Grows.pure _

theorem scopes (g : List (List (String × LocalSymbol)) → List (List (String × LocalSymbol))) :
    Grows (modify fun s : EmitState =>
      { s with function := { s.function with scopes := g s.function.scopes } }) :=
  of_eq fun _ _ => ⟨rfl, rfl⟩

end Grows

/-! ### Statements -/

mutual

theorem emitStmt_grows (s : Stmt) : Grows (emitStmt s) := by
  match s with
  | .node span k =>
    cases k with
    | expr e =>
      simp only [emitStmt]
      split
      · exact Grows.pure _
      · exact (emitExpr_closed grows_closed e).bind fun _ => Grows.push _
    | var name type init =>
      simp only [emitStmt]
      exact Grows.declaration _ _ _ _
    | ret value =>
      simp only [emitStmt]
      exact emitReturn_closed grows_closed _ _
    | ite c t e =>
      have hc := emitCondition_closed grows_closed c
      cases e with
      | none =>
        simp only [emitStmt]
        exact hc.bind fun _ => (Grows.emit _).bind fun _ => (emitStmt_grows t).bind fun _ =>
          Grows.nextIndex.bind fun _ => Grows.patch _ _
      | some e =>
        simp only [emitStmt]
        exact hc.bind fun _ => (Grows.emit _).bind fun _ => (emitStmt_grows t).bind fun _ =>
          (Grows.emit _).bind fun _ => Grows.nextIndex.bind fun _ => (Grows.patch _ _).bind
            fun _ => (emitStmt_grows e).bind fun _ => Grows.nextIndex.bind fun _ => Grows.patch _ _
    | loop c body =>
      simp only [emitStmt]
      exact Grows.nextIndex.bind fun _ => (emitCondition_closed grows_closed c).bind fun _ =>
        (Grows.emit _).bind fun _ => (emitStmt_grows body).bind fun _ =>
          (Grows.push _).bind fun _ => Grows.nextIndex.bind fun _ => Grows.patch _ _
    | block stmts =>
      simp only [emitStmt]
      exact emitBlock_grows stmts
termination_by 2 * sizeOf s
decreasing_by
  all_goals
    simp_wf
    try simp
    try omega

theorem emitBlock_grows (stmts : List Stmt) : Grows (emitBlock stmts) := by
  unfold emitBlock
  exact (Grows.scopes _).bind fun _ => (emitStmts_grows stmts).bind fun _ => Grows.scopes _
termination_by 2 * sizeOf stmts + 1
decreasing_by
  all_goals
    simp_wf
    try simp
    try omega

theorem emitStmts_grows (stmts : List Stmt) : Grows (emitStmts stmts) := by
  match stmts with
  | [] =>
    simp only [emitStmts]
    exact Grows.pure _
  | s :: rest =>
    simp only [emitStmts]
    exact (emitStmt_grows s).bind fun _ => emitStmts_grows rest
termination_by 2 * sizeOf stmts
decreasing_by
  all_goals
    simp_wf
    try simp
    try omega

end

/-! ### The code and frame of a body -/

end EmitM

/-- Code that ends in a return and whose jumps and branches all target one of its own
instructions, so that running it never steps past its end. -/
structure EndsInReturn (code : Array Instr) : Prop where
  last : code.back? = some .ret
  targets : ∀ i ∈ code, ∀ t, i.target? = some t → t < code.size

theorem EndsInReturn.of_jumpsWithin {code : Array Instr} (h : JumpsWithin code.toList code.size)
    {pre : List Instr} (hpre : ∀ i ∈ pre, i.target? = none) :
    EndsInReturn (code ++ (pre ++ [Instr.ret]).toArray) where
  last := by simp [Array.back?]
  targets i hi t ht := by
    simp only [Array.mem_append, List.mem_toArray, List.mem_append, List.mem_singleton] at hi
    rcases hi with hi | hi | rfl
    · have hle := h i (Array.mem_toList_iff.mpr hi) t ht
      simp only [Array.size_append, List.size_toArray, List.length_append, List.length_singleton]
      omega
    · rw [hpre i hi] at ht
      cases ht
    · cases ht

/-- The function being emitted has code whose jumps and branches stay inside it, a frame that
starts with `frame`, and a report that extends `r₀`. -/
structure EmitState.Emitting (r₀ : Report) (frame : Array Kind) (s : EmitState) : Prop where
  code : JumpsWithin s.function.code.toList s.function.code.size
  frame : ∃ extra : List Kind, s.function.frame = frame ++ extra.toArray
  report : r₀.Extends s.report

/-- Code and a frame emitted for a function of type `f`: the code ends in a return and the frame
starts with the cells of `f`'s receiver and parameters. -/
structure EmitEnv.Emitted (env : EmitEnv) (f : FunctionType) (code : Array Instr)
    (frame : Array Kind) : Prop where
  ends : EndsInReturn code
  params : ∃ extra : List Kind, frame = (env.paramFrame f).toArray ++ extra.toArray

namespace EmitM

variable (env : EmitEnv)

theorem triple_bind {α β : Type} {P : EmitState → Prop} {R : α → EmitState → Prop}
    {Q : β → EmitState → Prop} {x : EmitM α} {f : α → EmitM β} (hx : Triple P (x.run env) R)
    (hf : ∀ a, Triple (R a) ((f a).run env) Q) : Triple P ((x >>= f).run env) Q :=
  fun s hs => hf _ _ (hx s hs)

theorem triple_of_const {α : Type} {E : Prop} {P : EmitState → Prop} {Q : α → EmitState → Prop}
    {m : StateM EmitState α} (h : E → Triple P m Q) : Triple (fun s => E ∧ P s) m Q :=
  fun s hs => h hs.1 s hs.2

theorem beginFunction_emitting (r₀ : Report) (name : String) (f : FunctionType)
    (owner : Option StructId) (span : Span) :
    Triple (fun s => r₀.Extends s.report) ((beginFunction name f owner span).run env)
      fun _ => EmitState.Emitting r₀ (env.paramFrame f).toArray := by
  intro s hs
  obtain ⟨r, hrun, hext⟩ := beginFunction_run env s name f owner span
  rw [hrun]
  exact ⟨JumpsWithin.nil _, ⟨[], by simp⟩, hs.trans hext⟩

theorem emitting_of_appends {α : Type} {x : EmitM α} (hx : Appends x) (hg : Grows x)
    (r₀ : Report) (frame : Array Kind) :
    Triple (EmitState.Emitting r₀ frame) (x.run env) fun _ => EmitState.Emitting r₀ frame := by
  intro s hs
  obtain ⟨seg, hcode, hjumps⟩ := hx env s
  obtain ⟨hreport, extra, hframe⟩ := hg env s
  obtain ⟨extra₀, hframe₀⟩ := hs.frame
  refine ⟨?_, ⟨extra₀ ++ extra, by rw [hframe, hframe₀]; simp⟩, hs.report.trans hreport⟩
  rw [hcode]
  simp only [Array.toList_append, Array.size_append, List.size_toArray]
  exact (hs.code.mono (Nat.le_add_right _ _)).append hjumps

theorem emitted_of_close {x : EmitM Unit} (pre : List Instr) (hpre : ∀ i ∈ pre, i.target? = none)
    (hx : ∀ s, ((x.run env).run s).2 = { s with function := { s.function with
      code := s.function.code ++ (pre ++ [Instr.ret]).toArray } })
    (r₀ : Report) (f : FunctionType) :
    Triple (EmitState.Emitting r₀ (env.paramFrame f).toArray) (x.run env) fun _ s =>
      env.Emitted f s.function.code s.function.frame ∧ r₀.Extends s.report := by
  intro s hs
  rw [hx s]
  exact ⟨⟨EndsInReturn.of_jumpsWithin hs.code hpre, hs.frame⟩, hs.report⟩

theorem emitImplicitReturn_run (st : EmitState) (t : CType) :
    ((emitImplicitReturn t).run env).run st = ((), { st with function := { st.function with
      code := st.function.code ++
        ((t.valueKind?.map fun k => Instr.loadConstant (Value.zero k)).toList ++
          [Instr.ret]).toArray } }) := by
  unfold emitImplicitReturn
  cases t.valueKind? <;> rfl

theorem emitImplicitReturn_emitted (r₀ : Report) (f : FunctionType) :
    Triple (EmitState.Emitting r₀ (env.paramFrame f).toArray)
      ((emitImplicitReturn f.ret).run env) fun _ s =>
        env.Emitted f s.function.code s.function.frame ∧ r₀.Extends s.report := by
  refine emitted_of_close env _ (fun i hi => ?_) (fun s => by rw [emitImplicitReturn_run]) r₀ f
  cases hk : f.ret.valueKind? <;> simp [hk] at hi
  subst hi
  rfl

theorem pushReturn_emitted (r₀ : Report) (f : FunctionType) :
    Triple (EmitState.Emitting r₀ (env.paramFrame f).toArray) ((push .ret).run env) fun _ s =>
      env.Emitted f s.function.code s.function.frame ∧ r₀.Extends s.report :=
  emitted_of_close env [] (fun _ h => nomatch h) (fun s => by
    rw [push_run, List.nil_append, Array.push_eq_append]) r₀ f

theorem finishFunction_emitted (r₀ : Report) (f : FunctionType) :
    Triple (fun s => env.Emitted f s.function.code s.function.frame ∧ r₀.Extends s.report)
      (finishFunction.run env) fun p s => env.Emitted f p.1 p.2 ∧ r₀.Extends s.report :=
  fun _ hs => hs

/-! ### All the bodies of a unit -/

theorem pendingLoop_spec (r₀ : Report) (bs : List PendingBody)
    (g : PendingBody → List (Nat × Array Instr × Array Kind) →
      EmitM (ForInStep (List (Nat × Array Instr × Array Kind))))
    (hg : ∀ b ∈ bs, ∀ out, Triple (fun s => r₀.Extends s.report) ((g b out).run env) fun r s =>
      r₀.Extends s.report ∧ ∃ new, r = .yield (out ++ new) ∧
        (∀ e ∈ new, e.1 = b.address ∧ env.Emitted b.type e.2.1 e.2.2) ∧
        (b.definition.body.isSome → ∃ e ∈ new, e.1 = b.address))
    (out : List (Nat × Array Instr × Array Kind)) :
    Triple (fun s => r₀.Extends s.report) ((forIn bs out g).run env) fun r s =>
      r₀.Extends s.report ∧ ∃ rest, r = out ++ rest ∧
        (∀ e ∈ rest, ∃ b ∈ bs, e.1 = b.address ∧ env.Emitted b.type e.2.1 e.2.2) ∧
        (∀ b ∈ bs, b.definition.body.isSome → ∃ e ∈ rest, e.1 = b.address) := by
  induction bs generalizing out with
  | nil => exact fun s hs => ⟨hs, [], by simp, by simp, by simp⟩
  | cons b bs ih =>
    rw [List.forIn_cons]
    refine triple_bind env (hg b List.mem_cons_self out) fun step => ?_
    rintro s ⟨hext, new, rfl, hnew, hcover⟩
    obtain ⟨hext', rest, hrest, hrestBodies, hrestCover⟩ :=
      ih (fun b' hb' => hg b' (List.mem_cons_of_mem b hb')) (out ++ new) s hext
    refine ⟨hext', new ++ rest, by rw [hrest, List.append_assoc], ?_, ?_⟩
    · intro e he
      rcases List.mem_append.mp he with he | he
      · exact ⟨b, List.mem_cons_self, hnew e he⟩
      · obtain ⟨b', hb', hb'e⟩ := hrestBodies e he
        exact ⟨b', List.mem_cons_of_mem b hb', hb'e⟩
    · intro b' hb' hbody
      rcases List.mem_cons.mp hb' with rfl | hb'
      · obtain ⟨e, he, haddr⟩ := hcover hbody
        exact ⟨e, List.mem_append_left _ he, haddr⟩
      · obtain ⟨e, he, haddr⟩ := hrestCover b' hb' hbody
        exact ⟨e, List.mem_append_right _ he, haddr⟩

/-- `emitBodies` returns an entry for the global initialiser at its address and one for every
waiting body that has statements, at the body's address; the code of each ends in a return and
its frame starts with the cells of its function's receiver and parameters. It only files
diagnostics. -/
theorem emitBodies_spec (r₀ : Report) (init : Nat) (inits : Array GlobalInit)
    (pending : Array PendingBody) :
    Triple (fun s => r₀.Extends s.report) ((emitBodies init inits pending).run env) fun out s =>
      r₀.Extends s.report ∧
      (∀ e ∈ out, (e.1 = init ∧ env.Emitted initType e.2.1 e.2.2) ∨
        ∃ b ∈ pending, e.1 = b.address ∧ env.Emitted b.type e.2.1 e.2.2) ∧
      (∃ e ∈ out, e.1 = init) ∧
      (∀ b ∈ pending, b.definition.body.isSome → ∃ e ∈ out, e.1 = b.address) := by
  unfold emitBodies
  simp only [← Array.forIn_toList]
  refine triple_bind env (beginFunction_emitting env r₀ _ _ _ _) fun _ => ?_
  refine triple_bind env (emitting_of_appends env (Appends.forIn _ fun g => ?_)
    (grows_closed.forIn _ fun g => ?_) _ _) fun _ => ?_
  · split
    · exact (Appends.structValue _).bind fun _ => Appends.pure _
    · exact (typeOf_appends _).bind fun _ => (emitExpr_appends _).bind fun _ =>
        (Appends.cast _ _ _).bind fun _ => (Appends.push rfl).bind fun _ => Appends.pure _
  · split
    · exact (grows_closed.error _ _ _).bind fun _ => Grows.pure _
    · exact (typeOf_closed grows_closed _).bind fun _ => (emitExpr_closed grows_closed _).bind
        fun _ => (grows_closed.cast _ _ _).bind fun _ => (Grows.push _).bind fun _ => Grows.pure _
  refine triple_bind env (pushReturn_emitted env r₀ initType) fun _ => ?_
  refine triple_bind env (finishFunction_emitted env r₀ initType) fun ⟨code, frame⟩ => ?_
  dsimp only
  refine triple_of_const fun hinit => ?_
  refine triple_bind env (pendingLoop_spec env r₀ _ _ (fun b _ out => ?_) _) fun out => ?_
  · split
    · rename_i body hbody
      refine triple_bind env (beginFunction_emitting env r₀ _ _ _ _) fun _ => ?_
      refine triple_bind env (emitting_of_appends env (emitBlock_appends body)
        (emitBlock_grows body) _ _) fun _ => ?_
      refine triple_bind env (emitImplicitReturn_emitted env r₀ b.type) fun _ => ?_
      refine triple_bind env (finishFunction_emitted env r₀ b.type) fun p => ?_
      rintro s ⟨hemitted, hext⟩
      exact ⟨hext, [(b.address, p)], rfl, by simpa using hemitted, fun _ => ⟨_, List.mem_singleton_self _, rfl⟩⟩
    · rename_i hbody
      rintro s hext
      refine ⟨hext, [], by simp, by simp, fun hsome => ?_⟩
      cases hb : b.definition.body with
      | none => simp [hb] at hsome
      | some body => exact absurd hb (hbody body)
  · rintro s ⟨hext, rest, rfl, hrest, hcover⟩
    refine ⟨hext, fun e he => ?_, ⟨_, List.mem_cons_self, rfl⟩, fun b hb hbody => ?_⟩
    · rcases List.mem_cons.mp he with rfl | he
      · exact .inl ⟨rfl, hinit⟩
      · obtain ⟨b, hb, hbe⟩ := hrest e he
        exact .inr ⟨b, Array.mem_toList_iff.mp hb, hbe⟩
    · obtain ⟨e, he, haddr⟩ := hcover b (Array.mem_toList_iff.mpr hb) hbody
      exact ⟨e, List.mem_cons_of_mem _ he, haddr⟩
end EmitM

end CStack
