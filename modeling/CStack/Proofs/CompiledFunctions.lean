import CStack.Proofs.FunctionBodies
import CStack.Proofs.CallTargets

/-!
# The compiled functions of an executable

The passes before emission register each function definition that has statements as a
placeholder at the next address together with a body waiting to be emitted there; nothing else
puts a compiled function into the tables (`Assembly.AwaitsBodies`). A struct parameter is
reported when its signature is registered, so a waiting body that takes a struct by value leaves
the report with errors. Emission then gives every waiting body and the global initialiser their
code and frame, and compilation keeps them only when no diagnostic was filed.

So in an executable that `compile` returns, every function with a compiled body has code that ends
in a return and jumps only to its own instructions, a frame that starts with the cells of its
receiver and parameters, and no struct parameter (`compile_compiledFunctions`).
-/

namespace CStack

/-! ### What the passes leave for emission -/

namespace Assembly

/-- The functions and waiting bodies of an assembly as emission expects them: every compiled
function is a placeholder at the address of a waiting body, every waiting body has statements and
its address holds a placeholder of its type, and the report is consistent and has errors if some
waiting body takes a struct by value. -/
structure AwaitsBodies (a : Assembly) : Prop where
  compiled : ∀ i fn code kinds, a.functions[i]? = some fn → fn.body = .compiled code kinds →
    ∃ b ∈ a.pending, b.address = i
  placeholder : ∀ b ∈ a.pending,
    ∃ name, a.functions[b.address]? = some ⟨name, b.type, .compiled #[] #[]⟩
  body : ∀ b ∈ a.pending, b.definition.body.isSome = true
  consistent : a.report.Consistent
  byValue : ∀ b ∈ a.pending, (∃ p ∈ b.type.params, p.type.isStruct = true) →
    a.report.hasErrors = true

namespace AwaitsBodies

variable {a a' : Assembly}

theorem empty (config : ReportConfig) :
    ({ report := Report.empty config } : Assembly).AwaitsBodies where
  compiled _ _ _ _ h := by simp at h
  placeholder _ h := by simp at h
  body _ h := by simp at h
  consistent := Report.consistent_empty config
  byValue _ h := by simp at h

theorem address_lt (h : a.AwaitsBodies) {b : PendingBody} (hb : b ∈ a.pending) :
    b.address < a.functions.size := by
  obtain ⟨_, hget⟩ := h.placeholder b hb
  exact (Array.getElem?_eq_some_iff.mp hget).1

theorem of_keeps (h : a.AwaitsBodies) (hfunctions : a'.functions = a.functions)
    (hpending : a'.pending = a.pending) (hreport : a.report.Extends a'.report) :
    a'.AwaitsBodies where
  compiled i fn code kinds hfn hbody := by
    rw [hpending]
    exact h.compiled i fn code kinds (hfunctions ▸ hfn) hbody
  placeholder b hb := by
    rw [hfunctions]
    exact h.placeholder b (hpending ▸ hb)
  body b hb := h.body b (hpending ▸ hb)
  consistent := hreport.1 h.consistent
  byValue b hb hstruct := hreport.2 (h.byValue b (hpending ▸ hb) hstruct)

theorem pushIntrinsic (h : a.AwaitsBodies) {fn : Function} (hfunctions : a'.functions = a.functions.push fn)
    (hintrinsic : ∃ program, fn.body = .intrinsic program) (hpending : a'.pending = a.pending)
    (hreport : a'.report = a.report) : a'.AwaitsBodies where
  compiled i g code kinds hg hbody := by
    rw [hfunctions, Array.getElem?_push] at hg
    split at hg
    · obtain ⟨program, hprogram⟩ := hintrinsic
      cases hg
      rw [hprogram] at hbody
      cases hbody
    · rw [hpending]
      exact h.compiled i g code kinds hg hbody
  placeholder b hb := by
    rw [hpending] at hb
    rw [hfunctions, Array.getElem?_push, if_neg (Nat.ne_of_lt (h.address_lt hb))]
    exact h.placeholder b hb
  body b hb := h.body b (hpending ▸ hb)
  consistent := hreport ▸ h.consistent
  byValue b hb hstruct := hreport ▸ h.byValue b (hpending ▸ hb) hstruct

theorem addBody (h : a.AwaitsBodies) {d : FunctionDef} {f : FunctionType}
    {owner : Option StructId} (hbody : d.body.isSome = true)
    (hstruct : (∃ p ∈ f.params, p.type.isStruct = true) → a.report.hasErrors = true)
    (hfunctions : a'.functions = a.functions.push ⟨d.qualifiedName, f, .compiled #[] #[]⟩)
    (hpending : a'.pending = a.pending.push ⟨d, f, owner, a.functions.size⟩)
    (hreport : a'.report = a.report) : a'.AwaitsBodies where
  compiled i g code kinds hg hcompiled := by
    rw [hfunctions, Array.getElem?_push] at hg
    rw [hpending]
    split at hg
    · exact ⟨_, Array.mem_push_self, by simp_all⟩
    · obtain ⟨b, hb, haddr⟩ := h.compiled i g code kinds hg hcompiled
      exact ⟨b, Array.mem_push_of_mem _ hb, haddr⟩
  placeholder b hb := by
    rw [hpending, Array.mem_push] at hb
    rw [hfunctions]
    rcases hb with hb | rfl
    · rw [Array.getElem?_push, if_neg (Nat.ne_of_lt (h.address_lt hb))]
      exact h.placeholder b hb
    · exact ⟨_, Array.getElem?_push_size⟩
  body b hb := by
    rw [hpending, Array.mem_push] at hb
    rcases hb with hb | rfl
    · exact h.body b hb
    · exact hbody
  consistent := hreport ▸ h.consistent
  byValue b hb hby := by
    rw [hpending, Array.mem_push] at hb
    rw [hreport]
    rcases hb with hb | rfl
    · exact h.byValue b hb hby
    · exact hstruct hby

end AwaitsBodies

end Assembly

namespace AssemblyM

theorem declareFree_bodies (d : FunctionDef) (f : FunctionType) (a : Assembly) :
    (((declareFree d f).run a).2.functions = a.functions ∧
      ((declareFree d f).run a).2.pending = a.pending ∧
      a.report.Extends ((declareFree d f).run a).2.report) ∨
    (d.body.isSome = true ∧
      ((declareFree d f).run a).2.functions =
        a.functions.push ⟨d.qualifiedName, f, .compiled #[] #[]⟩ ∧
      ((declareFree d f).run a).2.pending = a.pending.push ⟨d, f, none, a.functions.size⟩ ∧
      ((declareFree d f).run a).2.report = a.report) := by
  cases hbody : d.body with
  | none =>
    refine .inl ?_
    unfold declareFree
    simp only [StateT.run_bind, StateT.run_get, pure_bind, hbody, Option.isNone_none, ↓reduceIte]
    split <;> simp [Report.Extends.refl]
  | some body =>
    unfold declareFree
    simp only [StateT.run_bind, StateT.run_get, pure_bind, hbody, Option.isNone_some,
      Bool.false_eq_true, ↓reduceIte]
    split
    · split
      · exact .inl (by simp [Report.extends_error])
      · exact .inr (by simp [addBody])
    · exact .inr (by simp [addBody])

theorem declareMethod_bodies (reg : Registry) (d : FunctionDef) (f : FunctionType)
    (ownerName : String) (a : Assembly) :
    (((declareMethod reg d f ownerName).run a).2.functions = a.functions ∧
      ((declareMethod reg d f ownerName).run a).2.pending = a.pending ∧
      a.report.Extends ((declareMethod reg d f ownerName).run a).2.report) ∨
    (d.body.isSome = true ∧ ∃ owner,
      ((declareMethod reg d f ownerName).run a).2.functions =
        a.functions.push ⟨d.qualifiedName, f.intoInstance, .compiled #[] #[]⟩ ∧
      ((declareMethod reg d f ownerName).run a).2.pending =
        a.pending.push ⟨d, f.intoInstance, some owner, a.functions.size⟩ ∧
      ((declareMethod reg d f ownerName).run a).2.report = a.report) := by
  unfold declareMethod
  cases howner : reg.lookup ownerName with
  | none => exact .inl (by simp [Report.extends_error])
  | some owner =>
    dsimp only
    split
    · exact .inl (by simp [Report.extends_error])
    · split
      · exact .inl (by simp [Report.Extends.refl])
      · rename_i hbody
        simp only [StateT.run_bind, StateT.run_get, pure_bind]
        split
        · exact .inl (by simp [Report.extends_error])
        · exact .inr ⟨Option.isSome_iff_ne_none.mpr (by simpa using hbody), owner, by simp [addBody]⟩

theorem Triple.forIn_reaches {σ α : Type} {I J : σ → Prop} {Q : α → Prop} {E : Prop} (xs : List α)
    {f : α → PUnit → StateM σ (ForInStep PUnit)}
    (hf : ∀ x ∈ xs, Triple I (f x PUnit.unit) fun r s =>
      r = .yield PUnit.unit ∧ I s ∧ (Q x → J s))
    (hJ : ∀ x ∈ xs, Triple (fun s => I s ∧ J s) (f x PUnit.unit) fun _ => J) :
    Triple (fun s => I s ∧ (E → J s)) (ForIn.forIn xs PUnit.unit f)
      fun _ s => I s ∧ ((E ∨ ∃ x ∈ xs, Q x) → J s) := by
  induction xs generalizing E with
  | nil => exact fun s ⟨hI, hE⟩ => ⟨hI, fun h => h.elim hE fun ⟨_, hx, _⟩ => nomatch hx⟩
  | cons x xs ih =>
    rw [List.forIn_cons]
    -- after the first iteration `J` holds if `E` did or the first element has `Q`
    refine Triple.bind (R := fun r s => r = .yield PUnit.unit ∧ I s ∧ ((E ∨ Q x) → J s))
      (fun s ⟨hI, hE⟩ => ?_) fun r => ?_
    · obtain ⟨hstep, hI₁, hQ⟩ := hf x List.mem_cons_self s hI
      exact ⟨hstep, hI₁, fun h => h.elim (fun he => hJ x List.mem_cons_self s ⟨hI, hE he⟩) hQ⟩
    · rintro s ⟨rfl, hI₁, hEQ⟩
      obtain ⟨hI₂, hJ₂⟩ := ih (E := E ∨ Q x) (fun y hy => hf y (List.mem_cons_of_mem x hy))
        (fun y hy => hJ y (List.mem_cons_of_mem x hy)) s ⟨hI₁, hEQ⟩
      refine ⟨hI₂, fun h => hJ₂ ?_⟩
      rcases h with he | ⟨y, hy, hQy⟩
      · exact .inl (.inl he)
      · rcases List.mem_cons.mp hy with rfl | hy
        · exact .inl (.inr hQy)
        · exact .inr ⟨y, hy, hQy⟩

theorem checkByValue_flags (name : String) (f : FunctionType) (span : Span) :
    Triple Assembly.AwaitsBodies (checkByValue name f span) fun _ a =>
      a.AwaitsBodies ∧ ((∃ p ∈ f.params, p.type.isStruct = true) → a.report.hasErrors = true) := by
  have herror : ∀ code span message, Triple Assembly.AwaitsBodies (error code span message)
      fun _ => Assembly.AwaitsBodies := fun _ _ _ =>
    (error_onlyReports _ _ _).preserves fun _ _ hext h => h.of_keeps rfl rfl hext
  unfold checkByValue
  dsimp only
  split
  case' isTrue => refine Triple.bind (herror _ _ _) fun _ => ?_
  all_goals
    refine Triple.mono (P := fun a : Assembly => a.AwaitsBodies ∧ (False → a.report.hasErrors))
      (Q := fun _ (a : Assembly) => a.AwaitsBodies ∧
        ((False ∨ ∃ p ∈ f.params, p.type.isStruct = true) → a.report.hasErrors))
      (Triple.bind (Triple.forIn_reaches f.params (fun p _ => ?_) (fun p _ => ?_))
        fun _ => Triple.pure fun _ h => h)
      (fun _ h => ⟨h, False.elim⟩) (fun _ _ ⟨h, hJ⟩ => ⟨h, fun hp => hJ (.inr hp)⟩)
    · split
      · exact fun a h => ⟨rfl, h.of_keeps rfl rfl (Report.extends_error _ _ _),
          fun _ => h.consistent.hasErrors_error _ _ _⟩
      · rename_i hstruct
        exact fun a h => ⟨rfl, h, fun hp => absurd hp hstruct⟩
    · split
      · exact fun a ⟨_, he⟩ => Report.hasErrors_error he _ _ _
      · exact fun a ⟨_, he⟩ => he

theorem declareFree_awaits {d : FunctionDef} {f : FunctionType} {a : Assembly}
    (h : a.AwaitsBodies)
    (hstruct : (∃ p ∈ f.params, p.type.isStruct = true) → a.report.hasErrors = true) :
    ((declareFree d f).run a).2.AwaitsBodies := by
  rcases declareFree_bodies d f a with ⟨hfunctions, hpending, hreport⟩ |
    ⟨hbody, hfunctions, hpending, hreport⟩
  · exact h.of_keeps hfunctions hpending hreport
  · exact h.addBody hbody hstruct hfunctions hpending hreport

theorem declareMethod_awaits {reg : Registry} {d : FunctionDef} {f : FunctionType}
    {ownerName : String} {a : Assembly} (h : a.AwaitsBodies)
    (hstruct : (∃ p ∈ f.params, p.type.isStruct = true) → a.report.hasErrors = true) :
    ((declareMethod reg d f ownerName).run a).2.AwaitsBodies := by
  rcases declareMethod_bodies reg d f ownerName a with ⟨hfunctions, hpending, hreport⟩ |
    ⟨hbody, owner, hfunctions, hpending, hreport⟩
  · exact h.of_keeps hfunctions hpending hreport
  · -- a method's instance type has the parameters of its signature
    exact h.addBody hbody (by rw [FunctionType.params_intoInstance]; exact hstruct) hfunctions
      hpending hreport

theorem declareFunctions_awaits (m : Machine) (reg : Registry) (defs : List FunctionDef) :
    Triple Assembly.AwaitsBodies (declareFunctions m reg defs) fun _ => Assembly.AwaitsBodies := by
  unfold declareFunctions
  refine Triple.bind (Triple.forIn (fun _ => Assembly.AwaitsBodies) defs _ fun d _ _ => ?_)
    fun _ => Triple.pure fun _ h => h
  split
  · exact ((error_onlyReports _ _ _).bind fun _ => OnlyReports.of_pure _).preserves
      fun _ _ hext h => h.of_keeps rfl rfl hext
  · refine Triple.bind (checkByValue_flags _ _ _) fun _ => ?_
    split
    · exact Triple.bind (fun _ ⟨h, hstruct⟩ => declareMethod_awaits h hstruct) fun _ =>
        Triple.pure fun _ h => h
    · exact Triple.bind (fun _ ⟨h, hstruct⟩ => declareFree_awaits h hstruct) fun _ =>
        Triple.pure fun _ h => h

end AssemblyM

theorem CompilationUnit.assemble_awaitsBodies (unit : CompilationUnit) (m : Machine)
    (config : ReportConfig) : (unit.assemble m config).2.AwaitsBodies := by
  have hkeep : ∀ (a : Assembly) r, a.report.Extends r → a.AwaitsBodies →
      ({ a with report := r } : Assembly).AwaitsBodies :=
    fun _ _ hext h => h.of_keeps rfl rfl hext
  unfold CompilationUnit.assemble
  dsimp only
  refine Triple.bind (Q := fun _ (a : Assembly) => a.AwaitsBodies)
    ((AssemblyM.registerStructs_onlyReports m unit.structs).preserves hkeep)
    (fun reg => ?_) _ (Assembly.AwaitsBodies.empty config)
  refine Triple.bind (AssemblyM.addIntrinsics_triple m reg hkeep
    fun _ _ _ _ _ h => h.pushIntrinsic rfl ⟨_, rfl⟩ rfl rfl) fun _ => ?_
  refine Triple.bind (AssemblyM.allocateGlobals_triple m reg unit.globals
    fun _ _ _ _ hfunctions hpending hreport h => h.of_keeps hfunctions hpending hreport) fun _ => ?_
  exact Triple.bind (AssemblyM.declareFunctions_awaits m reg unit.functions) fun _ =>
    Triple.pure fun _ h => h

/-! ### The functions after emission -/

theorem foldl_modify_bodies (bodies : List (Nat × Array Instr × Array Kind)) (fs : Array Function)
    {i : Nat} {fn : Function}
    (h : (bodies.foldl (fun fs (b : Nat × Array Instr × Array Kind) =>
      fs.modify b.1 fun f => { f with body := .compiled b.2.1 b.2.2 }) fs)[i]? = some fn) :
    (fs[i]? = some fn ∧ ∀ e ∈ bodies, e.1 ≠ i) ∨
      ∃ e ∈ bodies, e.1 = i ∧ ∃ g, fs[i]? = some g ∧ fn = { g with body := .compiled e.2.1 e.2.2 } := by
  induction bodies generalizing fs with
  | nil => exact .inl ⟨h, by simp⟩
  | cons e bodies ih =>
    rw [List.foldl_cons] at h
    rcases ih _ h with ⟨hfs, hnone⟩ | ⟨e', he', haddr, g, hg, rfl⟩
    · rw [Array.getElem?_modify] at hfs
      split at hfs
      · rename_i haddr
        obtain ⟨g, hg, rfl⟩ := Option.map_eq_some_iff.mp hfs
        exact .inr ⟨e, List.mem_cons_self, haddr, g, hg, rfl⟩
      · rename_i haddr
        refine .inl ⟨hfs, fun e' he' => ?_⟩
        rcases List.mem_cons.mp he' with rfl | he'
        · exact haddr
        · exact hnone e' he'
    · rw [Array.getElem?_modify] at hg
      split at hg
      · obtain ⟨g₀, hg₀, rfl⟩ := Option.map_eq_some_iff.mp hg
        exact .inr ⟨e', List.mem_cons_of_mem _ he', haddr, g₀, hg₀, rfl⟩
      · exact .inr ⟨e', List.mem_cons_of_mem _ he', haddr, g, hg, rfl⟩

theorem compile_compiledFunctions {unit : CompilationUnit} {m : Machine} {config : ReportConfig}
    {x : Executable} (hx : compile unit m config = .ok x) {i : Nat} {fn : Function}
    {code : Array Instr} {kinds : Array Kind} (hfn : x.functions[i]? = some fn)
    (hbody : fn.body = .compiled code kinds) :
    (unit.emitEnv m config).Emitted fn.type code kinds ∧
      ∀ p ∈ fn.type.params, p.type.isStruct = false := by
  unfold compile at hx
  simp only [bind, Except.bind] at hx
  split at hx
  · cases hx
  · split at hx
    rename_i bodies st hrun
    split at hx
    · cases hx
    · rename_i hclean
      cases hx
      have haw := unit.numbered.assemble_awaitsBodies m config
      obtain ⟨hreport, hemitted, ⟨_, hinit, hinitAddr⟩, hcover⟩ :=
        EmitM.emitBodies_spec (unit.emitEnv m config) _ _ _ _ _ (Report.Extends.refl _)
      simp only [CompilationUnit.emitEnv] at hreport hemitted hinit hcover
      rw [hrun] at hreport hemitted hinit hcover
      -- the report after emission has no errors, so no waiting body takes a struct by value
      have hnoStruct : ∀ b ∈ (unit.numbered.assemble m config).2.pending,
          ∀ p ∈ b.type.params, p.type.isStruct = false := fun b hb p hp =>
        Bool.eq_false_iff.mpr fun hstruct => hclean (hreport.2 (haw.byValue b hb ⟨p, hp, hstruct⟩))
      rcases foldl_modify_bodies bodies _ hfn with ⟨hpushed, hnone⟩ |
        ⟨e, he, rfl, g, hg, rfl⟩
      · -- a function that emission did not touch is no compiled function
        exfalso
        rw [Array.getElem?_push] at hpushed
        split at hpushed
        · subst i
          exact hnone _ hinit hinitAddr
        · obtain ⟨b, hb, rfl⟩ := haw.compiled _ _ _ _ hpushed hbody
          obtain ⟨e, he, haddr⟩ := hcover b hb (haw.body b hb)
          exact hnone e he haddr
      · cases hbody
        rcases hemitted e he with ⟨hinitAddr, hemit⟩ | ⟨b, hb, haddr, hemit⟩
        · rw [hinitAddr, Array.getElem?_push_size] at hg
          cases hg
          exact ⟨hemit, fun _ hp => by cases hp⟩
        · obtain ⟨name, hplace⟩ := haw.placeholder b hb
          rw [haddr, Array.getElem?_push, if_neg (Nat.ne_of_lt (haw.address_lt hb)), hplace] at hg
          cases hg
          exact ⟨hemit, hnoStruct b hb⟩

end CStack
