import Mathlib
import CStack.Proofs.StaticCode
import CStack.Proofs.Overloads

/-!
# Stack heights of emitted code

Annotated code keeps a stack discipline that can be read off the code itself: each position of the
code has a height, the number of values the code has left on the operand stack when control
reaches it, and each instruction takes no more values than the height of its position holds and
leads to positions whose heights are what it leaves. A call takes its arguments, its callee and,
for a method, the receiver, as the function type the call site calls its callee as has them; a
return takes the result when the function returns one. Jumps and branches stay inside the code or
go just past its end.

`StackMap` states that heights fit the code; `Shifts` that code run from any height at or above
what it takes ends at that height less what it took plus what it left. The code of every
expression, computed by `EmitEnv.exprCode`, leaves exactly one value when it emits without a
diagnostic. That needs one fact of the environment the compiler builds: only methods take a
receiver (`EmitEnv.Receivers`), so a call site pushes a receiver exactly when the function type it
calls takes one.
-/

namespace CStack

/-! ### Only methods take a receiver -/

/-- No function a value of this type can be called as takes a receiver, nor one that the call
returns. Parameters are not values of the caller, so they do not count. -/
def CType.receiverFree : CType → Bool
  | .pointer t => t.receiverFree
  | .function (.mk ret _ isInstance) => !isInstance && ret.receiverFree
  | _ => true


/-- The environment gives a receiver to methods only: every method a struct declares takes one,
and no field, global or function is a value that can be called with one. Methods and the values
the environment holds return no such value either. -/
structure EmitEnv.Receivers (env : EmitEnv) : Prop where
  methods : ∀ id st, env.registry.get? id = some st → ∀ name, ∀ ft ∈ st.methodsNamed name,
    ft.isInstance = true ∧ ft.ret.receiverFree = true
  fields : ∀ id st, env.registry.get? id = some st → ∀ name offset t,
    st.field? name = some (offset, t) → t.receiverFree = true
  globals : ∀ name g, env.symbols.global? name = some g → g.type.receiverFree = true
  functions : ∀ name, ∀ f ∈ env.symbols.functionsNamed name,
    (CType.function f.type).receiverFree = true

/-- No local of the scope is a value that can be called with a receiver. -/
def Scope.ReceiverFree (sc : Scope) : Prop :=
  ∀ scope ∈ sc.locals, ∀ b ∈ scope, b.2.type.receiverFree = true

/-- What giving receivers to methods only means of a symbol. -/
def Symbol.ReceiverSound : Symbol → Prop
  | .method _ t => t.isInstance = true ∧ t.ret.receiverFree = true
  | s => s.type.receiverFree = true

section Receivers

variable {env : EmitEnv} {sc : Scope}

theorem getD_mem_of_pickOverload {candidates : List FunctionType} {args : List CType} {i : Nat}
    (h : pickOverload candidates args = some i) : candidates[i]?.getD default ∈ candidates := by
  obtain ⟨hi, -⟩ := isFirstBest_of_pickOverload h
  simp [List.getElem?_eq_getElem hi]

theorem EmitEnv.Receivers.receiverSymbol (hW : env.Receivers) {owner : Option StructId}
    {name : String} {args : Option (List CType)} {s : Symbol}
    (h : env.receiverSymbol owner name args = some (some s)) : s.ReceiverSound := by
  unfold EmitEnv.receiverSymbol at h
  rcases owner with _ | owner
  · cases h
  dsimp only at h
  cases hentry : env.registry.get? owner with
  | none => simp [hentry] at h
  | some entry =>
    simp only [hentry] at h
    cases hfield : entry.field? name with
    | some found =>
      obtain ⟨offset, t⟩ := found
      simp only [hfield, Option.some.injEq] at h
      subst h
      exact hW.fields owner entry hentry name offset t hfield
    | none =>
      simp only [hfield] at h
      split at h
      · cases h
      rename_i hnonempty
      split at h
      · cases h
      rename_i i hindex
      obtain ⟨address, -, rfl⟩ := Option.map_eq_some_iff.mp (Option.some.inj h)
      have hmem : (entry.methodsNamed name)[i]?.getD default ∈ entry.methodsNamed name := by
        cases args with
        | some ts => exact getD_mem_of_pickOverload hindex
        | none =>
          cases hindex
          cases hc : entry.methodsNamed name with
          | nil => simp [hc] at hnonempty
          | cons f fs => simp
      exact hW.methods owner entry hentry name _ hmem

theorem EmitEnv.Receivers.nameSymbol (hW : env.Receivers) (hsc : sc.ReceiverFree) {name : String}
    {args : Option (List CType)} {s : Symbol} (h : env.nameSymbol sc name args = some s) :
    s.ReceiverSound := by
  unfold EmitEnv.nameSymbol at h
  split at h
  · rename_i l hl
    cases h
    obtain ⟨scope, hscope, hlookup⟩ := List.exists_of_findSome?_eq_some hl
    obtain ⟨l₁, l₂, rfl, -⟩ := List.lookup_eq_some_iff.mp hlookup
    exact hsc _ hscope (name, l) (List.mem_append_right _ List.mem_cons_self)
  split at h
  · rename_i found hfound
    cases found with
    | none => cases h
    | some s' =>
      cases h
      exact hW.receiverSymbol hfound
  split at h
  · rename_i g hg
    cases h
    exact hW.globals name g hg
  unfold EmitEnv.functionSymbol at h
  dsimp only at h
  split at h
  · cases h
  rename_i f hf
  obtain ⟨address, -, rfl⟩ := Option.map_eq_some_iff.mp h
  obtain ⟨i, -, hi⟩ := Option.bind_eq_some_iff.mp hf
  exact hW.functions name f (List.mem_of_getElem? hi)

theorem CType.receiverFree_callable {t : CType} {ft : FunctionType} (ht : t.receiverFree = true)
    (hft : t.callable? = some ft) : ft.isInstance = false ∧ ft.ret.receiverFree = true := by
  obtain ⟨ret, params, isInstance⟩ := ft
  cases t with
  | function f =>
    cases hft
    simpa [CType.receiverFree, FunctionType.isInstance, FunctionType.ret] using ht
  | pointer t =>
    cases t <;> simp only [CType.callable?, reduceCtorEq] at hft
    cases hft
    simpa [CType.receiverFree, FunctionType.isInstance, FunctionType.ret] using ht
  | _ => simp [CType.callable?] at hft

theorem CType.receiverFree_derefType {t d : CType} (ht : t.receiverFree = true)
    (hd : t.derefType = some d) : d.receiverFree = true := by
  unfold CType.derefType at hd
  split at hd
  · split at hd
    · cases hd
    · cases hd
      simpa [CType.receiverFree] using ht
  · cases hd
    exact ht
  · cases hd

theorem Registry.receiverFree_resolve (r : Registry) (m : Machine) :
    (name : TypeName) → {t : CType} → r.resolve m name = .ok t → t.receiverFree = true
  | .void, _, h | .basic _ _, _, h => by cases h; rfl
  | .pointer inner, t, h => by
    simp only [Registry.resolve, bind, Except.bind] at h
    split at h
    · cases h
    · rename_i hinner
      cases h
      simpa only [CType.receiverFree] using r.receiverFree_resolve m inner hinner
  | .struct name, t, h => by
    simp only [Registry.resolve] at h
    split at h <;> cases h
    rfl
  | .function ret params, t, h => by
    simp only [Registry.resolve, bind, Except.bind] at h
    split at h
    · cases h
    · split at h
      · cases h
      · cases h
        simpa [CType.receiverFree] using r.receiverFree_resolve m ret ‹_›

theorem EmitEnv.Receivers.field (hW : env.Receivers) {owner : Option StructId} {member : String}
    {offset : Nat} {t : CType} (h : env.field owner member = some (offset, t)) :
    t.receiverFree = true := by
  obtain ⟨st, hst, hfield⟩ := Option.bind_eq_some_iff.mp h
  obtain ⟨id, -, hid⟩ := Option.bind_eq_some_iff.mp hst
  exact hW.fields id st hid member offset t hfield

theorem receiverFree_ofValue {t : CType} {ft : FunctionType} (ht : t.receiverFree = true)
    (hft : (EmitM.Overload.ofValue t).type.callable? = some ft) :
    ft.isInstance = false ∧ ft.ret.receiverFree = true := by
  unfold EmitM.Overload.ofValue at hft
  cases hcall : t.callable? with
  | none => simp [hcall] at hft
  | some f =>
    simp only [hcall] at hft
    simp only [CType.callable?, Option.some.injEq] at hft
    subst hft
    exact CType.receiverFree_callable ht hcall

/-- Whether the code of a callee pushes a receiver before it. -/
def Callee.receives : Callee → Bool
  | .method _ _ => true
  | _ => false

theorem EmitEnv.Receivers.method (hW : env.Receivers) {owner : StructId} {member : String}
    {args : List CType} {receiver : Receiver} {o : Overload} {ft : FunctionType}
    (h : env.method owner member args receiver = some o) (hft : o.type.callable? = some ft) :
    ((∃ address, o.callee = .method receiver address) ∨ o.callee = .value) ∧
      ft.isInstance = o.callee.receives ∧ ft.ret.receiverFree = true := by
  unfold EmitEnv.method at h
  cases hst : env.registry.get? owner with
  | none => simp [hst] at h
  | some st =>
    simp only [hst] at h
    split at h
    · -- no method of that name: a field holding a function pointer
      split at h
      · rename_i offset t hfield
        split at h
        · cases h
          exact ⟨.inr rfl, receiverFree_ofValue (hW.fields owner st hst member offset t hfield) hft⟩
        · cases h
      · cases h
    · split at h
      · cases h
      rename_i i hpick
      obtain ⟨address, -, rfl⟩ := Option.map_eq_some_iff.mp h
      cases hft
      exact ⟨.inl ⟨address, rfl⟩,
        hW.methods owner st hst member _ (getD_mem_of_pickOverload hpick)⟩

/-- The code emission gives a callee pushes what the function type it is called as takes: the
target of `target.m()` as the receiver of a method reached by address, that of `p->m()` as the
receiver of one reached through a pointer. A failed callee is never pushed. -/
def Callee.Fits (f : Expr) : Callee → Prop
  | .method .address _ => ∃ tag span target name, f = .node tag span (.member target name)
  | .method .pointer _ => ∃ tag span target name, f = .node tag span (.arrow target name)
  | .nothing => False
  | _ => True

theorem EmitEnv.Receivers.staticCallee (hW : env.Receivers) (hsc : sc.ReceiverFree) {f : Expr}
    {ts : List CType} {o : Overload} {ft : FunctionType} (ho : env.staticCallee sc f ts = some o)
    (hft : o.type.callable? = some ft)
    (hvalue : o.callee = .value → ∀ t, env.staticType sc f = some t → t.receiverFree = true) :
    o.callee.Fits f ∧ ft.isInstance = o.callee.receives ∧ ft.ret.receiverFree = true := by
  obtain ⟨tag, span, k⟩ := f
  cases k
  case member target name | arrow target name =>
    simp only [EmitEnv.staticCallee] at ho
    obtain ⟨t, -, ho⟩ := Option.bind_eq_some_iff.mp ho
    obtain ⟨owner, -, ho⟩ := Option.bind_eq_some_iff.mp ho
    obtain ⟨⟨address, hcallee⟩ | hcallee, hreceives⟩ := hW.method ho hft
    · rw [hcallee] at hreceives ⊢
      exact ⟨⟨tag, span, target, name, rfl⟩, hreceives⟩
    · rw [hcallee] at hreceives ⊢
      exact ⟨trivial, hreceives⟩
  case «variable» name =>
    simp only [EmitEnv.staticCallee] at ho
    obtain ⟨s, hs, ho⟩ := Option.bind_eq_some_iff.mp ho
    have hsound := hW.nameSymbol hsc hs
    cases s with
    | function address t =>
      cases ho
      cases hft
      exact ⟨trivial, CType.receiverFree_callable hsound rfl⟩
    | method address t =>
      cases ho
      cases hft
      exact ⟨trivial, hsound.1, hsound.2⟩
    | «local» slot t | global address t | field offset t =>
      cases ho
      exact ⟨trivial, receiverFree_ofValue hsound hft⟩
  case error =>
    simp only [EmitEnv.staticCallee, Option.some.injEq] at ho
    subst ho
    simp [CType.int, CType.callable?] at hft
  all_goals
    simp only [EmitEnv.staticCallee] at ho
    obtain ⟨t, ht, rfl⟩ := Option.map_eq_some_iff.mp ho
    exact ⟨trivial, receiverFree_ofValue (hvalue rfl t ht) hft⟩

theorem unaryResult_receiverFree {m : Machine} {op : UnaryOp} {t r : CType}
    (h : EmitM.unaryResult m op t = some r) : r.receiverFree = true := by
  unfold EmitM.unaryResult at h
  split at h
  · cases h; rfl
  · split at h
    · cases h; rfl
    · cases h
  · split at h
    · cases h; rfl
    · cases h
  · cases h

theorem constantType_receiverFree (v : Value) (m : Machine) :
    (constantType v m).receiverFree = true := by
  unfold constantType
  split <;> rfl

theorem planBinary_receiverFree {m : Machine} {r : Registry} {op : BinaryOp} {lt rt t : CType}
    (hl : lt.receiverFree = true) (hr : rt.receiverFree = true)
    (h : planBinary m r op lt rt = .arithmetic t ∨ planBinary m r op lt rt = .shift t ∨
      ∃ stride pf, planBinary m r op lt rt = .pointerOffset t stride pf) :
    t.receiverFree = true := by
  generalize hplan : planBinary m r op lt rt = plan at h
  have hcompare : ∀ {lt rt : CType}, planBinary.compare op lt rt ≠ plan := by
    intro lt rt hc
    unfold planBinary.compare at hc
    dsimp only at hc
    split at hc <;> (subst hc; simp at h)
  have hmove : ∀ {p : CType} {first : Bool}, pointerPlan r op p first = plan → t = p.pointer := by
    intro p first hp
    unfold pointerPlan at hp
    split at hp
    · subst hp; simp at h
    · split at hp
      · subst hp; simp at h
      · subst hp
        simp only [reduceCtorEq, BinaryPlan.pointerOffset.injEq, false_or] at h
        exact h.choose_spec.choose_spec.1.symm
  unfold planBinary at hplan
  split at hplan
  · dsimp only at hplan
    split at hplan
    · subst hplan; simp at h
    · split at hplan <;> (subst hplan; simp at h; subst h; rfl)
  · dsimp only at hplan
    split at hplan
    · rw [hmove hplan]; exact hl
    · exact absurd hplan hcompare
  · dsimp only at hplan
    split at hplan
    · rw [hmove hplan]; exact hr
    · exact absurd hplan hcompare
  · exact absurd hplan hcompare

theorem EmitEnv.binaryType_receiverFree {op : BinaryOp} {lt rt t : CType}
    (h : env.binaryType op lt rt = some t) (hl : lt.receiverFree = true)
    (hr : rt.receiverFree = true) : t.receiverFree = true := by
  unfold EmitEnv.binaryType at h
  dsimp only at h
  split at h
  · cases h; rfl
  split at h
  · rename_i t' hplan
    cases h
    exact planBinary_receiverFree hl hr (.inl hplan)
  · rename_i t' hplan
    cases h
    exact planBinary_receiverFree hl hr (.inr (.inl hplan))
  · rename_i t' stride pf hplan
    cases h
    exact planBinary_receiverFree hl hr (.inr (.inr ⟨stride, pf, hplan⟩))
  · cases h; rfl
  · cases h

end Receivers

/-! ### Annotated values are receiver-free

A method is never emitted as a value: the code of a variable naming one fails. So the type of
every expression that emits is receiver-free, and a call through an emitted value calls a function
that takes no receiver. -/

theorem EmitEnv.calleeCode_value (env : EmitEnv) (sc : Scope) (start : Nat) (f : Expr) :
    env.calleeCode sc start f .value = env.exprCode sc start f := by
  obtain ⟨tag, span, k⟩ := f
  cases k <;> simp only [EmitEnv.calleeCode]

section Values

variable {env : EmitEnv} {sc : Scope} (hW : env.Receivers) (hsc : sc.ReceiverFree)
include hW hsc

mutual

theorem exprCode_receiverFree (e : Expr) {start : Nat} {c : List Annotated} {t : CType}
    (hc : env.exprCode sc start e = some c) (ht : env.staticType sc e = some t) :
    t.receiverFree = true := by
  match e, hc, ht with
  | .node tag span k, hc, ht =>
  cases k
  case integer v | character v | float v | this | logical op l r | error =>
    simp only [EmitEnv.staticType] at ht
    first
    | (cases ht; rfl)
    | (obtain ⟨owner, -, rfl⟩ := Option.map_eq_some_iff.mp ht; rfl)
    | (obtain ⟨lt, -, ht⟩ := Option.bind_eq_some_iff.mp ht
       obtain ⟨rt, -, ht⟩ := Option.bind_eq_some_iff.mp ht
       split at ht <;> cases ht
       rfl)
  case constant v =>
    simp only [EmitEnv.staticType, Option.some.injEq] at ht
    subst ht
    exact constantType_receiverFree v env.machine
  case «variable» name =>
    simp only [EmitEnv.staticType] at ht
    simp only [EmitEnv.exprCode, EmitEnv.staticSymbol] at hc
    obtain ⟨s, hs, hc⟩ := Option.bind_eq_some_iff.mp hc
    obtain ⟨s', hs', rfl⟩ := Option.map_eq_some_iff.mp ht
    rw [hs] at hs'
    cases hs'
    have hsound := hW.nameSymbol hsc hs
    split at hc
    · cases hc
    cases s <;> first | exact hsound | cases hc
  case member target name | arrow target name =>
    simp only [EmitEnv.staticType, EmitEnv.staticField] at ht
    obtain ⟨⟨offset, t'⟩, hfield, rfl⟩ := Option.map_eq_some_iff.mp ht
    obtain ⟨tt, -, hfield⟩ := Option.bind_eq_some_iff.mp hfield
    exact hW.field hfield
  case call f args =>
    simp only [EmitEnv.staticType] at ht
    simp only [EmitEnv.exprCode] at hc
    split at ht
    · cases ht; rfl
    rename_i hf
    simp only [hf, Bool.false_eq_true, ↓reduceIte] at hc
    obtain ⟨o, ho, rfl⟩ := Option.map_eq_some_iff.mp ht
    obtain ⟨ts, hts, hc⟩ := Option.bind_eq_some_iff.mp hc
    obtain ⟨o', ho', hc⟩ := Option.bind_eq_some_iff.mp hc
    rw [ho] at ho'
    cases ho'
    obtain ⟨ft, hft, hc⟩ := Option.bind_eq_some_iff.mp hc
    split at hc
    · cases hc
    obtain ⟨argCode, -, hc⟩ := Option.bind_eq_some_iff.mp hc
    obtain ⟨cc, hcc, -⟩ := Option.bind_eq_some_iff.mp hc
    simp only [EmitEnv.staticCall, hts] at ho
    have hvalue : o.callee = .value → ∀ t, env.staticType sc f = some t → t.receiverFree = true := by
      intro hcallee t htf
      rw [hcallee, EmitEnv.calleeCode_value] at hcc
      exact exprCode_receiverFree f hcc htf
    have hcallee := hW.staticCallee hsc ho hft hvalue
    simp only [EmitEnv.callResult, hft]
    exact hcallee.2.2
  case cast ty operand =>
    simp only [EmitEnv.staticType] at ht
    obtain ⟨target, htarget, ht⟩ := Option.bind_eq_some_iff.mp ht
    obtain ⟨source, -, ht⟩ := Option.bind_eq_some_iff.mp ht
    split at ht
    · cases ht
      cases hr : env.registry.resolve env.machine ty with
      | error err => simp [hr, Except.toOption] at htarget
      | ok t' =>
        simp only [hr, Except.toOption, Option.some.injEq] at htarget
        subst htarget
        exact env.registry.receiverFree_resolve env.machine ty hr
    · cases ht
  case unary op operand =>
    simp only [EmitEnv.staticType] at ht
    obtain ⟨t', -, ht⟩ := Option.bind_eq_some_iff.mp ht
    exact unaryResult_receiverFree ht
  case binary op l r =>
    simp only [EmitEnv.staticType] at ht
    simp only [EmitEnv.exprCode] at hc
    obtain ⟨lt, hlt, ht⟩ := Option.bind_eq_some_iff.mp ht
    obtain ⟨rt, hrt, ht⟩ := Option.bind_eq_some_iff.mp ht
    obtain ⟨te, -, hc⟩ := Option.bind_eq_some_iff.mp hc
    obtain ⟨lt', hlt', hc⟩ := Option.bind_eq_some_iff.mp hc
    obtain ⟨rt', hrt', hc⟩ := Option.bind_eq_some_iff.mp hc
    rw [hlt] at hlt'
    rw [hrt] at hrt'
    cases hlt'
    cases hrt'
    split at hc
    · obtain ⟨lc, hlc, hc⟩ := Option.bind_eq_some_iff.mp hc
      obtain ⟨rc, hrc, -⟩ := Option.bind_eq_some_iff.mp hc
      exact env.binaryType_receiverFree ht (exprCode_receiverFree l hlc hlt)
        (exprCode_receiverFree r hrc hrt)
    · obtain ⟨lc, hlc, hc⟩ := Option.bind_eq_some_iff.mp hc
      obtain ⟨rc, hrc, -⟩ := Option.bind_eq_some_iff.mp hc
      exact env.binaryType_receiverFree ht (exprCode_receiverFree l hlc hlt)
        (exprCode_receiverFree r hrc hrt)
    · split at hc
      · obtain ⟨lc, hlc, hc⟩ := Option.bind_eq_some_iff.mp hc
        obtain ⟨rc, hrc, -⟩ := Option.bind_eq_some_iff.mp hc
        exact env.binaryType_receiverFree ht (exprCode_receiverFree l hlc hlt)
          (exprCode_receiverFree r hrc hrt)
      · obtain ⟨rc, hrc, hc⟩ := Option.bind_eq_some_iff.mp hc
        obtain ⟨lc, hlc, -⟩ := Option.bind_eq_some_iff.mp hc
        exact env.binaryType_receiverFree ht (exprCode_receiverFree l hlc hlt)
          (exprCode_receiverFree r hrc hrt)
    · obtain ⟨lc, hlc, hc⟩ := Option.bind_eq_some_iff.mp hc
      obtain ⟨rc, hrc, -⟩ := Option.bind_eq_some_iff.mp hc
      exact env.binaryType_receiverFree ht (exprCode_receiverFree l hlc hlt)
        (exprCode_receiverFree r hrc hrt)
    · rename_i hplan
      simp [EmitEnv.binaryType, hplan, BinaryPlan.isInvalid] at ht
  case assign target value =>
    simp only [EmitEnv.staticType] at ht
    simp only [EmitEnv.exprCode] at hc
    obtain ⟨tt, htt, hc⟩ := Option.bind_eq_some_iff.mp hc
    obtain ⟨vt, -, hc⟩ := Option.bind_eq_some_iff.mp hc
    split at hc
    · cases hc
    obtain ⟨vc, -, hc⟩ := Option.bind_eq_some_iff.mp hc
    obtain ⟨cast, -, hc⟩ := Option.bind_eq_some_iff.mp hc
    obtain ⟨pc, hpc, -⟩ := Option.bind_eq_some_iff.mp hc
    exact pointerCode_receiverFree target hpc ht
  case addressOf operand =>
    simp only [EmitEnv.staticType] at ht
    simp only [EmitEnv.exprCode] at hc
    obtain ⟨t', ht', rfl⟩ := Option.map_eq_some_iff.mp ht
    obtain ⟨t'', ht'', hc⟩ := Option.bind_eq_some_iff.mp hc
    split at hc
    · simpa only [CType.receiverFree] using exprCode_receiverFree operand hc ht'
    · simpa only [CType.receiverFree] using pointerCode_receiverFree operand hc ht'
  case deref operand =>
    simp only [EmitEnv.staticType] at ht
    simp only [EmitEnv.exprCode] at hc
    obtain ⟨t', ht', hderef⟩ := Option.bind_eq_some_iff.mp ht
    obtain ⟨te, hte, hc⟩ := Option.bind_eq_some_iff.mp hc
    split at hc
    · exact CType.receiverFree_derefType (exprCode_receiverFree operand hc ht') hderef
    · cases hc
    · obtain ⟨oc, hoc, -⟩ := Option.bind_eq_some_iff.mp hc
      exact CType.receiverFree_derefType (exprCode_receiverFree operand hoc ht') hderef
termination_by 8 * sizeOf e + 2
decreasing_by
  all_goals
    try subst_vars
    simp_wf
    try simp
    try omega

theorem pointerCode_receiverFree (e : Expr) {start : Nat} {c : List Annotated} {t : CType}
    (hc : env.pointerCode sc start e = some c) (ht : env.staticType sc e = some t) :
    t.receiverFree = true := by
  match e, hc, ht with
  | .node tag span k, hc, ht =>
  cases k
  case «variable» name =>
    simp only [EmitEnv.staticType] at ht
    simp only [EmitEnv.pointerCode, EmitEnv.staticSymbol] at hc
    obtain ⟨s, hs, hc⟩ := Option.bind_eq_some_iff.mp hc
    obtain ⟨s', hs', rfl⟩ := Option.map_eq_some_iff.mp ht
    rw [hs] at hs'
    cases hs'
    have hsound := hW.nameSymbol hsc hs
    cases s <;> first | exact hsound | cases hc
  case member target name | arrow target name =>
    simp only [EmitEnv.staticType, EmitEnv.staticField] at ht
    obtain ⟨⟨offset, t'⟩, hfield, rfl⟩ := Option.map_eq_some_iff.mp ht
    obtain ⟨tt, -, hfield⟩ := Option.bind_eq_some_iff.mp hfield
    exact hW.field hfield
  case deref operand =>
    simp only [EmitEnv.staticType] at ht
    simp only [EmitEnv.pointerCode] at hc
    obtain ⟨t', ht', hderef⟩ := Option.bind_eq_some_iff.mp ht
    obtain ⟨-, -, hc⟩ := Option.bind_eq_some_iff.mp hc
    exact CType.receiverFree_derefType (exprCode_receiverFree operand hc ht') hderef
  case error =>
    simp only [EmitEnv.staticType, Option.some.injEq] at ht
    subst ht
    rfl
  all_goals
    simp only [EmitEnv.pointerCode] at hc
    cases hc
termination_by 8 * sizeOf e + 1
decreasing_by
  all_goals
    try subst_vars
    simp_wf
    try simp
    try omega

end

end Values

/-! ### Parts of expressions -/

theorem EmitEnv.length_staticTypes (env : EmitEnv) (sc : Scope) :
    ∀ {args : List Expr} {ts : List CType}, env.staticTypes sc args = some ts →
      ts.length = args.length
  | [], ts, h => by
    simp only [EmitEnv.staticTypes, Option.some.injEq] at h
    subst h
    rfl
  | a :: rest, ts, h => by
    simp only [EmitEnv.staticTypes] at h
    obtain ⟨t, -, h⟩ := Option.bind_eq_some_iff.mp h
    obtain ⟨ts', hts', h⟩ := Option.bind_eq_some_iff.mp h
    cases h
    simp [env.length_staticTypes sc hts']

namespace Expr

variable {tag : Nat} {span : Span} {k : ExprKind} {e : Expr}

theorem ErrorFree.part (h : (Expr.node tag span k).ErrorFree) (he : e.nodes ⊆ k.nodes) :
    e.ErrorFree :=
  fun n hn => h n (List.mem_cons_of_mem _ (he hn))

theorem ErrorFree.isError_eq_false (h : e.ErrorFree) : e.isError = false :=
  h e (mem_nodes_self e)

end Expr

/-! ### Heights that fit code

Heights are indexed by the absolute index of an instruction in the function's code, so that a
piece of code and the code it is part of can share them. -/

namespace Instr

/-- The values an instruction takes from the top of the stack and the values it leaves there in
their place, for an instruction that continues in its frame: a branch takes its condition, a jump
nothing. What a call and a return take depends on the function types involved. -/
def arity : Instr → Nat × Nat
  | .loadConstant _ | .loadLocal _ | .loadLocalAddress _ | .loadGlobal _ | .loadGlobalAddress _ =>
    (0, 1)
  | .storeLocal _ | .storeGlobal _ | .pop | .branchIfFalse _ => (1, 0)
  | .loadPointer | .offsetPointer _ | .convert _ | .unary _ => (1, 1)
  | .storePointer => (2, 0)
  | .addPointer _ | .subPointer _ | .binary _ => (2, 1)
  | .dup => (1, 2)
  | .jump _ | .call _ | .ret => (0, 0)

end Instr

namespace Annotated

/-- The values an emitted instruction takes from the top of the stack: a call its arguments, its
callee and, when the function type it calls takes one, the receiver; a return the result, when
the function returns one. `dup` takes the value it copies. -/
def needs (rv : Bool) (x : Annotated) : Nat :=
  match x.instr, x.callee with
  | .call n, some ft => n + 1 + ft.isInstance.toNat
  | .ret, _ => rv.toNat
  | i, _ => i.arity.1

/-- The heights `d` fit the instruction `x` at index `i`, in code whose jumps may go to the indices
from `lo` to `hi`, of a function that returns a value when `rv`: the height at `i` holds what `x`
takes, and each index control continues at has the height `x` leaves. A call is annotated with
the function type it calls. -/
def Fits (lo hi : Nat) (rv : Bool) (d : Nat → Nat) (i : Nat) (x : Annotated) : Prop :=
  x.needs rv ≤ d i ∧
    match x.instr with
    | .jump t => lo ≤ t ∧ t ≤ hi ∧ d t = d i
    | .branchIfFalse t => lo ≤ t ∧ t ≤ hi ∧ d t = d i - 1 ∧ d (i + 1) = d i - 1
    | .call n => ∃ ft, x.callee = some ft ∧ n = ft.params.length ∧
        d (i + 1) = d i - x.needs rv + (!ft.ret.isVoid).toNat
    | .ret => True
    | y => d (i + 1) = d i - y.arity.1 + y.arity.2

/-- The heights `d` fit each instruction of `code`, whose first instruction has index `o`. -/
def Placed (code : List Annotated) (o lo hi : Nat) (rv : Bool) (d : Nat → Nat) : Prop :=
  ∀ j (hj : j < code.length), code[j].Fits lo hi rv d (o + j)

end Annotated

open Annotated

/-- The heights `d` fit code whose first instruction has index `a`, with its jumps inside it or
just past its end, in a function that returns a value when `rv`. -/
def StackMap (code : List Annotated) (a : Nat) (rv : Bool) (d : Nat → Nat) : Prop :=
  Placed code a a (a + code.length) rv d

/-- Code whose first instruction has index `a`, run from any height of at least `p`, reaches its
end at that height less `p` plus `q`, with heights that fit it on the way. -/
def Shifts (rv : Bool) (code : List Annotated) (a p q : Nat) : Prop :=
  ∀ D, p ≤ D → ∃ d, StackMap code a rv d ∧ d a = D ∧ d (a + code.length) = D - p + q

namespace Annotated

variable {lo hi lo' hi' o i : Nat} {rv : Bool} {d d' : Nat → Nat} {x : Annotated}
  {c c₁ c₂ : List Annotated}

theorem Fits.mono (h : x.Fits lo' hi' rv d' i) (hlo : lo ≤ lo') (hhi : hi' ≤ hi) (hi₁ : lo' ≤ i)
    (hi₂ : i < hi') (hd : ∀ j, lo' ≤ j → j ≤ hi' → d j = d' j) : x.Fits lo hi rv d i := by
  obtain ⟨instr, callee⟩ := x
  obtain ⟨hneeds, hnext⟩ := h
  have hdi : d i = d' i := hd i hi₁ hi₂.le
  have hdi₁ : d (i + 1) = d' (i + 1) := hd (i + 1) (by omega) hi₂
  refine ⟨by rw [hdi]; exact hneeds, ?_⟩
  cases instr
  case jump t =>
    obtain ⟨h₁, h₂, h₃⟩ := hnext
    exact ⟨by omega, by omega, by rw [hd t h₁ h₂, hdi, h₃]⟩
  case branchIfFalse t =>
    obtain ⟨h₁, h₂, h₃, h₄⟩ := hnext
    exact ⟨by omega, by omega, by rw [hd t h₁ h₂, hdi, h₃], by rw [hdi₁, hdi, h₄]⟩
  case call n =>
    obtain ⟨ft, hft, hn, hnext⟩ := hnext
    exact ⟨ft, hft, hn, by rw [hdi₁, hdi, hnext]⟩
  case ret => trivial
  all_goals
    simp only at hnext ⊢
    rw [hdi₁, hdi, hnext]

theorem Placed.append {b : Nat} (h₁ : Placed c₁ o lo hi rv d) (h₂ : Placed c₂ b lo hi rv d)
    (hb : b = o + c₁.length) : Placed (c₁ ++ c₂) o lo hi rv d := by
  subst hb
  intro j hj
  by_cases hlt : j < c₁.length
  · rw [List.getElem_append_left hlt]
    exact h₁ j hlt
  · have h₂' := h₂ (j - c₁.length) (by simp at hj; omega)
    rw [List.getElem_append_right (by omega)]
    rwa [Nat.add_assoc, Nat.add_sub_cancel' (by omega)] at h₂'

theorem Placed.nil (o lo hi : Nat) (rv : Bool) (d : Nat → Nat) : Placed [] o lo hi rv d :=
  fun j hj => absurd hj (Nat.not_lt_zero j)

theorem Fits.cons (hx : x.Fits lo hi rv d o) (h : Placed c (o + 1) lo hi rv d) :
    Placed (x :: c) o lo hi rv d := by
  intro j hj
  cases j with
  | zero => simpa using hx
  | succ j =>
    have h' := h j (by simpa using hj)
    rwa [Nat.add_assoc, Nat.add_comm 1 j] at h'

theorem Placed.single (hx : x.Fits lo hi rv d o) : Placed [x] o lo hi rv d :=
  hx.cons (Placed.nil _ _ _ _ _)

theorem Placed.of_stackMap {a : Nat} (h : StackMap c a rv d') (hlo : lo ≤ a)
    (hhi : a + c.length ≤ hi) (hd : ∀ j, a ≤ j → j ≤ a + c.length → d j = d' j) :
    Placed c a lo hi rv d :=
  fun j hj => (h j hj).mono hlo hhi (by omega) (by omega) hd

end Annotated

/-- Heights `d₁` up to index `n`, heights `d₂` after it: the heights of code run after code. -/
def glueHeights (n : Nat) (d₁ d₂ : Nat → Nat) (i : Nat) : Nat := if i ≤ n then d₁ i else d₂ i

namespace Shifts

variable {rv : Bool} {a p q p' q' : Nat} {c c₁ c₂ : List Annotated}

theorem nil (rv : Bool) (a : Nat) : Shifts rv [] a 0 0 :=
  fun D _ => ⟨fun _ => D, Placed.nil _ _ _ _ _, rfl, rfl⟩

theorem mono (h : Shifts rv c a p q) (k : Nat) : Shifts rv c a (p + k) (q + k) := by
  intro D hD
  obtain ⟨d, hmap, h0, hend⟩ := h D (by omega)
  exact ⟨d, hmap, h0, by rw [hend]; omega⟩

theorem append {a' : Nat} (h₁ : Shifts rv c₁ a p q) (h₂ : Shifts rv c₂ a' p' q')
    (ha : a' = a + c₁.length) (hle : p' ≤ q) : Shifts rv (c₁ ++ c₂) a p (q - p' + q') := by
  subst ha
  intro D hD
  obtain ⟨d₁, hmap₁, h₁0, h₁end⟩ := h₁ D hD
  obtain ⟨d₂, hmap₂, h₂0, h₂end⟩ := h₂ (D - p + q) (by omega)
  have hlen : (c₁ ++ c₂).length = c₁.length + c₂.length := List.length_append
  refine ⟨glueHeights (a + c₁.length) d₁ d₂, ?_, by simp [glueHeights, h₁0], ?_⟩
  · refine Placed.append ?_ ?_ rfl
    · refine Placed.of_stackMap hmap₁ le_rfl (by omega) fun j _ hj => ?_
      simp [glueHeights, hj]
    · refine Placed.of_stackMap hmap₂ (by omega) (by omega) fun j hj _ => ?_
      by_cases hj' : j = a + c₁.length
      · simp [glueHeights, hj', h₁end, h₂0]
      · simp [glueHeights, show ¬j ≤ a + c₁.length by omega]
  · rw [hlen]
    by_cases h0 : c₂.length = 0
    · rw [List.length_eq_zero_iff.mp h0] at h₂end
      simp only [glueHeights, h0, Nat.add_zero, le_refl, ↓reduceIte, h₁end]
      simp only [List.length_nil, Nat.add_zero, h₂0] at h₂end
      omega
    · rw [glueHeights, if_neg (by omega), ← Nat.add_assoc, h₂end]
      omega

theorem seq {a' : Nat} (h₁ : Shifts rv c₁ a p q) (h₂ : Shifts rv c₂ a' 0 q')
    (ha : a' = a + c₁.length) : Shifts rv (c₁ ++ c₂) a p (q + q') := by
  simpa using h₁.append h₂ ha (Nat.zero_le q)

theorem single {i : Instr} (hi : i.transfersControl = false) (rv : Bool) (a : Nat) :
    Shifts rv [⟨i, none⟩] a i.arity.1 i.arity.2 := by
  intro D hD
  refine ⟨fun j => if j = a then D else D - i.arity.1 + i.arity.2, Placed.single ⟨?_, ?_⟩,
    by simp, by simp⟩
  · cases i <;> simp_all [needs, Instr.transfersControl]
  · cases i <;> simp_all [Instr.transfersControl]

theorem call (ft : FunctionType) (rv : Bool) (a : Nat) :
    Shifts rv [⟨.call ft.params.length, some ft⟩] a (ft.params.length + 1 + ft.isInstance.toNat)
      (!ft.ret.isVoid).toNat := by
  intro D hD
  refine ⟨fun j => if j = a then D else D - (ft.params.length + 1 + ft.isInstance.toNat) +
    (!ft.ret.isVoid).toNat, Placed.single ⟨by simpa [needs] using hD, ft, rfl, rfl, ?_⟩,
    by simp, by simp⟩
  simp [needs]

theorem conversion (env : EmitEnv) (source target : CType) (rv : Bool) (a : Nat) :
    Shifts rv (plain (env.conversionCode source target)) a 1 1 := by
  have hconvert : ∀ (k : Kind) a, Shifts rv (plain [.convert k]) a 1 1 :=
    fun k a => single rfl rv a
  unfold EmitEnv.conversionCode
  split
  · exact (nil rv a).mono 1
  split
  · split
    · -- a test against zero, then `int` converted to `bool`'s representation
      rw [plain_append]
      rename_i fromKind toKind _ _ _
      have htest : Shifts rv (plain [.loadConstant (Value.zero fromKind), .binary .ne]) a 1 1 :=
        (((single (i := .loadConstant (Value.zero fromKind)) rfl rv a).mono 1).append
          (single (i := .binary .ne) rfl rv _) rfl le_rfl :
            Shifts rv ([⟨.loadConstant _, none⟩] ++ [⟨.binary .ne, none⟩]) a 1 1)
      split
      · exact htest.append (hconvert _ _) rfl le_rfl
      · simpa using htest
    · split
      · exact hconvert _ a
      · exact (nil rv a).mono 1
  · exact (nil rv a).mono 1

theorem omitted (ps : List Parameter) (rv : Bool) (a : Nat) :
    Shifts rv (plain (omittedCode ps)) a 0 ps.length := by
  induction ps generalizing a with
  | nil => exact nil rv a
  | cons p ps ih =>
    have h := (single (i := .loadConstant (EmitM.omittedArgument p)) rfl rv a).seq (ih _) rfl
    simpa [Nat.add_comm, Instr.arity] using h

theorem thisField (offset : Nat) (rv : Bool) (a : Nat) :
    Shifts rv (plain (Instr.thisField offset)) a 0 1 := by
  unfold Instr.thisField
  split
  · exact (single (i := .loadLocal 0) rfl rv a).append (single rfl rv _) rfl le_rfl
  · exact single rfl rv a

theorem cast {env : EmitEnv} {source target : CType} {code : List Instr}
    (h : env.castCode source target = some code) (rv : Bool) (a : Nat) :
    Shifts rv (plain code) a 1 1 := by
  unfold EmitEnv.castCode at h
  split at h
  · cases h
  · cases h
    exact conversion env source target rv a

theorem logicalTail (one zero : Value) {E lo hi D : Nat} {d : Nat → Nat} (hlo : lo ≤ E)
    (hhi : E + 4 ≤ hi) (h₀ : d E = D + 1) (h₁ : d (E + 1) = D) (h₂ : d (E + 2) = D + 1)
    (h₃ : d (E + 3) = D) (h₄ : d (E + 4) = D + 1) :
    Placed (plain [.branchIfFalse (E + 3), .loadConstant one, .jump (E + 3 + 1), .loadConstant zero])
      E lo hi rv d :=
  Fits.cons ⟨by simp [needs, Instr.arity, h₀], by omega, by omega, by simp [h₀, h₃],
    by simp [h₀, h₁]⟩ <| Fits.cons ⟨by simp [needs, Instr.arity], by simp [Instr.arity, h₁, h₂]⟩ <|
    Fits.cons ⟨by simp [needs, Instr.arity], by omega, by omega, by simp [h₂, h₄]⟩ <|
    Placed.single ⟨by simp [needs, Instr.arity], by simp [Instr.arity, h₃, h₄]⟩

theorem logical (env : EmitEnv) (op : LogicalOp) {start : Nat} {lc rc : List Annotated}
    (hl : Shifts rv lc start 0 1)
    (hr : Shifts rv rc (start + lc.length + (if op = .or then 3 else 1)) 0 1) :
    Shifts rv (env.logicalCode op start lc rc) start 0 1 := by
  intro D _
  obtain ⟨dl, hlmap, hl0, hlend⟩ := hl D (Nat.zero_le D)
  obtain ⟨dr, hrmap, hr0, hrend⟩ := hr D (Nat.zero_le D)
  simp only [Nat.sub_zero] at hlend hrend
  cases op
  case and =>
    simp only [EmitEnv.logicalCode, reduceCtorEq, ↓reduceIte] at hrmap hr0 hrend ⊢
    simp only [StackMap, List.length_append, length_plain, List.length_cons, List.length_nil]
    set L := start + lc.length with hL
    set E := L + 1 + rc.length with hE
    refine ⟨fun i => if i ≤ L then dl i else if i ≤ E then dr i
      else if i = E + 2 ∨ i = E + 4 then D + 1 else D, ?_, ?_, ?_⟩
    · refine Placed.append (Placed.append (Placed.append ?_ ?_ (b := L) rfl) ?_ (b := L + 1) ?_)
        ?_ (b := E) ?_
      · exact Placed.of_stackMap hlmap le_rfl (by omega) fun j _ hj => by rw [if_pos (by omega)]
      · refine Placed.single ⟨?_, ?_, ?_, ?_, ?_⟩ <;> (try simp only [needs, Instr.arity]) <;>
          (try split_ifs) <;> omega
      · refine Placed.of_stackMap hrmap (by omega) (by omega) fun j hj hj' => ?_
        split_ifs <;> first | rfl | omega
      · simp
        omega
      · refine logicalTail _ _ (D := D) (by omega) (by omega) ?_ ?_ ?_ ?_ ?_ <;> split_ifs <;> omega
      · simp
        omega
    · beta_reduce
      rw [if_pos (by omega), hl0]
    · beta_reduce
      split_ifs <;> omega
  case or =>
    simp only [EmitEnv.logicalCode, ↓reduceIte] at hrmap hr0 hrend ⊢
    simp only [StackMap, List.length_append, length_plain, List.length_cons, List.length_nil]
    set L := start + lc.length with hL
    set E := L + 3 + rc.length with hE
    refine ⟨fun i => if i ≤ L then dl i else if L + 3 ≤ i ∧ i ≤ E then dr i
      else if i = L + 2 ∨ i = E + 2 ∨ i = E + 4 then D + 1 else D, ?_, ?_, ?_⟩
    · refine Placed.append (Placed.append (Placed.append ?_ ?_ (b := L) rfl) ?_ (b := L + 3) ?_)
        ?_ (b := E) ?_
      · exact Placed.of_stackMap hlmap le_rfl (by omega) fun j _ hj => by rw [if_pos (by omega)]
      · refine Fits.cons ⟨?_, ?_, ?_, ?_, ?_⟩ (Fits.cons ⟨?_, ?_⟩ (Placed.single ⟨?_, ?_, ?_, ?_⟩)) <;>
          (try simp only [needs, Instr.arity, true_or, or_true, ↓reduceIte]) <;>
          (try split_ifs) <;> omega
      · refine Placed.of_stackMap hrmap (by omega) (by omega) fun j hj hj' => ?_
        split_ifs <;> first | rfl | omega
      · simp
        omega
      · refine logicalTail _ _ (D := D) (by omega) (by omega) ?_ ?_ ?_ ?_ ?_ <;> split_ifs <;> omega
      · simp
        omega
    · beta_reduce
      rw [if_pos (by omega), hl0]
    · beta_reduce
      split_ifs <;> omega

theorem congr (h : Shifts rv c a p q) (hq : q = q') : Shifts rv c a p q' := hq ▸ h

theorem offset (offset : Nat) (rv : Bool) (a : Nat) :
    Shifts rv (plain (if offset > 0 then [.offsetPointer offset] else [])) a 1 1 := by
  split
  · exact single rfl rv a
  · exact (nil rv a).mono 1

theorem pointerStep (op : BinaryOp) (stride : Nat) (rv : Bool) (a : Nat) :
    Shifts rv (plain [if op = .sub then .subPointer stride else .addPointer stride]) a 2 1 := by
  split
  · exact single rfl rv a
  · exact single rfl rv a

end Shifts

/-! ### The code of an expression leaves one value -/

section Heights

variable {env : EmitEnv} {sc : Scope}

mutual

theorem exprCode_shifts (hW : env.Receivers) (hsc : sc.ReceiverFree) (rv : Bool) (e : Expr)
    (hfree : e.ErrorFree) {start : Nat} {c : List Annotated}
    (hc : env.exprCode sc start e = some c) : Shifts rv c start 0 1 := by
  match e, hfree, hc with
  | .node tag span k, hfree, hc =>
  cases k
  case integer v | character v | float v =>
    simp only [EmitEnv.exprCode, EmitEnv.literalCode] at hc
    obtain ⟨t, -, hc⟩ := Option.bind_eq_some_iff.mp hc
    cases hc
    exact Shifts.single rfl rv start
  case constant v =>
    simp only [EmitEnv.exprCode, Option.some.injEq] at hc
    subst hc
    exact Shifts.single rfl rv start
  case «variable» name =>
    simp only [EmitEnv.exprCode, EmitEnv.staticSymbol] at hc
    obtain ⟨s, -, hc⟩ := Option.bind_eq_some_iff.mp hc
    split at hc
    · cases hc
    cases s <;> simp only [Option.some.injEq, reduceCtorEq] at hc <;> subst hc
    · exact Shifts.single rfl rv start
    · exact Shifts.single rfl rv start
    · rw [plain_append]
      exact (Shifts.thisField _ rv start).append (Shifts.single rfl rv _) rfl le_rfl
    · exact Shifts.single rfl rv start
  case this =>
    simp only [EmitEnv.exprCode, EmitEnv.staticType] at hc
    obtain ⟨t, ht, hc⟩ := Option.bind_eq_some_iff.mp hc
    obtain ⟨owner, -, rfl⟩ := Option.map_eq_some_iff.mp ht
    cases hc
    exact Shifts.single rfl rv start
  case member target name | arrow target name =>
    simp only [EmitEnv.exprCode] at hc
    obtain ⟨⟨offset, t⟩, hfield, hc⟩ := Option.bind_eq_some_iff.mp hc
    split at hc
    · cases hc
    obtain ⟨mc, hmc, hc⟩ := Option.bind_eq_some_iff.mp hc
    cases hc
    exact (memberPointerCode_shifts hW hsc rv _ hfree (by simp [hfield]) hmc).append
      (Shifts.single rfl rv _) rfl le_rfl
  case call f args =>
    have hf : f.ErrorFree := hfree.part (List.subset_append_left _ _)
    simp only [EmitEnv.exprCode, hf.isError_eq_false, Bool.false_eq_true, ↓reduceIte] at hc
    obtain ⟨ts, hts, hc⟩ := Option.bind_eq_some_iff.mp hc
    obtain ⟨o, ho, hc⟩ := Option.bind_eq_some_iff.mp hc
    obtain ⟨ft, hft, hc⟩ := Option.bind_eq_some_iff.mp hc
    split at hc
    · cases hc
    rename_i hcount
    obtain ⟨ac, hac, hc⟩ := Option.bind_eq_some_iff.mp hc
    obtain ⟨cc, hcc, hc⟩ := Option.bind_eq_some_iff.mp hc
    cases hc
    simp only [EmitEnv.staticCall, hts] at ho
    -- a call through the callee's own value: that value is receiver-free
    have hvalue : o.callee = .value → ∀ t, env.staticType sc f = some t →
        t.receiverFree = true := by
      intro hcallee t htf
      rw [hcallee, EmitEnv.calleeCode_value] at hcc
      exact exprCode_receiverFree hW hsc f hcc htf
    obtain ⟨hfits, hreceives, -⟩ := hW.staticCallee hsc ho hft hvalue
    have hlen := env.length_staticTypes sc hts
    have hargs := argumentsCode_shifts hW hsc rv args ts ft.params
      (fun n hn => hfree n (List.mem_cons_of_mem _ (List.mem_append_right _ hn))) hac
    have hpushed := (hargs.seq (Shifts.omitted (ft.params.drop args.length) rv _) rfl).seq
      (calleeCode_shifts hW hsc rv f o.callee hf hfits hcc) (by simp only [List.length_append, length_plain]; omega)
    have hcalled := hpushed.append (Shifts.call ft rv _) rfl (by
      simp only [List.length_drop, hreceives]
      omega)
    cases hvoid : ft.ret.isVoid
    · simpa [hvoid] using hcalled.congr (by simp [hvoid, hreceives]; omega)
    · -- a call to a void function leaves the int zero
      have hzero := hcalled.seq (Shifts.single (i := .loadConstant (Value.zero env.intKind)) rfl rv _)
        rfl
      simpa [hvoid] using hzero.congr (by simp [hvoid, hreceives, Instr.arity]; omega)
  case cast ty operand =>
    simp only [EmitEnv.exprCode] at hc
    obtain ⟨target, -, hc⟩ := Option.bind_eq_some_iff.mp hc
    obtain ⟨source, -, hc⟩ := Option.bind_eq_some_iff.mp hc
    obtain ⟨oc, hoc, hc⟩ := Option.bind_eq_some_iff.mp hc
    cases hc
    have hconvert : Shifts rv (plain (if source.castAllowed target then
        env.conversionCode source target else [])) (start + oc.length) 1 1 := by
      split
      · exact Shifts.conversion env source target rv _
      · exact (Shifts.nil rv _).mono 1
    exact (exprCode_shifts hW hsc rv operand (hfree.part (by simp [ExprKind.nodes])) hoc).append hconvert rfl
      le_rfl
  case unary op operand =>
    simp only [EmitEnv.exprCode] at hc
    obtain ⟨result, -, hc⟩ := Option.bind_eq_some_iff.mp hc
    obtain ⟨t, -, hc⟩ := Option.bind_eq_some_iff.mp hc
    obtain ⟨oc, hoc, hc⟩ := Option.bind_eq_some_iff.mp hc
    cases hc
    have hconvert : Shifts rv (plain (if op != .not then env.conversionCode t result else []))
        (start + oc.length) 1 1 := by
      split
      · exact Shifts.conversion env t result rv _
      · exact (Shifts.nil rv _).mono 1
    rw [plain_append, ← List.append_assoc]
    exact ((exprCode_shifts hW hsc rv operand (hfree.part (by simp [ExprKind.nodes])) hoc).append hconvert rfl
      le_rfl).append (Shifts.single rfl rv _) rfl le_rfl
  case binary op l r =>
    have hl : l.ErrorFree := hfree.part (List.subset_append_left _ _)
    have hr : r.ErrorFree := hfree.part (List.subset_append_right _ _)
    simp only [EmitEnv.exprCode] at hc
    obtain ⟨te, hte, hc⟩ := Option.bind_eq_some_iff.mp hc
    obtain ⟨lt, hlt, hc⟩ := Option.bind_eq_some_iff.mp hc
    obtain ⟨rt, hrt, hc⟩ := Option.bind_eq_some_iff.mp hc
    split at hc
    case h_1 t _ | h_2 t _ | h_4 _ =>
      obtain ⟨lc, hlc, hc⟩ := Option.bind_eq_some_iff.mp hc
      obtain ⟨rc, hrc, hc⟩ := Option.bind_eq_some_iff.mp hc
      cases hc
      rw [plain_append, ← List.append_assoc]
      exact (((((exprCode_shifts hW hsc rv l hl hlc).append (Shifts.conversion env _ _ rv _) rfl le_rfl).seq
        (exprCode_shifts hW hsc rv r hr hrc) (by simp [Nat.add_assoc])).append ((Shifts.conversion env _ _ rv _).mono 1) rfl
        (by decide)).append (Shifts.single rfl rv _) rfl le_rfl)
    case h_3 t stride pointerFirst _ =>
      split at hc
      · obtain ⟨lc, hlc, hc⟩ := Option.bind_eq_some_iff.mp hc
        obtain ⟨rc, hrc, hc⟩ := Option.bind_eq_some_iff.mp hc
        cases hc
        exact ((exprCode_shifts hW hsc rv l hl hlc).seq (exprCode_shifts hW hsc rv r hr hrc) rfl).append
          (Shifts.pointerStep op stride rv _) rfl le_rfl
      · obtain ⟨rc, hrc, hc⟩ := Option.bind_eq_some_iff.mp hc
        obtain ⟨lc, hlc, hc⟩ := Option.bind_eq_some_iff.mp hc
        cases hc
        exact ((exprCode_shifts hW hsc rv r hr hrc).seq (exprCode_shifts hW hsc rv l hl hlc) rfl).append
          (Shifts.pointerStep op stride rv _) rfl le_rfl
    case h_5 hplan =>
      simp only [EmitEnv.staticType, hlt, hrt] at hte
      simp [EmitEnv.binaryType, hplan, BinaryPlan.isInvalid] at hte
  case logical op l r =>
    simp only [EmitEnv.exprCode] at hc
    obtain ⟨_, -, hc⟩ := Option.bind_eq_some_iff.mp hc
    obtain ⟨lc, hlc, hc⟩ := Option.bind_eq_some_iff.mp hc
    obtain ⟨rc, hrc, hc⟩ := Option.bind_eq_some_iff.mp hc
    cases hc
    exact Shifts.logical env op (exprCode_shifts hW hsc rv l (hfree.part (List.subset_append_left _ _)) hlc)
      (exprCode_shifts hW hsc rv r (hfree.part (List.subset_append_right _ _)) hrc)
  case assign target value =>
    simp only [EmitEnv.exprCode] at hc
    obtain ⟨tt, -, hc⟩ := Option.bind_eq_some_iff.mp hc
    obtain ⟨vt, -, hc⟩ := Option.bind_eq_some_iff.mp hc
    split at hc
    · cases hc
    obtain ⟨vc, hvc, hc⟩ := Option.bind_eq_some_iff.mp hc
    obtain ⟨cast, hcast, hc⟩ := Option.bind_eq_some_iff.mp hc
    obtain ⟨pc, hpc, hc⟩ := Option.bind_eq_some_iff.mp hc
    cases hc
    rw [plain_append, ← List.append_assoc]
    exact ((((exprCode_shifts hW hsc rv value (hfree.part (List.subset_append_right _ _)) hvc).append
      (Shifts.cast hcast rv _) rfl le_rfl).append (Shifts.single rfl rv _) rfl le_rfl).seq
      (pointerCode_shifts hW hsc rv target (hfree.part (List.subset_append_left _ _)) hpc)
      (by simp [Nat.add_assoc])).append
      (Shifts.single rfl rv _) rfl (by decide)
  case addressOf operand =>
    have hop : operand.ErrorFree := hfree.part (by simp [ExprKind.nodes])
    simp only [EmitEnv.exprCode] at hc
    obtain ⟨t, -, hc⟩ := Option.bind_eq_some_iff.mp hc
    split at hc
    · exact exprCode_shifts hW hsc rv operand hop hc
    · exact pointerCode_shifts hW hsc rv operand hop hc
  case deref operand =>
    have hop : operand.ErrorFree := hfree.part (by simp [ExprKind.nodes])
    simp only [EmitEnv.exprCode] at hc
    obtain ⟨t, -, hc⟩ := Option.bind_eq_some_iff.mp hc
    split at hc
    · exact exprCode_shifts hW hsc rv operand hop hc
    · cases hc
    · obtain ⟨oc, hoc, hc⟩ := Option.bind_eq_some_iff.mp hc
      cases hc
      exact (exprCode_shifts hW hsc rv operand hop hoc).append (Shifts.single rfl rv _) rfl le_rfl
  case error => exact absurd hfree.isError_eq_false (by simp [Expr.isError, Expr.kind])
termination_by 8 * sizeOf e + 2
decreasing_by
  all_goals
    try subst_vars
    simp_wf
    try simp
    try omega

theorem pointerCode_shifts (hW : env.Receivers) (hsc : sc.ReceiverFree) (rv : Bool) (e : Expr)
    (hfree : e.ErrorFree) {start : Nat} {c : List Annotated}
    (hc : env.pointerCode sc start e = some c) : Shifts rv c start 0 1 := by
  match e, hfree, hc with
  | .node tag span k, hfree, hc =>
  cases k
  case «variable» name =>
    simp only [EmitEnv.pointerCode, EmitEnv.staticSymbol] at hc
    obtain ⟨s, -, hc⟩ := Option.bind_eq_some_iff.mp hc
    cases s <;> simp only [Option.some.injEq, reduceCtorEq] at hc <;> subst hc
    · exact Shifts.single rfl rv start
    · exact Shifts.single rfl rv start
    · exact Shifts.thisField _ rv start
  case member target name | arrow target name =>
    simp only [EmitEnv.pointerCode] at hc
    refine memberPointerCode_shifts hW hsc rv _ hfree ?_ hc
    simp only [EmitEnv.memberPointerCode] at hc
    obtain ⟨field, hfield, -⟩ := Option.bind_eq_some_iff.mp hc
    simp [hfield]
  case deref operand =>
    simp only [EmitEnv.pointerCode] at hc
    obtain ⟨_, -, hc⟩ := Option.bind_eq_some_iff.mp hc
    exact exprCode_shifts hW hsc rv operand (hfree.part (by simp [ExprKind.nodes])) hc
  case error => exact absurd hfree.isError_eq_false (by simp [Expr.isError, Expr.kind])
  all_goals simp [EmitEnv.pointerCode] at hc
termination_by 8 * sizeOf e + 1
decreasing_by
  all_goals
    try subst_vars
    simp_wf
    try simp
    try omega

theorem memberPointerCode_shifts (hW : env.Receivers) (hsc : sc.ReceiverFree) (rv : Bool) (e : Expr)
    (hfree : e.ErrorFree)
    (hfield : (env.staticField sc e).isSome) {start : Nat} {c : List Annotated}
    (hc : env.memberPointerCode sc start e = some c) : Shifts rv c start 0 1 := by
  match e, hfree, hfield, hc with
  | .node tag span k, hfree, hfield, hc =>
  cases k
  case member target name =>
    simp only [EmitEnv.memberPointerCode] at hc
    obtain ⟨⟨offset, t⟩, -, hc⟩ := Option.bind_eq_some_iff.mp hc
    obtain ⟨tc, htc, hc⟩ := Option.bind_eq_some_iff.mp hc
    cases hc
    exact (pointerCode_shifts hW hsc rv target (hfree.part (by simp [ExprKind.nodes])) htc).append
      (Shifts.offset offset rv _) rfl le_rfl
  case arrow target name =>
    simp only [EmitEnv.memberPointerCode] at hc
    obtain ⟨⟨offset, t⟩, -, hc⟩ := Option.bind_eq_some_iff.mp hc
    obtain ⟨tc, htc, hc⟩ := Option.bind_eq_some_iff.mp hc
    cases hc
    exact (exprCode_shifts hW hsc rv target (hfree.part (by simp [ExprKind.nodes])) htc).append
      (Shifts.offset offset rv _) rfl le_rfl
  all_goals simp [EmitEnv.staticField] at hfield
termination_by 8 * sizeOf e
decreasing_by
  all_goals
    try subst_vars
    simp_wf
    try simp
    try omega

theorem argumentsCode_shifts (hW : env.Receivers) (hsc : sc.ReceiverFree) (rv : Bool)
    (args : List Expr) (ts : List CType) (ps : List Parameter)
    (hfree : ∀ n ∈ Expr.listNodes args, n.isError = false) {start : Nat} {c : List Annotated}
    (hc : env.argumentsCode sc start args ts ps = some c) :
    Shifts rv c start 0 (min args.length (min ts.length ps.length)) := by
  match args, ts, ps, hfree, hc with
  | a :: rest, t :: ts, p :: ps, hfree, hc =>
    simp only [EmitEnv.argumentsCode] at hc
    obtain ⟨ac, hac, hc⟩ := Option.bind_eq_some_iff.mp hc
    obtain ⟨cast, hcast, hc⟩ := Option.bind_eq_some_iff.mp hc
    obtain ⟨rc, hrc, hc⟩ := Option.bind_eq_some_iff.mp hc
    cases hc
    have ha := exprCode_shifts hW hsc rv a (fun n hn => hfree n (List.mem_append_left _ hn)) hac
    have hrest := argumentsCode_shifts hW hsc rv rest ts ps
      (fun n hn => hfree n (List.mem_append_right _ hn)) hrc
    refine ((ha.append (Shifts.cast hcast rv _) rfl le_rfl).seq hrest (by simp [Nat.add_assoc])).congr ?_
    simp only [List.length_cons]
    omega
  | [], _, _, _, hc | _ :: _, [], _, _, hc | _ :: _, _ :: _, [], _, hc =>
    simp only [EmitEnv.argumentsCode, Option.some.injEq] at hc
    subst hc
    exact (Shifts.nil rv start).congr (by simp)
termination_by 8 * sizeOf args
decreasing_by
  all_goals
    try subst_vars
    simp_wf
    try simp
    try omega

theorem calleeCode_shifts (hW : env.Receivers) (hsc : sc.ReceiverFree) (rv : Bool) (f : Expr)
    (callee : Callee) (hfree : f.ErrorFree)
    (hfits : callee.Fits f) {start : Nat} {c : List Annotated}
    (hc : env.calleeCode sc start f callee = some c) :
    Shifts rv c start 0 (1 + callee.receives.toNat) := by
  cases callee with
  | method receiver address =>
    cases receiver with
    | address =>
      obtain ⟨tag, span, target, name, rfl⟩ := hfits
      simp only [EmitEnv.calleeCode] at hc
      obtain ⟨tc, htc, hc⟩ := Option.bind_eq_some_iff.mp hc
      cases hc
      exact (pointerCode_shifts hW hsc rv target (hfree.part (by simp [ExprKind.nodes])) htc).seq
        (Shifts.single rfl rv _) rfl
    | pointer =>
      obtain ⟨tag, span, target, name, rfl⟩ := hfits
      simp only [EmitEnv.calleeCode] at hc
      obtain ⟨tc, htc, hc⟩ := Option.bind_eq_some_iff.mp hc
      cases hc
      exact (exprCode_shifts hW hsc rv target (hfree.part (by simp [ExprKind.nodes])) htc).seq
        (Shifts.single rfl rv _) rfl
    | this =>
      simp only [EmitEnv.calleeCode, Option.some.injEq] at hc
      subst hc
      exact (Shifts.single (i := .loadLocal 0) rfl rv start).seq (Shifts.single rfl rv _) rfl
  | function address =>
    simp only [EmitEnv.calleeCode, Option.some.injEq] at hc
    subst hc
    exact Shifts.single rfl rv start
  | value =>
    rw [EmitEnv.calleeCode_value] at hc
    exact exprCode_shifts hW hsc rv f hfree hc
  | nothing => exact hfits.elim
termination_by 8 * sizeOf f + 3
decreasing_by
  all_goals
    try subst_vars
    simp_wf
    try simp
    try omega

end

end Heights

end CStack
