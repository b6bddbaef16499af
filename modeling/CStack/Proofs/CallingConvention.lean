import Mathlib
import CStack.Proofs.StepCases
import CStack.Proofs.CompiledFunctions

/-!
# The calling convention

The compiler lays out a function's frame as it declares its parameters: the receiver's cell for a
method, then the cells of each parameter in order, each parameter bound to the first of its cells
(`EmitEnv.paramBindings`). The interpreter enters a frame by zeroing its cells by the kinds the
compiled function declares, storing the receiver in the first cell and the arguments from the
next cell on (`VmM.enter`).

The two agree because every parameter of a function that compiles takes one cell: a struct
parameter is reported, and a type without cells of its own still gets an `int` cell. So a direct
call, which pushes the arguments, a method's receiver and the callee, enters a frame whose
receiver cell, parameter slots and other cells hold what the compiler expects
(`call_entersDeclaredFrame`).
-/

namespace CStack

/-! ### Writing cells one after another -/

section Writes

variable {α β : Type} (g : β → α) (first : Nat)

theorem foldl_zipIdx_getElem?_outside (l : List β) (k : Nat) (mem : Array α) {a : Nat}
    (ha : a < first + k ∨ first + k + l.length ≤ a) :
    ((l.zipIdx k).foldl (fun m p => m.setIfInBounds (first + p.2) (g p.1)) mem)[a]? = mem[a]? := by
  induction l generalizing k mem with
  | nil => rfl
  | cons b l ih =>
    simp only [List.length_cons] at ha
    rw [List.zipIdx_cons, List.foldl_cons, ih (k + 1) _ (by omega),
      Array.getElem?_setIfInBounds_ne (by omega)]

theorem foldl_zipIdx_getElem?_inside (l : List β) (k : Nat) (mem : Array α) {j : Nat}
    (hj : j < l.length) :
    ((l.zipIdx k).foldl (fun m p => m.setIfInBounds (first + p.2) (g p.1)) mem)[first + k + j]? =
      mem[first + k + j]?.map fun _ => g l[j] := by
  induction l generalizing k mem j with
  | nil => cases hj
  | cons b l ih =>
    rw [List.zipIdx_cons, List.foldl_cons]
    cases j with
    | zero =>
      rw [foldl_zipIdx_getElem?_outside g first l (k + 1) _ (.inl (by omega)), Nat.add_zero,
        Array.getElem?_setIfInBounds_self]
      split
      · rename_i hlt
        simp [Array.getElem?_eq_getElem hlt]
      · rename_i hge
        simp [Array.getElem?_eq_none (by omega : mem.size ≤ first + k)]
    | succ j =>
      rw [show first + k + (j + 1) = first + (k + 1) + j by omega,
        ih (k + 1) _ (by simpa using hj), Array.getElem?_setIfInBounds_ne (by omega)]
      rfl

end Writes

/-! ### Entering a frame -/

/-- The cells `base` up to `stop` of memory hold what a frame entered with a receiver and
arguments starts with: the receiver first, then the arguments in order, then the zero of each
remaining cell's kind. -/
structure FrameCells (memory : Array Value) (base stop : Nat) (kinds : Array Kind)
    (receiver : Option Value) (args : Array Value) : Prop where
  receiverCell : ∀ r, receiver = some r → base < stop → memory[base]? = some r
  argCells : ∀ i (hi : i < args.size), base + (if receiver.isSome then 1 else 0) + i < stop →
    memory[base + (if receiver.isSome then 1 else 0) + i]? = some args[i]
  zeroCells : ∀ j, (if receiver.isSome then 1 else 0) + args.size ≤ j → base + j < stop →
    memory[base + j]? = kinds[j]?.map Value.zero

namespace Interpreter

/-- `s'` is `s` with a frame entered for the compiled function at `address` (`Entered`) whose
cells hold the receiver, the arguments and zeros (`FrameCells`). -/
structure EnteredWith (s s' : Interpreter) (address : Nat) (kinds : Array Kind)
    (receiver : Option Value) (args : Array Value) : Prop extends s.Entered s' address kinds where
  cells : FrameCells s'.memory s.nextBase (min (s.nextBase + kinds.size) addressLimit) kinds
    receiver args

end Interpreter

namespace VmM
open Interpreter

theorem zeroFold_getElem? {kinds : Array Kind} {base stop : Nat} {mem : Array Value}
    (hstop : stop ≤ base + kinds.size) (hmem : stop ≤ mem.size) {j : Nat} (hj : base + j < stop) :
    ((kinds.toList.take (stop - base)).zipIdx.foldl
      (fun m x => m.setIfInBounds (base + x.2) (Value.zero x.1)) mem)[base + j]? =
        kinds[j]?.map Value.zero := by
  have hlen : j < (kinds.toList.take (stop - base)).length := by simp; omega
  have hinside := foldl_zipIdx_getElem?_inside Value.zero base
    (kinds.toList.take (stop - base)) 0 mem hlen
  rw [Nat.add_zero] at hinside
  rw [hinside, Array.getElem?_eq_getElem (by omega : base + j < mem.size),
    Array.getElem?_eq_getElem (by omega : j < kinds.size)]
  simp

section EntryCells

variable {kinds : Array Kind} {base stop : Nat} {mem : Array Value} (args : Array Value)

theorem zeroFold_size :
    ((kinds.toList.take (stop - base)).zipIdx.foldl
      (fun m x => m.setIfInBounds (base + x.2) (Value.zero x.1)) mem).size = mem.size :=
  Array.size_foldl_of_size _ _ (fun _ _ => Array.size_setIfInBounds) _

variable (hstop : stop ≤ base + kinds.size) (hmem : stop ≤ mem.size)
include hstop hmem

theorem frameCells_of_args :
    FrameCells (args.toList.zipIdx.foldl (fun m x => m.setIfInBounds (base + x.2) x.1)
      ((kinds.toList.take (stop - base)).zipIdx.foldl
        (fun m x => m.setIfInBounds (base + x.2) (Value.zero x.1)) mem)) base stop kinds none args where
  receiverCell _ hr _ := by cases hr
  argCells i hi hlt := by
    simp only [Option.isSome_none, Bool.false_eq_true, ↓reduceIte] at hlt ⊢
    rw [foldl_zipIdx_getElem?_inside (fun v => v) base args.toList 0 _ (by simpa using hi),
      Array.getElem?_eq_getElem (by rw [zeroFold_size]; omega)]
    simp
  zeroCells j hj hlt := by
    simp only [Option.isSome_none, Bool.false_eq_true, ↓reduceIte] at hj
    rw [foldl_zipIdx_getElem?_outside (fun v => v) base args.toList 0 _ (.inr (by simp; omega)),
      zeroFold_getElem? hstop hmem hlt]

theorem frameCells_of_receiver (r : Value) :
    FrameCells (args.toList.zipIdx.foldl (fun m x => m.setIfInBounds (base + 1 + x.2) x.1)
      (((kinds.toList.take (stop - base)).zipIdx.foldl
        (fun m x => m.setIfInBounds (base + x.2) (Value.zero x.1)) mem).setIfInBounds base r))
      base stop kinds (some r) args where
  receiverCell r' hr hlt := by
    cases hr
    rw [foldl_zipIdx_getElem?_outside (fun v => v) (base + 1) args.toList 0 _ (.inl (by omega)),
      Array.getElem?_setIfInBounds_self, if_pos (by rw [zeroFold_size]; omega)]
  argCells i hi hlt := by
    simp only [Option.isSome_some, ↓reduceIte] at hlt ⊢
    have hinside := foldl_zipIdx_getElem?_inside (fun v => v) (base + 1) args.toList 0
      (((kinds.toList.take (stop - base)).zipIdx.foldl
        (fun m x => m.setIfInBounds (base + x.2) (Value.zero x.1)) mem).setIfInBounds base r)
      (by simpa using hi)
    rw [Nat.add_zero] at hinside
    rw [hinside, Array.getElem?_eq_getElem
      (by rw [Array.size_setIfInBounds, zeroFold_size]; omega)]
    simp
  zeroCells j hj hlt := by
    simp only [Option.isSome_some, ↓reduceIte] at hj
    rw [foldl_zipIdx_getElem?_outside (fun v => v) (base + 1) args.toList 0 _ (.inr (by simp; omega)),
      Array.getElem?_setIfInBounds_ne (by omega), zeroFold_getElem? hstop hmem hlt]

end EntryCells

theorem enter_enteredWith {address : Nat} {receiver : Option Value} {args : Array Value}
    {s s' : Interpreter} (h : (enter address receiver args).run s = .ok () s') :
    ∃ kinds, s.EnteredWith s' address kinds receiver args := by
  rcases enter_cases address receiver args s with ⟨e, he⟩ | ⟨kinds, s₁, he, hent⟩
  · rw [he] at h; cases h
  rw [he] at h
  cases h
  obtain ⟨fn, hf, hframe⟩ := Option.bind_eq_some_iff.mp hent.frame
  obtain ⟨code, hbody⟩ : ∃ code, fn.body = .compiled code kinds := by
    cases hb : fn.body with
    | compiled code kinds' => rw [hb] at hframe; cases hframe; exact ⟨code, rfl⟩
    | intrinsic program => rw [hb] at hframe; cases hframe
  have hstop : min (s.nextBase + kinds.size) addressLimit ≤ s.nextBase + kinds.size :=
    Nat.min_le_left _ _
  have hin := hent.inMemory
  refine ⟨kinds, hent, ?_⟩
  unfold enter at he
  simp only [EStateM.run_bind, EStateM.run_get, hf, hbody, ge_iff_le,
    Nat.not_le.mpr hent.depth, ↓reduceIte] at he
  -- the new frame starts where the frame below ends, or above the globals; past the checks,
  -- which the entered frame passed, only the writes of the memory are left
  have hbase := hent.base
  cases hback : s.frames.back? <;> simp only [Interpreter.nextBase, hback] at hbase hstop hin ⊢ <;>
    simp only [hback, gt_iff_lt, Nat.not_lt.mpr hbase, Nat.not_lt.mpr hin, ↓reduceIte] at he <;>
    cases receiver <;> cases he
  all_goals first
    | exact frameCells_of_args args hstop hin
    | exact frameCells_of_receiver args hstop hin _

theorem pop_run_push {s : Interpreter} (xs : Array Value) (v : Value)
    (hstack : s.stack = xs.push v) :
    pop.run s =
      if s.floor < s.stack.size then .ok v { s with stack := xs } else .error .stackUnderflow s := by
  rw [pop_run]
  simp [hstack]

theorem take_args (rest args : Array Value) :
    (rest ++ args).extract ((rest ++ args).size - args.size) (rest ++ args).size = args ∧
      (rest ++ args).take ((rest ++ args).size - args.size) = rest := by
  constructor
  · simp [Array.extract_append]
  · simp

theorem call_run_compiled {s s' : Interpreter} {rest args : Array Value}
    {receiver : Option Value} {address : UInt32} {fn : Function} {code : Array Instr}
    {kinds : Array Kind} (hfn : s.program.function? address.toNat = some fn)
    (hbody : fn.body = .compiled code kinds) (hreceiver : receiver.isSome = fn.type.isInstance)
    (hstack : s.stack = rest ++ args ++ receiver.toArray ++ #[.pointer address])
    (h : (call args.size).run s = .ok () s') :
    (enter address.toNat receiver args).run { s with stack := rest } = .ok () s' := by
  unfold call at h
  have hpop := pop_run_push (s := s) (rest ++ args ++ receiver.toArray) (.pointer address)
    (by rw [hstack]; rfl)
  by_cases hfl : s.floor < s.stack.size
  case neg => rw [EStateM.run_bind, hpop, if_neg hfl] at h; cases h
  rw [EStateM.run_bind, hpop, if_pos hfl] at h
  dsimp only at h
  have hfloor : ∀ xs : Array Value, ({ s with stack := xs } : Interpreter).floor = s.floor :=
    fun _ => rfl
  obtain ⟨hargs, hrest⟩ := take_args rest args
  cases receiver with
  | none =>
    have hinst : fn.type.isInstance = false := by simpa using hreceiver.symm
    simp only [EStateM.run_bind, EStateM.run_get, hfn, hinst, Bool.false_eq_true, ↓reduceIte,
      EStateM.run_pure, floor_run, hfloor, Option.toArray_none, Array.append_empty] at h
    by_cases hfl₂ : (rest ++ args).size < s.floor + args.size
    case pos => simp only [hfl₂, ↓reduceIte] at h; cases h
    simpa only [hfl₂, ↓reduceIte, EStateM.run_bind, truncate_run, hbody, hargs, hrest] using h
  | some r =>
    have hinst : fn.type.isInstance = true := by simpa using hreceiver.symm
    simp only [EStateM.run_bind, EStateM.run_get, hfn, hinst, ↓reduceIte, map_run] at h
    have hpop₂ := pop_run_push (s := { s with stack := rest ++ args ++ (some r).toArray })
      (rest ++ args) r (by rw [Array.push_eq_append]; rfl)
    by_cases hfl₂ : s.floor < (rest ++ args ++ (some r).toArray).size
    case neg => rw [hpop₂, if_neg (by rwa [hfloor])] at h; cases h
    rw [hpop₂, if_pos (by rwa [hfloor])] at h
    simp only [floor_run, hfloor] at h
    by_cases hfl₃ : (rest ++ args).size < s.floor + args.size
    case pos => simp only [hfl₃, ↓reduceIte] at h; cases h
    simpa only [hfl₃, ↓reduceIte, EStateM.run_bind, truncate_run, hbody, hargs, hrest] using h

theorem call_enteredWith {s s' : Interpreter} {rest args : Array Value}
    {receiver : Option Value} {address : UInt32} {fn : Function} {code : Array Instr}
    {kinds : Array Kind} (hfn : s.program.function? address.toNat = some fn)
    (hbody : fn.body = .compiled code kinds) (hreceiver : receiver.isSome = fn.type.isInstance)
    (hstack : s.stack = rest ++ args ++ receiver.toArray ++ #[.pointer address])
    (h : (call args.size).run s = .ok () s') :
    ∃ kinds', { s with stack := rest }.EnteredWith s' address.toNat kinds' receiver args :=
  enter_enteredWith (call_run_compiled hfn hbody hreceiver hstack h)

end VmM

/-! ### The compiler's layout of the parameters -/

theorem EmitEnv.localCells_length (env : EmitEnv) {t : CType} (ht : t.isStruct = false) :
    (env.localCells t).length = 1 := by
  have hcells : env.registry.cellKinds t = t.valueKind?.toList := by
    cases t <;> simp_all [CType.isStruct, Registry.cellKinds, Registry.cellKindsWithin]
  unfold EmitEnv.localCells
  rw [hcells]
  cases t.valueKind? <;> simp

theorem EmitEnv.length_paramBindings (env : EmitEnv) (first : Nat) (ps : List Parameter) :
    (env.paramBindings first ps).length = ps.length := by
  induction ps generalizing first with
  | nil => rfl
  | cons p ps ih => simp [EmitEnv.paramBindings, ih]

theorem EmitEnv.paramBindings_getElem? (env : EmitEnv) (first : Nat) (ps : List Parameter)
    {i : Nat} (hi : i < ps.length) :
    (env.paramBindings first ps)[ps.length - 1 - i]? =
      some (ps[i].name, ⟨first + ((ps.take i).flatMap fun p => env.localCells p.type).length,
        ps[i].type⟩) := by
  induction ps generalizing first i with
  | nil => cases hi
  | cons p ps ih =>
    simp only [EmitEnv.paramBindings, List.length_cons] at hi ⊢
    cases i with
    | zero =>
      rw [List.getElem?_append_right (by rw [EmitEnv.length_paramBindings]; omega)]
      simp [EmitEnv.length_paramBindings]
    | succ i =>
      rw [List.getElem?_append_left (by rw [EmitEnv.length_paramBindings]; omega),
        show ps.length + 1 - 1 - (i + 1) = ps.length - 1 - i by omega,
        ih _ (by simpa using hi)]
      simp [Nat.add_assoc]

theorem EmitEnv.paramBindings_getElem?_of_scalar (env : EmitEnv) (first : Nat)
    {ps : List Parameter} (hscalar : ∀ p ∈ ps, p.type.isStruct = false) {i : Nat}
    (hi : i < ps.length) :
    (env.paramBindings first ps)[ps.length - 1 - i]? = some (ps[i].name, ⟨first + i, ps[i].type⟩) := by
  have hcells : ((ps.take i).flatMap fun p => env.localCells p.type).length = i := by
    rw [List.length_flatMap, List.map_congr_left fun p hp =>
      env.localCells_length (hscalar p (List.mem_of_mem_take hp))]
    simp [List.map_const', List.take_replicate]
    omega
  rw [env.paramBindings_getElem? first ps hi, hcells]

/-! ### The convention -/

/-- Every parameter of a function compiled without diagnostics has its argument in the slot the
compiler bound it to when the callee's frame is entered: a direct call pushes the arguments, then
a method's receiver, then the callee, and the call enters a frame whose first cell holds the
receiver, whose parameter slots hold the arguments in order, and whose other cells hold the zero of
the kind the compiled function declares for them. -/
theorem call_entersDeclaredFrame {unit : CompilationUnit} {m : Machine} {config : ReportConfig}
    {x : Executable} (hx : compile unit m config = .ok x) {s s' : Interpreter}
    (hprogram : s.program = x) {address : UInt32} {fn : Function} {code : Array Instr}
    {kinds : Array Kind} (hfn : x.functions[address.toNat]? = some fn)
    (hbody : fn.body = .compiled code kinds) {rest args : Array Value} {receiver : Option Value}
    (hreceiver : receiver.isSome = fn.type.isInstance)
    (hstack : s.stack = rest ++ args ++ receiver.toArray ++ #[.pointer address])
    (hdirect : args.size = fn.type.params.length)
    (hrun : (VmM.execute (.call args.size)).run s = .ok .running s') :
    ∃ frame, s'.frames = s.frames.push frame ∧ frame.function = address.toNat ∧ frame.ip = 0 ∧
      frame.base = s.nextBase ∧ frame.stop = min (s.nextBase + kinds.size) addressLimit ∧
      (∀ r, receiver = some r → frame.base < frame.stop → s'.memory[frame.base]? = some r) ∧
      (∀ i (hi : i < args.size) (b : String × LocalSymbol),
        ((unit.emitEnv m config).paramBindings (if fn.type.isInstance then 1 else 0)
          fn.type.params)[fn.type.params.length - 1 - i]? = some b →
        frame.base + b.2.slot < frame.stop → s'.memory[frame.base + b.2.slot]? = some args[i]) ∧
      (∀ j, (fn.type.isInstance = true → j ≠ 0) →
        (∀ b ∈ (unit.emitEnv m config).paramBindings (if fn.type.isInstance then 1 else 0)
          fn.type.params, b.2.slot ≠ j) →
        frame.base + j < frame.stop → s'.memory[frame.base + j]? = kinds[j]?.map Value.zero) := by
  have hcall : (VmM.call args.size).run s = .ok () s' := by
    have hexec : (VmM.execute (.call args.size)).run s =
        (VmM.call args.size >>= fun _ => pure Status.running).run s := rfl
    rw [hexec, EStateM.run_bind] at hrun
    cases hc : (VmM.call args.size).run s <;> rw [hc] at hrun <;> cases hrun
    rfl
  have hfn' : s.program.function? address.toNat = some fn := by rw [hprogram]; exact hfn
  obtain ⟨kinds', hent⟩ := VmM.call_enteredWith hfn' hbody hreceiver hstack hcall
  have hkinds : kinds' = kinds := by
    have hframe := hent.frame
    simp only [Executable.frame?, hfn', Option.bind_some, hbody] at hframe
    exact (Option.some.inj hframe).symm
  cases hkinds
  obtain ⟨-, hscalar⟩ := compile_compiledFunctions hx hfn hbody
  have hfirst : (if receiver.isSome then 1 else 0) = (if fn.type.isInstance then 1 else 0) := by
    rw [hreceiver]
  have hcells := hent.cells
  refine ⟨_, hent.frames, rfl, rfl, rfl, rfl, hcells.receiverCell, ?_, ?_⟩
  · intro i hi b hb hlt
    rw [(unit.emitEnv m config).paramBindings_getElem?_of_scalar _ hscalar (hdirect ▸ hi)] at hb
    cases hb
    have hcell := hcells.argCells i hi
    rw [hfirst, Nat.add_assoc] at hcell
    exact hcell hlt
  · intro j hreceiverSlot hparamSlot hlt
    have hcell := hcells.zeroCells j
    rw [hfirst] at hcell
    refine hcell (Nat.le_of_not_lt fun hbelow => ?_) hlt
    by_cases hj : j < (if fn.type.isInstance then 1 else 0)
    · cases hinstance : fn.type.isInstance
      · simp [hinstance] at hj
      · simp [hinstance] at hj
        exact hreceiverSlot hinstance hj
    · have hk : j - (if fn.type.isInstance then 1 else 0) < fn.type.params.length := by omega
      have hb := (unit.emitEnv m config).paramBindings_getElem?_of_scalar
        (if fn.type.isInstance then 1 else 0) hscalar hk
      exact hparamSlot _ (List.mem_of_getElem? hb) (by simp only; omega)

/-- `int f(int a) { return a; }`: a function of one parameter. -/
def oneParameter : CompilationUnit :=
  { functions := [
      { name := "f"
        signature := ⟨.int, [⟨"a", .int, none⟩]⟩
        body := some [.node Span.none (.ret (some (.node 0 Span.none (.variable "a"))))] }] }

/-- An interpreter for `x` with nothing running and, on its stack, the argument `7` and then the
address `0`, as a direct call `f(7)` of the function at `0` leaves them. -/
def callOfSeven (x : Executable) : Interpreter :=
  { program := x, config := { maxFrames := 4, stackCells := 4 },
    memory := Array.replicate 5 (.int32 0), stack := #[.int32 7, .pointer 0] }

/-- Calling `f(7)` of that unit: the frame entered holds `7` in the slot of `a`. -/
theorem call_entersDeclaredFrame_oneParameter :
    ∃ x fn code s', compile oneParameter Machine.desktop {} = .ok x ∧ (callOfSeven x).program = x ∧
      x.functions[(0 : UInt32).toNat]? = some fn ∧ fn.body = .compiled code #[.int32] ∧
      (none : Option Value).isSome = fn.type.isInstance ∧
      (callOfSeven x).stack = #[] ++ #[.int32 7] ++ (none : Option Value).toArray ++ #[.pointer 0] ∧
      (#[.int32 7] : Array Value).size = fn.type.params.length ∧
      (VmM.execute (.call (#[.int32 7] : Array Value).size)).run (callOfSeven x) = .ok .running s' ∧
      ∃ frame, s'.frames = (callOfSeven x).frames.push frame ∧ frame.function = (0 : UInt32).toNat ∧
        frame.ip = 0 ∧ frame.base = (callOfSeven x).nextBase ∧
        frame.stop = min ((callOfSeven x).nextBase + (#[.int32] : Array Kind).size) addressLimit ∧
        (∀ r, (none : Option Value) = some r → frame.base < frame.stop →
          s'.memory[frame.base]? = some r) ∧
        (∀ i (hi : i < (#[.int32 7] : Array Value).size) (b : String × LocalSymbol),
          ((oneParameter.emitEnv Machine.desktop {}).paramBindings
            (if fn.type.isInstance then 1 else 0) fn.type.params)[fn.type.params.length - 1 - i]? =
              some b →
          frame.base + b.2.slot < frame.stop →
            s'.memory[frame.base + b.2.slot]? = some (#[.int32 7] : Array Value)[i]) ∧
        (∀ j, (fn.type.isInstance = true → j ≠ 0) →
          (∀ b ∈ (oneParameter.emitEnv Machine.desktop {}).paramBindings
            (if fn.type.isInstance then 1 else 0) fn.type.params, b.2.slot ≠ j) →
          frame.base + j < frame.stop →
            s'.memory[frame.base + j]? = (#[.int32] : Array Kind)[j]?.map Value.zero) := by
  have hcheck : (compile oneParameter Machine.desktop {}).toOption.bind (fun x =>
      (x.frame? 0).bind fun kinds => x.functions[0]?.map fun fn =>
        (kinds, fn.type.isInstance, fn.type.params.length,
          (VmM.execute (.call 1)).run' (callOfSeven x))) =
      some (#[.int32], false, 1, some .running) := by
    decide +kernel
  cases hx : compile oneParameter Machine.desktop {} with
  | error e => simp [hx, Except.toOption] at hcheck
  | ok x =>
    simp only [hx, Except.toOption, Option.bind_some] at hcheck
    obtain ⟨kinds, hframe, hfacts⟩ := Option.bind_eq_some_iff.mp hcheck
    obtain ⟨fn, hfn, hfacts⟩ := Option.map_eq_some_iff.mp hfacts
    simp only [Prod.mk.injEq] at hfacts
    obtain ⟨rfl, hinstance, hparams, hrun⟩ := hfacts
    simp only [Executable.frame?, Executable.function?, hfn, Option.bind_some] at hframe
    cases hbody : fn.body with
    | intrinsic program => simp [hbody] at hframe
    | compiled code kinds' =>
      rw [hbody] at hframe
      cases hframe
      cases hr : (VmM.execute (.call 1)).run (callOfSeven x) with
      | error e s' => simp [EStateM.run', hr] at hrun
      | ok status s' =>
        simp only [EStateM.run', hr, Option.some.injEq] at hrun
        subst hrun
        have hreceiver : (none : Option Value).isSome = fn.type.isInstance := by
          rw [hinstance]; rfl
        have hdirect : (#[.int32 7] : Array Value).size = fn.type.params.length := by
          rw [hparams]; rfl
        have hfn₀ : x.functions[(0 : UInt32).toNat]? = some fn := hfn
        have hstack : (callOfSeven x).stack =
            #[] ++ #[.int32 7] ++ (none : Option Value).toArray ++ #[.pointer 0] := rfl
        exact ⟨x, fn, code, s', rfl, rfl, hfn₀, hbody, hreceiver, hstack, hdirect, hr,
          call_entersDeclaredFrame hx rfl hfn₀ hbody hreceiver hstack hdirect hr⟩

end CStack
