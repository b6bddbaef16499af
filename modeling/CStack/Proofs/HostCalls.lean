import CStack.Proofs.StepCases

/-!
# Calls of intrinsics

An intrinsic is a host program run on the arguments of its call. The host interface promises
what each operation does: reading argument `i` gives the `i`-th argument when there is one and an
`argumentOutOfRange` error otherwise; reading or writing a cell other than the null cell and
inside memory reads or writes it, and any other address gives an `invalidAddress` error and
changes nothing; a push adds to the operand stack. `HostRun` is that promise as a big-step
relation: a program run on the arguments and a memory ends in success having pushed some values,
written some cells, and left some memory. Inside the interpreter a host program runs exactly so:
every run that ends in success is a `HostRun` (`hostRun_of_runHost`), and every `HostRun` is how
the program runs there (`runHost_of_hostRun`).

A call of an intrinsic pops the callee, the receiver of a method and the arguments, runs the
program, and then leaves exactly its result: the last value pushed, or the zero of the return
type's representation when none was, and nothing for a `void` intrinsic. The main statement is
`call_intrinsic_leavesResult`: from any interpreter state where the call finds its arguments above
the current frame's floor, a call of an intrinsic whose program ends in success succeeds, with the
stack below the arguments and the single result on top, and the memory the program left.
-/

namespace CStack

/-- A run of a host program on the arguments of a call, from a memory, ending in success: the
values it pushed in order, the cells it wrote, and the memory it leaves. -/
inductive HostRun (args : Array Value) :
    Array Value → HostProgram Unit → List Value → List Nat → Array Value → Prop
  | done (memory : Array Value) : HostRun args memory (.pure ()) [] [] memory
  | readArg {memory memory' : Array Value} {i : Nat} {next pushed written}
      (hi : i < args.size) :
      HostRun args memory (next (.ok args[i])) pushed written memory' →
      HostRun args memory (.readArg i next) pushed written memory'
  | readArgOutOfRange {memory memory' : Array Value} {i : Nat} {next pushed written}
      (hi : args.size ≤ i) :
      HostRun args memory (next (.error (.argumentOutOfRange i args.size))) pushed written memory' →
      HostRun args memory (.readArg i next) pushed written memory'
  | readMemory {memory memory' : Array Value} {a : UInt32} {next pushed written}
      (hnull : a ≠ 0) (ha : a.toNat < memory.size) :
      HostRun args memory (next (.ok memory[a.toNat])) pushed written memory' →
      HostRun args memory (.readMemory a next) pushed written memory'
  | readMemoryInvalid {memory memory' : Array Value} {a : UInt32} {next pushed written}
      (ha : a = 0 ∨ memory.size ≤ a.toNat) :
      HostRun args memory (next (.error (.invalidAddress a))) pushed written memory' →
      HostRun args memory (.readMemory a next) pushed written memory'
  | writeMemory {memory memory' : Array Value} {a : UInt32} {v : Value} {next pushed written}
      (hnull : a ≠ 0) (ha : a.toNat < memory.size) :
      HostRun args (memory.setIfInBounds a.toNat v) (next (.ok ())) pushed written memory' →
      HostRun args memory (.writeMemory a v next) pushed (a.toNat :: written) memory'
  | writeMemoryInvalid {memory memory' : Array Value} {a : UInt32} {v : Value} {next pushed written}
      (ha : a = 0 ∨ memory.size ≤ a.toNat) :
      HostRun args memory (next (.error (.invalidAddress a))) pushed written memory' →
      HostRun args memory (.writeMemory a v next) pushed written memory'
  | push {memory memory' : Array Value} {v : Value} {next pushed written} :
      HostRun args memory next pushed written memory' →
      HostRun args memory (.push v next) (v :: pushed) written memory'
  | note {memory memory' : Array Value} {n : HostNote} {next pushed written} :
      HostRun args memory next pushed written memory' →
      HostRun args memory (.note n next) pushed written memory'

namespace HostRun

variable {args memory memory' : Array Value} {p : HostProgram Unit} {pushed : List Value}
  {written : List Nat}

theorem writes_within (h : HostRun args memory p pushed written memory') :
    memory'.size = memory.size ∧ (∀ a ∈ written, a ≠ 0 ∧ a < memory.size) ∧
      ∀ a, a ∉ written → memory'[a]? = memory[a]? := by
  induction h with
  | done => exact ⟨rfl, by simp, fun _ _ => rfl⟩
  | readArg _ _ ih | readArgOutOfRange _ _ ih | readMemory _ _ _ ih | readMemoryInvalid _ _ ih
  | writeMemoryInvalid _ _ ih | push _ ih | note _ ih => exact ih
  | @writeMemory memory memory' a v next pushed written hnull ha _ ih =>
    obtain ⟨hsize, hwithin, hkept⟩ := ih
    simp only [Array.size_setIfInBounds] at hsize hwithin
    refine ⟨hsize, ?_, fun b hb => ?_⟩
    · intro b hb
      rcases List.mem_cons.mp hb with rfl | hb
      · exact ⟨fun h0 => hnull (UInt32.toNat_inj.mp (by simpa using h0)), ha⟩
      · exact hwithin b hb
    · rw [List.mem_cons, not_or] at hb
      rw [hkept b hb.2, Array.getElem?_setIfInBounds_ne (Ne.symm hb.1)]

end HostRun

/-- What a call of an intrinsic of type `f` leaves on the stack once its program pushed these
values: nothing when it returns `void`, otherwise the last value pushed, or when none was the zero
of the return type's representation (the default value for a type without one). -/
def FunctionType.intrinsicResult (f : FunctionType) (pushed : List Value) :
    List Value :=
  if f.ret.isVoid then [] else [pushed.getLast?.getD ((f.ret.valueKind?.map Value.zero).getD default)]

namespace VmM

open Interpreter

/-- A host program that ends in success under the host interface's promise runs so inside the
interpreter: the pushed values end up on the stack and the memory is the one the run leaves; only
the notes for the embedder change besides. -/
theorem runHost_of_hostRun {args memory memory' : Array Value} {p : HostProgram Unit}
    {pushed : List Value} {written : List Nat} (h : HostRun args memory p pushed written memory')
    (t : Interpreter) (hmemory : t.memory = memory) :
    ∃ notes, (runHost args p).run t =
      .ok () { t with memory := memory', stack := t.stack ++ pushed.toArray, notes } := by
  induction h generalizing t with
  | done => exact ⟨t.notes, by subst hmemory; simp [runHost]⟩
  | @readArg memory memory' i next pushed written hi _ ih =>
    obtain ⟨notes, hrun⟩ := ih t hmemory
    exact ⟨notes, by simp only [runHost, Array.getElem?_eq_getElem hi]; exact hrun⟩
  | @readArgOutOfRange memory memory' i next pushed written hi _ ih =>
    obtain ⟨notes, hrun⟩ := ih t hmemory
    exact ⟨notes, by simp only [runHost, Array.getElem?_eq_none hi]; exact hrun⟩
  | @readMemory memory memory' a next pushed written hnull ha _ ih =>
    obtain ⟨notes, hrun⟩ := ih t hmemory
    subst hmemory
    refine ⟨notes, ?_⟩
    simp only [runHost, EStateM.run_bind, hostCell_run, hnull, false_or, Nat.not_le.mpr ha,
      if_false]
    simpa [Array.getElem?_eq_getElem ha] using hrun
  | @readMemoryInvalid memory memory' a next pushed written ha _ ih =>
    obtain ⟨notes, hrun⟩ := ih t hmemory
    subst hmemory
    refine ⟨notes, ?_⟩
    have hbad : a = 0 ∨ a.toNat ≥ t.memory.size := ha
    simp only [runHost, EStateM.run_bind, hostCell_run, if_pos hbad]
    exact hrun
  | @writeMemory memory memory' a v next pushed written hnull ha _ ih =>
    subst hmemory
    obtain ⟨notes, hrun⟩ := ih { t with memory := t.memory.setIfInBounds a.toNat v } rfl
    refine ⟨notes, ?_⟩
    simp only [runHost, EStateM.run_bind, hostCell_run, hnull, false_or, Nat.not_le.mpr ha,
      if_false, EStateM.run_modify]
    exact hrun
  | @writeMemoryInvalid memory memory' a v next pushed written ha _ ih =>
    obtain ⟨notes, hrun⟩ := ih t hmemory
    subst hmemory
    refine ⟨notes, ?_⟩
    have hbad : a = 0 ∨ a.toNat ≥ t.memory.size := ha
    simp only [runHost, EStateM.run_bind, hostCell_run, if_pos hbad]
    exact hrun
  | @push memory memory' v next pushed written _ ih =>
    obtain ⟨notes, hrun⟩ := ih { t with stack := t.stack.push v } hmemory
    refine ⟨notes, ?_⟩
    have hstack : t.stack.push v ++ pushed.toArray = t.stack ++ (v :: pushed).toArray := by
      rw [← Array.toList_inj]
      simp
    simp only [runHost, EStateM.run_bind, push_run]
    rw [hrun, hstack]
  | @note memory memory' n next pushed written _ ih =>
    obtain ⟨notes, hrun⟩ := ih { t with notes := t.notes.push n } hmemory
    exact ⟨notes, by simpa [runHost] using hrun⟩

/-- Every run of a host program inside the interpreter that ends in success keeps the host
interface's promise: it is a `HostRun` on the same arguments from the memory it started with. -/
theorem hostRun_of_runHost (args : Array Value) (p : HostProgram Unit) (t t' : Interpreter)
    (h : (runHost args p).run t = .ok () t') :
    ∃ pushed written, HostRun args t.memory p pushed written t'.memory ∧
      t'.stack = t.stack ++ pushed.toArray := by
  induction p generalizing t with
  | pure a =>
    cases h
    exact ⟨[], [], .done _, by simp⟩
  | fail e => cases h
  | readArg i next ih =>
    simp only [runHost] at h
    by_cases hi : i < args.size
    · rw [Array.getElem?_eq_getElem hi] at h
      obtain ⟨pushed, written, hrun, hstack⟩ := ih _ t h
      exact ⟨pushed, written, .readArg hi hrun, hstack⟩
    · rw [Array.getElem?_eq_none (Nat.le_of_not_lt hi)] at h
      obtain ⟨pushed, written, hrun, hstack⟩ := ih _ t h
      exact ⟨pushed, written, .readArgOutOfRange (Nat.le_of_not_lt hi) hrun, hstack⟩
  | readMemory a next ih =>
    simp only [runHost, EStateM.run_bind, hostCell_run] at h
    by_cases ha : a = 0 ∨ a.toNat ≥ t.memory.size
    · rw [if_pos ha] at h
      obtain ⟨pushed, written, hrun, hstack⟩ := ih _ t h
      exact ⟨pushed, written, .readMemoryInvalid ha hrun, hstack⟩
    · rw [if_neg ha] at h
      simp only [not_or, Nat.not_le] at ha
      simp only [EStateM.run_bind, EStateM.run_get, Array.getElem?_eq_getElem ha.2,
        Option.getD_some] at h
      obtain ⟨pushed, written, hrun, hstack⟩ := ih _ t h
      exact ⟨pushed, written, .readMemory ha.1 ha.2 hrun, hstack⟩
  | writeMemory a v next ih =>
    simp only [runHost, EStateM.run_bind, hostCell_run] at h
    by_cases ha : a = 0 ∨ a.toNat ≥ t.memory.size
    · rw [if_pos ha] at h
      obtain ⟨pushed, written, hrun, hstack⟩ := ih _ t h
      exact ⟨pushed, written, .writeMemoryInvalid ha hrun, hstack⟩
    · rw [if_neg ha] at h
      simp only [not_or, Nat.not_le] at ha
      simp only [EStateM.run_bind, EStateM.run_modify] at h
      obtain ⟨pushed, written, hrun, hstack⟩ := ih _ _ h
      exact ⟨pushed, a.toNat :: written, .writeMemory ha.1 ha.2 hrun, hstack⟩
  | push v next ih =>
    simp only [runHost, EStateM.run_bind, push_run] at h
    obtain ⟨pushed, written, hrun, hstack⟩ := ih _ h
    refine ⟨v :: pushed, written, .push hrun, ?_⟩
    rw [hstack, ← Array.toList_inj]
    simp
  | note n next ih =>
    simp only [runHost, EStateM.run_bind, EStateM.run_modify] at h
    obtain ⟨pushed, written, hrun, hstack⟩ := ih _ h
    exact ⟨pushed, written, .note hrun, hstack⟩

theorem callIntrinsic_of_hostRun {f : Function} {program : HostProgram Unit}
    {args memory : Array Value} {pushed : List Value} {written : List Nat} (t : Interpreter)
    (h : HostRun args t.memory program pushed written memory) :
    ∃ notes, (callIntrinsic f program args).run t = .ok ()
      { t with memory, stack := t.stack ++ (f.type.intrinsicResult pushed).toArray, notes } := by
  obtain ⟨notes, hrun⟩ := runHost_of_hostRun h t rfl
  refine ⟨notes, ?_⟩
  unfold callIntrinsic FunctionType.intrinsicResult
  simp only [EStateM.run_bind, EStateM.run_get, hrun]
  by_cases hvoid : f.type.ret.isVoid = true
  · -- a `void` intrinsic leaves nothing: the stack is cut back to its height at the call
    simp [hvoid, truncate_run]
  · simp only [hvoid, Bool.false_eq_true, if_false, EStateM.run_bind, EStateM.run_get]
    rcases pushed with _ | ⟨v, _ | ⟨w, rest⟩⟩
    · -- nothing pushed: the zero of the return type
      simp [push_run]
    · -- one value pushed: it stays
      simp
    · -- several pushed: the last stays, alone
      simp [truncate_run, push_run, List.getLast?_cons]

theorem take_extract_arguments (rest args : Array Value) :
    (rest ++ args).take ((rest ++ args).size - args.size) = rest ∧
      (rest ++ args).extract ((rest ++ args).size - args.size) = args := by
  simp

theorem call_intrinsic_run {s : Interpreter} {rest args : Array Value} {receiver : Option Value}
    {address : UInt32} {f : Function} {program : HostProgram Unit}
    (hstack : s.stack = rest ++ args ++ receiver.toArray ++ #[.pointer address])
    (hfloor : s.floor ≤ rest.size) (hf : s.program.function? address.toNat = some f)
    (hbody : f.body = .intrinsic program) (hreceiver : receiver.isSome = f.type.isInstance) :
    (call args.size).run s = (callIntrinsic f program args).run { s with stack := rest } := by
  unfold call
  simp only [EStateM.run_bind]
  rw [pop_run, if_pos (by rw [hstack]; simp; omega)]
  have hback : s.stack.back? = some (.pointer address) := by rw [hstack]; simp
  have hpop : s.stack.pop = rest ++ args ++ receiver.toArray := by rw [hstack]; simp
  simp only [hback, Option.getD_some, hpop, EStateM.run_bind, EStateM.run_get, hf]
  have hcheck : ¬(rest ++ args).size < s.floor + args.size := by simp; omega
  cases receiver with
  | none =>
    have hinst : f.type.isInstance = false := by simpa using hreceiver.symm
    simp only [hinst, Bool.false_eq_true, if_false, Option.toArray_none, Array.append_empty,
      EStateM.run_bind, EStateM.run_pure, EStateM.run_get, floor_run, floor_stack]
    rw [if_neg hcheck]
    simp only [EStateM.run_bind, truncate_run, hbody, (take_extract_arguments rest args).1,
      (take_extract_arguments rest args).2]
  | some r =>
    have hinst : f.type.isInstance = true := by simpa using hreceiver.symm
    have hpop' : (rest ++ args ++ #[r]).pop = rest ++ args := by simp
    simp only [hinst, if_true, Option.toArray_some, EStateM.run_bind, map_run, pop_run,
      floor_stack]
    have hlt : s.floor < (rest ++ args ++ #[r]).size := by simp; omega
    simp only [hlt, if_true, hpop', EStateM.run_get, floor_run, floor_stack]
    rw [if_neg hcheck]
    simp only [EStateM.run_bind, truncate_run, hbody, (take_extract_arguments rest args).1,
      (take_extract_arguments rest args).2]

/-- A call of an intrinsic leaves exactly its result. Take any interpreter state whose stack holds,
above the current frame's floor, the arguments, then the receiver when the intrinsic is a method,
then the intrinsic's address. A call with that many arguments runs the intrinsic's program on the
arguments in the order they were pushed. When the program ends in success, the call succeeds. The
stack is then what lay below the arguments, with the intrinsic's result alone on top
(`FunctionType.intrinsicResult`). Memory is what the program left: it changed only at cells the
program wrote, none of them the null cell or outside memory. The frames are unchanged. -/
theorem call_intrinsic_leavesResult {s : Interpreter} {rest args : Array Value}
    {receiver : Option Value} {address : UInt32} {f : Function} {program : HostProgram Unit}
    {pushed : List Value} {written : List Nat} {memory : Array Value}
    (hstack : s.stack = rest ++ args ++ receiver.toArray ++ #[.pointer address])
    (hfloor : s.floor ≤ rest.size) (hf : s.program.function? address.toNat = some f)
    (hbody : f.body = .intrinsic program) (hreceiver : receiver.isSome = f.type.isInstance)
    (hrun : HostRun args s.memory program pushed written memory) :
    ∃ s', (call args.size).run s = .ok () s' ∧
      s'.stack = rest ++ (f.type.intrinsicResult pushed).toArray ∧ s'.memory = memory ∧
      (∀ a ∈ written, a ≠ 0 ∧ a < s.memory.size) ∧
      (∀ a, a ∉ written → s'.memory[a]? = s.memory[a]?) ∧ s'.frames = s.frames := by
  obtain ⟨-, hwithin, hkept⟩ := hrun.writes_within
  obtain ⟨notes, hcall⟩ := callIntrinsic_of_hostRun (f := f) { s with stack := rest } hrun
  exact ⟨_, (call_intrinsic_run hstack hfloor hf hbody hreceiver).trans hcall, rfl, rfl, hwithin,
    hkept, rfl⟩

/-- The program of an intrinsic that stores its argument in cell `1` and returns it. -/
def echoProgram : HostProgram Unit := do
  let v ← HostProgram.arg 0
  HostProgram.store 1 v
  HostProgram.emit v

/-- The intrinsic `int echo (int x)` running `echoProgram`. -/
def echoFunction : Function where
  name := "echo"
  type := .mk (.basic (.make .int .signed {})) [.mk "x" (.basic (.make .int .signed {})) none] false
  body := .intrinsic echoProgram

/-- A program of the one function `echo`, with one global cell besides the null cell. -/
def echoExecutable : Executable where
  functions := #[echoFunction]
  globals := #[.pointer, .int32]
  init := 0
  intKind := .int32
  pointerSize := 4

/-- A call `echo (7)` about to be made, outside any frame. -/
def echoCall : Interpreter where
  program := echoExecutable
  config := {}
  memory := #[.pointer 0, .int32 0]
  stack := #[.int32 7, .pointer 0]

/-- `echo (7)` reads `7`, writes it to cell `1` and leaves it as its result. -/
theorem call_intrinsic_leavesResult_echo :
    HostRun #[.int32 7] echoCall.memory echoProgram [.int32 7] [1] #[.pointer 0, .int32 7] ∧
      ∃ s', (call (#[.int32 7] : Array Value).size).run echoCall = .ok () s' ∧
        s'.stack = #[] ++ (echoFunction.type.intrinsicResult [.int32 7]).toArray ∧
        s'.memory = #[.pointer 0, .int32 7] ∧
        (∀ a ∈ [1], a ≠ 0 ∧ a < echoCall.memory.size) ∧
        (∀ a, a ∉ [1] → s'.memory[a]? = echoCall.memory[a]?) ∧ s'.frames = echoCall.frames := by
  have hrun : HostRun #[.int32 7] echoCall.memory echoProgram [.int32 7] [1]
      #[.pointer 0, .int32 7] :=
    .readArg (by decide) (.writeMemory (by decide) (by decide) (.push (.done _)))
  have hstack : echoCall.stack = #[] ++ #[.int32 7] ++ (none : Option Value).toArray ++
      #[.pointer 0] := rfl
  exact ⟨hrun, call_intrinsic_leavesResult hstack (by decide) rfl rfl rfl hrun⟩

end VmM

end CStack
