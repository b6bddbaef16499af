import Mathlib.Tactic.SplitIfs
import CStack.Interpreter.Step

/-!
# What a step can do

The interpreter's state changes in few ways. Most actions are *local*: they leave the frames, the
program, the configuration and the number of memory cells as they are, and keep the operand stack
at or above the current frame's floor (`Interpreter.Local`); what changes is the contents of
memory cells, the stack above the floor, the notes and the step count. The others enter a frame
(`Interpreter.Entered`), leave one (`Interpreter.Returned`), or move the current frame to another
instruction.

This module proves, once for each action of the interpreter, which of these it does, whether it
returns or fails: every instruction that does not transfer control is local (`execute_keeps`), a
call is local or enters a frame after a local change (`call_cases`), a return fails locally or
leaves the current frame (`ret_cases`), a step fetches the instruction its frame is at
(`step_run`), and a reset fails at once or clears the interpreter and enters two frames
(`reset_cases`). Invariants of whole runs are then proved from these cases, without unfolding the
interpreter again.
-/

namespace CStack

namespace Executable

/-- The code of the compiled function at an address. -/
def code? (x : Executable) (address : Nat) : Option (Array Instr) :=
  (x.function? address).bind fun f => match f.body with
    | .compiled code _ => some code
    | .intrinsic _ => none

/-- The frame layout of the compiled function at an address. -/
def frame? (x : Executable) (address : Nat) : Option (Array Kind) :=
  (x.function? address).bind fun f => match f.body with
    | .compiled _ kinds => some kinds
    | .intrinsic _ => none

end Executable

section Take

variable {α : Type} {xs ys : Array α} {n : Nat}

theorem take_append_of_le (h : n ≤ xs.size) : (xs ++ ys).take n = xs.take n := by
  apply Array.ext_getElem?
  intro i
  simp only [Array.take_eq_extract, Array.getElem?_extract, Array.getElem?_append]
  grind

theorem take_take_of_le {m : Nat} (h : n ≤ m) : (xs.take m).take n = xs.take n := by
  simp only [Array.take_eq_extract, Array.extract_extract]
  rw [Nat.zero_add, Nat.zero_add, Nat.min_eq_left h]

theorem take_pop_of_lt (h : n < xs.size) : xs.pop.take n = xs.take n := by
  apply Array.ext_getElem?
  intro i
  simp only [Array.take_eq_extract, Array.getElem?_extract, Array.size_pop, Array.getElem?_pop]
  grind

end Take

namespace Interpreter

/-- The height below which the current frame may not pop. -/
def floor (s : Interpreter) : Nat := (s.frames.back?.map (·.stackBase)).getD 0

/-- The first cell of the next frame: the end of the current one, or the end of the globals. -/
def nextBase (s : Interpreter) : Nat :=
  match s.frames.back? with
  | some caller => caller.stop
  | none => s.program.globals.size

/-- The instruction a frame is at. -/
def instrAt? (s : Interpreter) (f : Frame) : Option Instr :=
  (s.program.code? f.function).bind (·[f.ip]?)

/-- `s` with the current frame continuing at an instruction. -/
def jumpTo (s : Interpreter) (target : Nat) : Interpreter :=
  { s with frames := s.frames.modify (s.frames.size - 1) fun f => { f with ip := target } }

/-- `s` with the current frame moved past the instruction it is at. -/
def advance (s : Interpreter) : Interpreter :=
  { s with frames := s.frames.modify (s.frames.size - 1) fun f => { f with ip := f.ip + 1 } }

/-- `s` cleared for a new run: memory as the program starts, no stacks, no result, no steps. -/
def cleared (s : Interpreter) : Interpreter :=
  { s with memory := freshMemory s.program s.config, stack := #[], frames := #[], result := none,
           steps := 0 }

/-- `s'` is `s` after an action that left the frames, the program, the configuration and the
number of memory cells alone and kept the operand stack at or above the current frame's floor,
with what lies below the floor untouched: only memory cells, the stack above the floor, notes,
the result and the step count changed. -/
structure Local (s s' : Interpreter) : Prop where
  program : s'.program = s.program
  config : s'.config = s.config
  frames : s'.frames = s.frames
  memory : s'.memory.size = s.memory.size
  floor : s.floor ≤ s.stack.size → s'.floor ≤ s'.stack.size
  below : s.floor ≤ s.stack.size → s'.stack.take s.floor = s.stack.take s.floor

variable {s s₁ s₂ : Interpreter}

theorem floor_congr (h : s₁.frames = s.frames) : s₁.floor = s.floor := by
  simp [floor, h]

@[simp] theorem floor_stack (s : Interpreter) (stack : Array Value) :
    ({ s with stack } : Interpreter).floor = s.floor := rfl

theorem Local.refl (s : Interpreter) : s.Local s := ⟨rfl, rfl, rfl, rfl, id, fun _ => rfl⟩

theorem Local.trans (h₁ : s.Local s₁) (h₂ : s₁.Local s₂) : s.Local s₂ where
  program := h₂.program.trans h₁.program
  config := h₂.config.trans h₁.config
  frames := h₂.frames.trans h₁.frames
  memory := h₂.memory.trans h₁.memory
  floor h := h₂.floor (h₁.floor h)
  below h := by
    have hbelow := h₂.below (h₁.floor h)
    rw [floor_congr h₁.frames] at hbelow
    rw [hbelow, h₁.below h]

theorem Local.of_grows (hprogram : s'.program = s.program) (hconfig : s'.config = s.config)
    (hframes : s'.frames = s.frames) (hmemory : s'.memory.size = s.memory.size)
    (hstack : ∃ rest, s'.stack = s.stack ++ rest) : s.Local s' := by
  obtain ⟨rest, hrest⟩ := hstack
  refine ⟨hprogram, hconfig, hframes, hmemory, fun h => ?_, fun h => ?_⟩
  · rw [floor_congr hframes, hrest, Array.size_append]
    omega
  · rw [hrest, take_append_of_le h]

theorem Local.truncate {height : Nat} (h : s.floor ≤ height) :
    s.Local { s with stack := s.stack.take height } :=
  ⟨rfl, rfl, rfl, rfl, fun hs => by simp only [floor_stack, Array.take_eq_extract, Array.size_extract]; omega,
    fun _ => take_take_of_le h⟩

/-- `s'` is `s` with a frame entered for the compiled function at `address`, whose layout is
`kinds`: the frame starts where the current one ends and takes a cell per kind, up to the last
address, within memory; only the frames and the contents of memory cells changed. -/
structure Entered (s s' : Interpreter) (address : Nat) (kinds : Array Kind) : Prop where
  frame : s.program.frame? address = some kinds
  depth : s.frames.size < s.config.maxFrames
  base : s.nextBase ≤ addressLimit
  inMemory : min (s.nextBase + kinds.size) addressLimit ≤ s.memory.size
  frames : s'.frames =
    s.frames.push ⟨address, 0, s.nextBase, min (s.nextBase + kinds.size) addressLimit, s.stack.size⟩
  program : s'.program = s.program
  config : s'.config = s.config
  stack : s'.stack = s.stack
  memory : s'.memory.size = s.memory.size

/-- `s'` is `s` with its current frame `f` returned from: the frame is gone and the operand
stack keeps what lay below the frame's stack base, with perhaps a result on it. -/
structure Returned (s s' : Interpreter) (f : Frame) : Prop where
  current : s.frames.back? = some f
  frames : s'.frames = s.frames.pop
  program : s'.program = s.program
  config : s'.config = s.config
  memory : s'.memory.size = s.memory.size
  stack : f.stackBase ≤ s'.stack.size
  below : s'.stack.take f.stackBase = s.stack.take f.stackBase

/-- The ways one instruction can leave the interpreter: after a local change it stops there,
continues elsewhere in the same frame, enters a frame or leaves the current one. -/
inductive Moves (s : Interpreter) : Interpreter → Prop
  | stay {s₁ : Interpreter} : s.Local s₁ → Moves s s₁
  | jump {s₁ : Interpreter} (target : Nat) : s.Local s₁ → Moves s (s₁.jumpTo target)
  | enter {s₁ s' : Interpreter} (address : Nat) (kinds : Array Kind) :
      s.Local s₁ → s₁.Entered s' address kinds → Moves s s'
  | leave {s₁ s' : Interpreter} (f : Frame) : s.Local s₁ → s₁.Returned s' f → Moves s s'

end Interpreter

theorem Array.size_foldl_of_size {α β : Type} (l : List β) (f : Array α → β → Array α)
    (hf : ∀ m b, (f m b).size = m.size) (m : Array α) : (l.foldl f m).size = m.size := by
  induction l generalizing m with
  | nil => rfl
  | cons b l ih => simp only [List.foldl_cons, ih, hf]

namespace VmM

open Interpreter

/-- The state a run ends in, whether it returned or failed. -/
def final {α : Type} : EStateM.Result VmError Interpreter α → Interpreter
  | .ok _ s => s
  | .error _ s => s

@[simp] theorem final_ok {α : Type} (a : α) (s : Interpreter) : final (.ok a s) = s := rfl

@[simp] theorem final_error {α : Type} (e : VmError) (s : Interpreter) :
    final (.error e s : EStateM.Result VmError Interpreter α) = s := rfl

/-- An action that changes the interpreter only locally (`Interpreter.Local`), whether it returns
or fails. -/
def Keeps {α : Type} (x : VmM α) : Prop := ∀ s : Interpreter, s.Local (final (x.run s))

theorem map_run {α β : Type} (f : α → β) (x : VmM α) (s : Interpreter) :
    (f <$> x).run s = match x.run s with
      | .ok a s' => .ok (f a) s'
      | .error e s' => .error e s' := by
  simp only [Functor.map, EStateM.map, EStateM.run]
  cases x s <;> rfl

namespace Keeps

variable {α β : Type} {x : VmM α}

theorem bind {f : α → VmM β} (hx : x.Keeps) (hf : ∀ a, (f a).Keeps) : (x >>= f).Keeps := by
  intro s
  rw [EStateM.run_bind]
  have h := hx s
  cases hr : x.run s with
  | ok a s₁ =>
    rw [hr] at h
    exact h.trans (hf a s₁)
  | error e s₁ =>
    rw [hr] at h
    exact h

theorem map (f : α → β) (hx : x.Keeps) : (f <$> x).Keeps := by
  intro s
  rw [map_run]
  have h := hx s
  cases hr : x.run s <;> rw [hr] at h <;> exact h

theorem of_final (h : ∀ s, final (x.run s) = s) : x.Keeps := by
  intro s
  rw [h s]
  exact Local.refl s

theorem pure (a : α) : (Pure.pure a : VmM α).Keeps := of_final fun _ => rfl

theorem throw (e : VmError) : (MonadExcept.throw e : VmM α).Keeps := of_final fun _ => rfl

theorem get {f : Interpreter → VmM α} (hf : ∀ s, (f s).Keeps) : (MonadState.get >>= f).Keeps :=
  fun s => hf s s

end Keeps

variable (s : Interpreter)

@[simp] theorem floor_run : floor.run s = .ok s.floor s := rfl

@[simp] theorem push_run (v : Value) : (push v).run s = .ok () { s with stack := s.stack.push v } :=
  rfl

@[simp] theorem truncate_run (height : Nat) :
    (truncate height).run s = .ok () { s with stack := s.stack.take height } := rfl

@[simp] theorem jump_run (target : Nat) : (jump target).run s = .ok () (s.jumpTo target) := rfl

theorem pop_run : pop.run s =
    if s.floor < s.stack.size then .ok (s.stack.back?.getD default) { s with stack := s.stack.pop }
    else .error .stackUnderflow s := by
  unfold pop
  simp only [EStateM.run_bind, EStateM.run_get]
  cases h : s.stack.back? with
  | none =>
    have hempty : s.stack.size = 0 := by simpa using h
    rw [if_neg (by omega)]
    rfl
  | some v =>
    dsimp only
    rw [EStateM.run_bind, floor_run]
    dsimp only
    by_cases hlt : s.floor < s.stack.size
    · rw [if_pos hlt, if_neg (Nat.not_le.mpr hlt)]
      rfl
    · rw [if_neg hlt, if_pos (Nat.le_of_not_lt hlt)]
      rfl

theorem store_run (address : Nat) (v : Value) : (store address v).run s =
    if address = 0 ∨ address ≥ s.memory.size then .error (.invalidAddress address) s
    else .ok () { s with memory := s.memory.setIfInBounds address v } := by
  unfold store
  simp only [EStateM.run_bind, EStateM.run_get]
  split <;> rfl

/-! ### Actions that change the interpreter only locally -/

theorem push_keeps (v : Value) : (push v).Keeps := fun _ =>
  Local.of_grows rfl rfl rfl rfl ⟨#[v], Array.push_eq_append⟩

theorem pop_keeps : pop.Keeps := by
  intro s
  rw [pop_run]
  split
  · rename_i hlt
    have hfloor : ({ s with stack := s.stack.pop } : Interpreter).floor = s.floor := floor_congr rfl
    exact ⟨rfl, rfl, rfl, rfl, fun _ => by simp only [final_ok, hfloor, Array.size_pop]; omega,
      fun _ => take_pop_of_lt hlt⟩
  · exact Local.refl s

theorem store_keeps (address : Nat) (v : Value) : (store address v).Keeps := by
  intro s
  rw [store_run]
  split
  · exact Local.refl s
  · exact Local.of_grows rfl rfl rfl (by simp) ⟨#[], Array.append_empty.symm⟩

theorem load_keeps (address : Nat) : (load address).Keeps := by
  refine Keeps.of_final fun s => ?_
  unfold load
  split
  · rfl
  · simp only [EStateM.run_bind, EStateM.run_get]
    split <;> rfl

theorem frame_keeps : frame.Keeps := by
  refine Keeps.of_final fun s => ?_
  unfold frame
  simp only [EStateM.run_bind, EStateM.run_get]
  split <;> rfl

theorem localAddress_run (slot : Nat) : (localAddress slot).run s = match s.frames.back? with
    | none => .error .notRunning s
    | some f =>
      if min (f.base + slot) addressLimit ≥ f.stop then
        .error (.invalidAddress (min (f.base + slot) addressLimit)) s
      else .ok (min (f.base + slot) addressLimit) s := by
  unfold localAddress frame
  simp only [EStateM.run_bind, EStateM.run_get]
  cases s.frames.back? with
  | none => rfl
  | some f =>
    simp only [EStateM.run_pure]
    split <;> rfl

theorem localAddress_keeps (slot : Nat) : (localAddress slot).Keeps := by
  refine Keeps.of_final fun s => ?_
  rw [localAddress_run]
  cases s.frames.back? with
  | none => rfl
  | some f =>
    dsimp only
    split <;> rfl

theorem ofExcept_keeps {α : Type} (r : Except VmError α) : (ofExcept r).Keeps := by
  cases r <;> exact Keeps.of_final fun _ => rfl

theorem popAddress_keeps : popAddress.Keeps := by
  unfold popAddress
  exact pop_keeps.bind fun _ => Keeps.pure _

theorem hostCell_run (address : UInt32) : (hostCell address).run s =
    .ok (if address = 0 ∨ address.toNat ≥ s.memory.size then .error (.invalidAddress address)
      else .ok address.toNat) s := by
  unfold hostCell
  simp only [EStateM.run_bind, EStateM.run_get]
  split <;> simp_all

theorem runHost_grows (args : Array Value) (p : HostProgram Unit) (s : Interpreter) :
    let s' := final ((runHost args p).run s)
    s'.program = s.program ∧ s'.config = s.config ∧ s'.frames = s.frames ∧
      s'.memory.size = s.memory.size ∧ ∃ rest, s'.stack = s.stack ++ rest := by
  induction p generalizing s with
  | pure a => exact ⟨rfl, rfl, rfl, rfl, #[], Array.append_empty.symm⟩
  | fail e => exact ⟨rfl, rfl, rfl, rfl, #[], Array.append_empty.symm⟩
  | readArg index next ih => exact ih _ s
  | readMemory address next ih =>
    simp only [runHost, EStateM.run_bind, hostCell_run]
    split
    · exact ih _ s
    · exact ih _ s
  | writeMemory address v next ih =>
    simp only [runHost, EStateM.run_bind, hostCell_run]
    split
    · rename_i index _
      simp only [EStateM.run_bind, EStateM.run_modify]
      obtain ⟨h₁, h₂, h₃, h₄, h₅⟩ := ih (.ok ()) { s with memory := s.memory.setIfInBounds index v }
      exact ⟨h₁, h₂, h₃, by simpa using h₄, h₅⟩
    · exact ih _ s
  | push v next ih =>
    simp only [runHost, EStateM.run_bind, push_run]
    obtain ⟨h₁, h₂, h₃, h₄, rest, hrest⟩ := ih { s with stack := s.stack.push v }
    exact ⟨h₁, h₂, h₃, h₄, #[v] ++ rest, by rw [hrest, Array.push_eq_append, Array.append_assoc]⟩
  | note n next ih => exact ih { s with notes := s.notes.push n }

theorem callIntrinsic_keeps (f : Function) (program : HostProgram Unit) (args : Array Value) :
    (callIntrinsic f program args).Keeps := by
  intro s
  unfold callIntrinsic
  simp only [EStateM.run_bind, EStateM.run_get]
  obtain ⟨h₁, h₂, h₃, h₄, h₅⟩ := runHost_grows args program s
  have hrun : s.Local (final ((runHost args program).run s)) := Local.of_grows h₁ h₂ h₃ h₄ h₅
  cases hr : (runHost args program).run s with
  | error e s₁ => rw [hr] at hrun; exact hrun
  | ok u s₁ =>
    rw [hr] at h₁ h₂ h₃ h₄ h₅
    simp only [final_ok] at h₁ h₂ h₃ h₄ h₅
    obtain ⟨rest, hrest⟩ := h₅
    dsimp only
    have hcut : s.Local { s₁ with stack := s₁.stack.take s.stack.size } :=
      Local.of_grows h₁ h₂ h₃ h₄ ⟨#[], by
        rw [hrest, take_append_of_le (Nat.le_refl _), Array.append_empty, Array.take_eq_extract,
          Array.extract_size]⟩
    split
    · exact hcut
    · simp only [EStateM.run_bind, EStateM.run_get]
      split
      · exact Local.of_grows h₁ h₂ h₃ (by simpa using h₄)
          ⟨rest ++ #[(f.type.ret.valueKind?.map Value.zero).getD default], by
            simp only [push_run, final_ok, hrest, Array.push_eq_append, Array.append_assoc]⟩
      · split
        · simp only [EStateM.run_bind, truncate_run, push_run, final_ok]
          exact hcut.trans (push_keeps _ _)
        · exact Local.of_grows h₁ h₂ h₃ h₄ ⟨rest, hrest⟩

end VmM

namespace Instr

/-- Whether an instruction may continue anywhere but at the next instruction of its frame. -/
def transfersControl : Instr → Bool
  | .jump _ | .branchIfFalse _ | .call _ | .ret => true
  | _ => false

end Instr

namespace VmM

open Interpreter

theorem enter_cases (address : Nat) (receiver : Option Value) (args : Array Value)
    (s : Interpreter) :
    (∃ e, (enter address receiver args).run s = .error e s) ∨
      ∃ kinds s', (enter address receiver args).run s = .ok () s' ∧ s.Entered s' address kinds := by
  unfold enter
  simp only [EStateM.run_bind, EStateM.run_get]
  cases hf : s.program.function? address with
  | none => exact .inl ⟨_, rfl⟩
  | some f =>
    dsimp only
    cases hbody : f.body with
    | intrinsic program => exact .inl ⟨_, rfl⟩
    | compiled code kinds =>
      dsimp only
      by_cases hdepth : s.frames.size ≥ s.config.maxFrames
      · simp only [hdepth, ↓reduceIte]
        exact .inl ⟨_, rfl⟩
      simp only [hdepth, ↓reduceIte]
      have hsize := fun (l : List (Value × Nat)) (first : Nat) =>
        Array.size_foldl_of_size l (fun m (p : Value × Nat) => m.setIfInBounds (first + p.2) p.1)
          (fun _ _ => Array.size_setIfInBounds)
      cases hback : s.frames.back? <;> dsimp only <;> split <;>
        first
        | exact .inl ⟨_, rfl⟩
        | split
          · exact .inl ⟨_, rfl⟩
          · refine .inr ⟨kinds, _, rfl, by simp [Executable.frame?, hf, hbody], by omega,
              by simp [Interpreter.nextBase, hback]; omega, by simp [Interpreter.nextBase, hback]; omega,
              by simp [Interpreter.nextBase, hback], rfl, rfl, rfl, ?_⟩
            cases receiver <;>
              simp [hsize, Array.size_foldl_of_size _ _ (fun _ _ => Array.size_setIfInBounds)]

/-- What a call does: either it changes the interpreter only locally, or after a local change
(popping the callee, the receiver and the arguments) it enters a frame. -/
def CallResult (s : Interpreter) (r : EStateM.Result VmError Interpreter Unit) : Prop :=
  s.Local (final r) ∨
    ∃ s₁ address kinds s', s.Local s₁ ∧ r = .ok () s' ∧ s₁.Entered s' address kinds

theorem CallResult.of_enter {s t : Interpreter} (h : s.Local t) (address : Nat)
    (receiver : Option Value) (args : Array Value) :
    CallResult s ((enter address receiver args).run t) := by
  rcases enter_cases address receiver args t with ⟨e, he⟩ | ⟨kinds, t', he, hent⟩
  · exact .inl (by rw [he]; exact h)
  · exact .inr ⟨t, address, kinds, t', h, he, hent⟩

theorem truncate_args {t : Interpreter} {argc : Nat} (h : ¬t.stack.size < t.floor + argc) :
    t.Local { t with stack := t.stack.take (t.stack.size - argc) } :=
  Local.truncate (by omega)

theorem call_cases (argc : Nat) (s : Interpreter) : CallResult s ((call argc).run s) := by
  unfold call
  simp only [EStateM.run_bind]
  have hpop := pop_keeps s
  cases h₁ : pop.run s with
  | error e s₁ => rw [h₁] at hpop; exact .inl hpop
  | ok callee s₁ =>
    rw [h₁] at hpop
    simp only [final_ok] at hpop
    dsimp only
    match callee, hpop with
    | .pointer address, hpop =>
      simp only [EStateM.run_bind, EStateM.run_get]
      cases hf : s₁.program.function? address.toNat with
      | none => exact .inl hpop
      | some f =>
        dsimp only
        split
        · simp only [EStateM.run_bind, map_run]
          have hrecv := pop_keeps s₁
          cases h₂ : pop.run s₁ with
          | error e s₂ => rw [h₂] at hrecv; exact .inl (hpop.trans hrecv)
          | ok r s₂ =>
            rw [h₂] at hrecv
            have hloc := hpop.trans hrecv
            simp only [final_ok, EStateM.run_get, floor_run] at hloc ⊢
            split
            · exact .inl hloc
            · rename_i hcheck
              have htr := hloc.trans (truncate_args hcheck)
              rw [EStateM.run_bind, truncate_run]
              dsimp only
              cases f.body with
              | compiled code kinds => exact CallResult.of_enter htr _ _ _
              | intrinsic program => exact .inl (htr.trans (callIntrinsic_keeps _ _ _ _))
        · simp only [EStateM.run_bind, EStateM.run_pure, EStateM.run_get, floor_run]
          split
          · exact .inl hpop
          · rename_i hcheck
            have htr := hpop.trans (truncate_args hcheck)
            rw [EStateM.run_bind, truncate_run]
            dsimp only
            cases f.body with
            | compiled code kinds => exact CallResult.of_enter htr _ _ _
            | intrinsic program => exact .inl (htr.trans (callIntrinsic_keeps _ _ _ _))
    | .int8 _, hpop | .uint8 _, hpop | .int16 _, hpop | .uint16 _, hpop | .int32 _, hpop
    | .uint32 _, hpop | .int64 _, hpop | .uint64 _, hpop | .float32 _, hpop | .float64 _, hpop =>
      exact .inl hpop

theorem frame_run : frame.run s = match s.frames.back? with
    | some f => .ok f s
    | none => .error .notRunning s := by
  unfold frame
  simp only [EStateM.run_bind, EStateM.run_get]
  cases s.frames.back? <;> rfl

/-- What a return does, run from a state whose stack is above its floor: it fails having changed
the interpreter only locally, or it leaves the current frame after a local change (popping the
result). -/
def ReturnResult (x : VmM Status) : Prop :=
  ∀ t : Interpreter, t.floor ≤ t.stack.size →
    (∃ e t', x.run t = .error e t' ∧ t.Local t') ∨
      ∃ t₁ f st t', t.Local t₁ ∧ x.run t = .ok st t' ∧ t₁.Returned t' f

theorem ReturnResult.bind {α : Type} {x : VmM α} {f : α → VmM Status} (hx : x.Keeps)
    (hf : ∀ a, ReturnResult (f a)) : ReturnResult (x >>= f) := by
  intro t ht
  rw [EStateM.run_bind]
  have hloc := hx t
  cases hr : x.run t with
  | error e t₁ => rw [hr] at hloc; exact .inl ⟨e, t₁, rfl, hloc⟩
  | ok a t₁ =>
    rw [hr] at hloc
    rcases hf a t₁ (hloc.floor ht) with ⟨e, t', he, hloc'⟩ | ⟨t₂, f, st, t', hloc', he, hret⟩
    · exact .inl ⟨e, t', he, hloc.trans hloc'⟩
    · exact .inr ⟨t₂, f, st, t', hloc.trans hloc', he, hret⟩

theorem ReturnResult.get {g : Interpreter → VmM Status} (hg : ∀ s, ReturnResult (g s)) :
    ReturnResult (MonadState.get >>= g) :=
  fun t ht => hg t t ht

theorem ReturnResult.ite {α : Type} {c : Prop} [Decidable c] {x y : VmM α} {k : α → VmM Status}
    (hx : x.Keeps) (hy : y.Keeps) (hk : ∀ a, ReturnResult (k a)) :
    ReturnResult (if c then x >>= k else y >>= k) := by
  split
  · exact ReturnResult.bind hx hk
  · exact ReturnResult.bind hy hk

theorem ret_cases : ReturnResult ret := by
  unfold ret
  refine ReturnResult.get fun s₀ => ReturnResult.ite (Keeps.map some pop_keeps) (Keeps.pure none)
    fun result => ?_
  intro t ht
  simp only [EStateM.run_bind, frame_run]
  cases hb : t.frames.back? with
  | none => exact .inl ⟨_, _, rfl, Local.refl t⟩
  | some f =>
    simp only [EStateM.run_modify, truncate_run, EStateM.run_get]
    have hstack : f.stackBase ≤ t.stack.size := by simpa [Interpreter.floor, hb] using ht
    have hreturned : ∀ (extra : List Value) (r : Option Value), t.Returned
        { t with frames := t.frames.pop, stack := t.stack.take f.stackBase ++ extra.toArray,
                 result := r } f :=
      fun extra _ => ⟨hb, rfl, rfl, rfl, rfl, by simp; omega, by
        rw [take_append_of_le (by simp; omega), take_take_of_le (Nat.le_refl _)]⟩
    split
    · exact .inr ⟨t, f, _, _, Local.refl t, rfl, by simpa using hreturned [] result⟩
    · cases result with
      | some v => exact .inr ⟨t, f, _, _, Local.refl t, rfl, by simpa using hreturned [v] t.result⟩
      | none => exact .inr ⟨t, f, _, _, Local.refl t, rfl, by simpa using hreturned [] t.result⟩

theorem step_run : step.run s = match s.frames.back? with
    | none => .error .notRunning s
    | some f => match s.instrAt? f with
      | none => .error (.missingReturn (((s.program.function? f.function).map Function.name).getD ""))
          s.advance
      | some i => (execute i).run { s.advance with steps := s.steps + 1 } := by
  unfold step
  simp only [EStateM.run_bind, EStateM.run_get]
  cases hb : s.frames.back? with
  | none => rfl
  | some f =>
    simp only [Interpreter.instrAt?, Executable.code?]
    cases hf : s.program.function? f.function with
    | none => rfl
    | some fn =>
      cases hbody : fn.body with
      | intrinsic program => simp [hbody]; rfl
      | compiled code kinds =>
        simp only [Option.bind_some, hbody]
        cases code[f.ip]? with
        | none => rfl
        | some i => simp only [EStateM.run_bind, EStateM.run_modify]; rfl

theorem execute_jump (target : Nat) :
    (execute (.jump target)).run s = .ok .running (s.jumpTo target) := rfl

theorem execute_branchIfFalse (target : Nat) : (execute (.branchIfFalse target)).run s =
    if s.floor < s.stack.size then
      if (s.stack.back?.getD default).truthy then .ok .running { s with stack := s.stack.pop }
      else .ok .running ({ s with stack := s.stack.pop }.jumpTo target)
    else .error .stackUnderflow s := by
  unfold execute
  simp only [EStateM.run_bind, EStateM.run_get, pop_run]
  by_cases hfloor : s.floor < s.stack.size
  · by_cases htruthy : (s.stack.back?.getD default).truthy = true
    · simp [hfloor, htruthy]
    · simp [hfloor, htruthy, map_run]
  · simp only [hfloor, ↓reduceIte]

/-- A reset fails at once, or clears the interpreter and enters the entry function and then the
initialiser above it. -/
theorem reset_cases (entry : String) :
    (∃ e, (reset entry).run s = .error e s) ∨
      ∃ address, s.program.findFunction entry = some address ∧ (reset entry).run s =
        (enter address none #[] >>= fun _ => enter s.program.init none #[]).run s.cleared := by
  unfold reset
  simp only [EStateM.run_bind, EStateM.run_get]
  cases hfind : s.program.findFunction entry with
  | none => exact .inl ⟨_, rfl⟩
  | some address =>
    dsimp only
    split_ifs
    · exact .inl ⟨_, rfl⟩
    · exact .inr ⟨address, rfl, rfl⟩

/-- An instruction that does not transfer control changes the interpreter only locally. -/
theorem execute_keeps {i : Instr} (h : i.transfersControl = false) : (execute i).Keeps := by
  unfold execute
  refine Keeps.get fun s₀ => ?_
  cases i with
  | loadConstant v => exact (push_keeps v).bind fun _ => .pure _
  | loadLocal slot =>
    exact (localAddress_keeps slot).bind fun a => (load_keeps a).bind fun v =>
      (push_keeps v).bind fun _ => .pure _
  | storeLocal slot =>
    exact (localAddress_keeps slot).bind fun a => pop_keeps.bind fun v =>
      (store_keeps a v).bind fun _ => .pure _
  | loadLocalAddress slot =>
    exact (localAddress_keeps slot).bind fun a => (push_keeps _).bind fun _ => .pure _
  | loadGlobal address =>
    exact (load_keeps address).bind fun v => (push_keeps v).bind fun _ => .pure _
  | storeGlobal address =>
    exact pop_keeps.bind fun v => (store_keeps address v).bind fun _ => .pure _
  | loadGlobalAddress address => exact (push_keeps _).bind fun _ => .pure _
  | loadPointer =>
    exact popAddress_keeps.bind fun a => (load_keeps a).bind fun v =>
      (push_keeps v).bind fun _ => .pure _
  | storePointer =>
    exact popAddress_keeps.bind fun a => pop_keeps.bind fun v =>
      (store_keeps a v).bind fun _ => .pure _
  | offsetPointer cells =>
    exact pop_keeps.bind fun p => (ofExcept_keeps _).bind fun v =>
      (push_keeps v).bind fun _ => .pure _
  | addPointer stride | subPointer stride =>
    exact pop_keeps.bind fun o => pop_keeps.bind fun p => (ofExcept_keeps _).bind fun v =>
      (push_keeps v).bind fun _ => .pure _
  | dup =>
    refine Keeps.get fun s₁ => ?_
    cases s₁.stack.back? with
    | some v => exact (push_keeps v).bind fun _ => .pure _
    | none => exact (Keeps.throw _).bind fun _ => .pure _
  | pop => exact pop_keeps.bind fun _ => .pure _
  | convert k => exact pop_keeps.bind fun v => (push_keeps _).bind fun _ => .pure _
  | binary op =>
    exact pop_keeps.bind fun r => pop_keeps.bind fun l => (ofExcept_keeps _).bind fun v =>
      (push_keeps v).bind fun _ => .pure _
  | unary op =>
    cases op with
    | neg | bitNot =>
      exact pop_keeps.bind fun v => (ofExcept_keeps _).bind fun w =>
        (push_keeps w).bind fun _ => .pure _
    | not => exact pop_keeps.bind fun v => (push_keeps _).bind fun _ => .pure _
  | jump _ | branchIfFalse _ | call _ | ret => simp [Instr.transfersControl] at h

theorem execute_moves {s : Interpreter} (i : Instr) (h : s.floor ≤ s.stack.size) :
    s.Moves (final ((execute i).run s)) := by
  cases hi : i.transfersControl
  case false => exact .stay (execute_keeps hi s)
  cases i
  case jump target => exact .jump target (Local.refl s)
  case branchIfFalse target =>
    rw [execute_branchIfFalse]
    by_cases hfloor : s.floor < s.stack.size
    · have hpop : s.Local { s with stack := s.stack.pop } := by
        have := pop_keeps s
        rwa [pop_run, if_pos hfloor] at this
      simp only [hfloor, ↓reduceIte]
      split
      · exact .stay hpop
      · exact .jump target hpop
    · simp only [hfloor, ↓reduceIte, final_error]
      exact .stay (Local.refl s)
  case call argc =>
    have hrun : (execute (.call argc)).run s = (call argc >>= fun _ => pure Status.running).run s :=
      rfl
    rw [hrun, EStateM.run_bind]
    rcases call_cases argc s with hloc | ⟨s₁, address, kinds, s', hloc, hok, hent⟩
    · cases hr : (call argc).run s <;> rw [hr] at hloc <;> exact .stay hloc
    · rw [hok]
      exact .enter address kinds hloc hent
  case ret =>
    have hrun : (execute .ret).run s = ret.run s := by
      simp only [execute, EStateM.run_bind, EStateM.run_get]
    rw [hrun]
    rcases ret_cases s h with ⟨e, t', he, hloc⟩ | ⟨t₁, f, st, t', hloc, hok, hret⟩
    · rw [he]
      exact .stay hloc
    · rw [hok]
      exact .leave f hloc hret
  all_goals simp [Instr.transfersControl] at hi

end VmM

end CStack
