import CStack.Interpreter.Operators
import CStack.Bytecode.Executable

/-!
# Interpreter state

Memory is one array of cells: the globals first, then the cells that call frames take, one
frame after another. A frame records the function it runs, the index of its next instruction,
the cells it owns and the height of the operand stack when it was entered, below which it may
not pop. Addresses are 32-bit; address `0` is the null cell and is never read or written.

The interpreter runs in `VmM`, a state monad whose failures keep the state reached when the
fault happened, so that what a failed run leaves behind can be inspected.
-/

namespace CStack

/-- Limits of an interpreter. -/
structure InterpreterConfig where
  maxFrames : Nat := 256
  stackCells : Nat := 16384
  deriving DecidableEq, Repr

/-- Whether the entry function is still running after a step. -/
inductive Status where
  | running
  | finished
  deriving DecidableEq, Repr

/-- An active call. -/
structure Frame where
  function : Nat
  ip : Nat
  /-- The first cell of the frame. -/
  base : Nat
  /-- One past the last cell of the frame. -/
  stop : Nat
  /-- The operand stack height when the frame was entered. -/
  stackBase : Nat

/-- A loaded program and everything it has done so far. -/
structure Interpreter where
  program : Executable
  config : InterpreterConfig
  memory : Array Value
  stack : Array Value := #[]
  frames : Array Frame := #[]
  /-- What the entry function returned, once it has. -/
  result : Option Value := none
  steps : Nat := 0
  /-- The notes host programs left, in order; they outlive resets. -/
  notes : Array HostNote := #[]

/-- The interpreter monad. -/
abbrev VmM := EStateM VmError Interpreter

/-- The largest address. -/
def addressLimit : Nat := 4294967295

namespace Interpreter

/-- Memory as a program starts: its globals zeroed, then the frame cells. -/
def freshMemory (x : Executable) (c : InterpreterConfig) : Array Value :=
  x.globals.map Value.zero ++ Array.replicate c.stackCells default

/-- An interpreter for a program, not yet running. -/
def load (x : Executable) (c : InterpreterConfig) : Interpreter :=
  { program := x, config := c, memory := freshMemory x c }

/-- The global cells, the null cell first. -/
def globalCells (s : Interpreter) : Array Value := s.memory.extract 0 s.program.globals.size

end Interpreter

namespace VmM

/-- Fails unless the result is a success. -/
def ofExcept {α : Type} : Except VmError α → VmM α
  | .ok a => pure a
  | .error e => throw e

/-- The height below which the current frame may not pop. -/
def floor : VmM Nat := return ((← get).frames.back?.map (·.stackBase)).getD 0

/-- Pushes onto the operand stack. -/
def push (v : Value) : VmM Unit := modify fun s => { s with stack := s.stack.push v }

/-- Pops the operand stack, not below the current frame's floor. -/
def pop : VmM Value := do
  let s ← get
  let some v := s.stack.back? | throw .stackUnderflow
  if s.stack.size ≤ (← floor) then throw .stackUnderflow
  set { s with stack := s.stack.pop }
  return v

/-- Pops an address. -/
def popAddress : VmM Nat := return (← pop).toAddress.toNat

/-- Cuts the operand stack down to a height. -/
def truncate (height : Nat) : VmM Unit := modify fun s => { s with stack := s.stack.take height }

/-- The current frame. -/
def frame : VmM Frame := do
  let some f := (← get).frames.back? | throw .notRunning
  return f

/-- The address of a slot of the current frame, which must lie inside it. -/
def localAddress (slot : Nat) : VmM Nat := do
  let f ← frame
  let address := min (f.base + slot) addressLimit
  if address ≥ f.stop then throw (.invalidAddress address)
  return address

/-- Reads a memory cell. -/
def load (address : Nat) : VmM Value := do
  if address = 0 then throw (.invalidAddress address)
  let some v := (← get).memory[address]? | throw (.invalidAddress address)
  return v

/-- Writes a memory cell. -/
def store (address : Nat) (v : Value) : VmM Unit := do
  let s ← get
  if address = 0 ∨ address ≥ s.memory.size then throw (.invalidAddress address)
  set { s with memory := s.memory.setIfInBounds address v }

/-- Continues the current frame at an instruction. -/
def jump (target : Nat) : VmM Unit :=
  modify fun s => { s with frames := s.frames.modify (s.frames.size - 1) fun f => { f with ip := target } }

end VmM

end CStack
