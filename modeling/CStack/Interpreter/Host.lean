import CStack.Interpreter.State

/-!
# Host calls

How an intrinsic's host program runs inside the interpreter: it reads the arguments of its call,
reads and writes memory cells other than the null cell, pushes onto the operand stack and
leaves notes. What it did before failing stays done.
-/

namespace CStack

namespace VmM

/-- The cell a host program addresses, or the host error for one it may not touch. -/
def hostCell (address : UInt32) : VmM (Except HostError Nat) := do
  let index := address.toNat
  if address = 0 ∨ index ≥ (← get).memory.size then return .error (.invalidAddress address)
  return .ok index

/-- Runs a host program on the arguments of a call. -/
def runHost (args : Array Value) : HostProgram Unit → VmM Unit
  | .pure () => pure ()
  | .fail e => throw (.host e)
  | .readArg index next =>
    runHost args (next (match args[index]? with
      | some v => .ok v
      | none => .error (.argumentOutOfRange index args.size)))
  | .readMemory address next => do
    match ← hostCell address with
    | .ok index => runHost args (next (.ok ((← get).memory[index]?.getD default)))
    | .error e => runHost args (next (.error e))
  | .writeMemory address v next => do
    match ← hostCell address with
    | .ok index =>
      modify fun s => { s with memory := s.memory.setIfInBounds index v }
      runHost args (next (.ok ()))
    | .error e => runHost args (next (.error e))
  | .push v next => do
    push v
    runHost args next
  | .note n next => do
    modify fun s => { s with notes := s.notes.push n }
    runHost args next

end VmM

end CStack
