import CStack.Value.Display

/-!
Host programs: what an intrinsic function does when the bytecode calls it.

An intrinsic talks to the interpreter through four operations: read one of its arguments, read
a memory cell, write a memory cell, and push a value onto the operand stack. A host program is
a tree of these operations, each followed by what to do with its answer, ending in success or in
a host error; `HostProgram` is a monad, so programs are written with `do`. A program may also
leave a note for whoever embeds the interpreter (a printed line, a record of the call), which the
interpreter keeps in order and never reads.
-/

namespace CStack

/-- Why a host call failed. -/
inductive HostError where
  | argumentOutOfRange (index count : Nat)
  | invalidAddress (address : UInt32)
  | assertionFailed (expected actual : String)
  | custom (message : String)
  deriving DecidableEq, Repr

/-- The text of a host error. -/
def HostError.message : HostError → String
  | .argumentOutOfRange index count =>
    "argument " ++ toString index ++ " out of range (" ++ toString count ++ " arguments)"
  | .invalidAddress a => "invalid memory address 0x" ++ hexDigits 4 a.toNat
  | .assertionFailed expected actual => "assertion failed: expected " ++ expected ++ ", got " ++ actual
  | .custom message => message

/-- Something a host program reports to the embedder. -/
inductive HostNote where
  /-- A line of printed output. -/
  | printed (line : String)
  /-- A call of an intrinsic declared as `signature`, with the arguments it was given. -/
  | called (signature : String) (args : List Value)
  deriving DecidableEq, Repr

/-- A program over the host interface, returning an `α`. -/
inductive HostProgram (α : Type) where
  | pure (a : α)
  | fail (e : HostError)
  | readArg (index : Nat) (next : Except HostError Value → HostProgram α)
  | readMemory (address : UInt32) (next : Except HostError Value → HostProgram α)
  | writeMemory (address : UInt32) (value : Value) (next : Except HostError Unit → HostProgram α)
  | push (value : Value) (next : HostProgram α)
  | note (n : HostNote) (next : HostProgram α)

namespace HostProgram

/-- Runs `p`, then `f` on its result. -/
def bind {α β : Type} : HostProgram α → (α → HostProgram β) → HostProgram β
  | .pure a, f => f a
  | .fail e, _ => .fail e
  | .readArg i k, f => .readArg i (fun r => (k r).bind f)
  | .readMemory a k, f => .readMemory a (fun r => (k r).bind f)
  | .writeMemory a v k, f => .writeMemory a v (fun r => (k r).bind f)
  | .push v k, f => .push v (k.bind f)
  | .note n k, f => .note n (k.bind f)

instance : Monad HostProgram where
  pure := .pure
  bind := bind

/-- Fails unless the result is a success. -/
def ofExcept {α : Type} : Except HostError α → HostProgram α
  | .ok a => .pure a
  | .error e => .fail e

/-- The argument at an index, failing when there is none. -/
def arg (index : Nat) : HostProgram Value := .readArg index ofExcept

/-- The argument at an index, or the error that reading it gives. -/
def tryArg (index : Nat) : HostProgram (Except HostError Value) := .readArg index .pure

/-- The value of a memory cell, failing for a cell that does not exist. -/
def load (address : UInt32) : HostProgram Value := .readMemory address ofExcept

/-- Overwrites a memory cell, failing for a cell that does not exist. -/
def store (address : UInt32) (value : Value) : HostProgram Unit := .writeMemory address value ofExcept

/-- Pushes a value onto the operand stack. -/
def emit (value : Value) : HostProgram Unit := .push value (.pure ())

/-- Leaves a note for the embedder. -/
def tell (n : HostNote) : HostProgram Unit := .note n (.pure ())

/-- The arguments from index `start` on, read until the first that is out of range; at most
`bound` of them. -/
def argsFrom (start : Nat) : (bound : Nat) → HostProgram (List Value)
  | 0 => .pure []
  | bound + 1 => do
    match ← tryArg start with
    | .ok v => return v :: (← argsFrom (start + 1) bound)
    | .error _ => return []

end HostProgram

end CStack
