import CStack.Host.Program

/-!
Scripted intrinsics: small fixed behaviours an embedder can attach to a declaration without
writing a host program, each of which first records the call (the declaration's text and every
argument) as a note.
-/

namespace CStack

/-- A fixed intrinsic behaviour. -/
inductive Script where
  /-- Does nothing. -/
  | nothing
  /-- Pushes every argument, in order. -/
  | echo
  /-- Pushes the argument at an index. -/
  | arg (index : Nat)
  /-- Pushes the cell the first argument points to. -/
  | load
  /-- Writes the second argument to the cell the first points to. -/
  | store
  /-- Fails with a message. -/
  | fail (message : String)
  /-- Pushes a fixed value. -/
  | const (v : Value)
  deriving Repr

namespace Script

open HostProgram

/-- More arguments than any call passes. -/
def argumentBound : Nat := 4294967296

/-- The host program of a script attached to a declaration: record the call, then act. -/
def program (declaration : String) (s : Script) : HostProgram Unit := do
  let args ← argsFrom 0 argumentBound
  tell (.called declaration args)
  match s with
  | .nothing => return ()
  | .echo => args.forM emit
  | .arg index => emit (← HostProgram.arg index)
  | .load => emit (← HostProgram.load (← HostProgram.arg 0).toAddress)
  | .store => HostProgram.store (← HostProgram.arg 0).toAddress (← HostProgram.arg 1)
  | .fail message => HostProgram.fail (.custom message)
  | .const v => emit v

end Script

end CStack
