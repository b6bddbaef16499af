import CStack.Compile.Unit
import CStack.Interpreter.Step

/-!
# Compiling and running a unit

The whole pipeline in one call: compile a unit with the default report configuration, load it
into an interpreter with the default limits, reset it to an entry function and run that function
until it returns. A run that does not end is cut off by a fuel argument counting steps.
-/

namespace CStack

/-- Why a run produced no result. -/
inductive RunError where
  | compile (e : CompileError)
  | vm (e : VmError)

/-- What a run of a unit ends with, and the notes its intrinsics left. -/
structure RunReport where
  /-- What the entry function returned or why there is nothing, `none` when the fuel ran out. -/
  outcome : Option (Except RunError (Option Value))
  notes : Array HostNote

/-- Compiles a unit for a machine and runs an entry function for at most `fuel` steps. -/
def runUnit (unit : CompilationUnit) (m : Machine) (entry : String) (fuel : Nat) : RunReport :=
  match compile unit m {} with
  | .error e => ⟨some (.error (.compile e)), #[]⟩
  | .ok x =>
    let run : VmM (Option (Option Value)) := do
      VmM.reset entry
      VmM.runFor fuel
    match run.run (Interpreter.load x {}) with
    | .ok (some r) s => ⟨some (.ok r), s.notes⟩
    | .ok none s => ⟨none, s.notes⟩
    | .error e s => ⟨some (.error (.vm e)), s.notes⟩

/-- The lines a run printed. -/
def printedLines (notes : Array HostNote) : Array String :=
  notes.filterMap fun n =>
    match n with
    | .printed line => some line
    | .called _ _ => none

/-- The intrinsic calls a run recorded, with their arguments. -/
def recordedCalls (notes : Array HostNote) : Array (String × List Value) :=
  notes.filterMap fun n =>
    match n with
    | .called signature args => some (signature, args)
    | .printed _ => none

end CStack
