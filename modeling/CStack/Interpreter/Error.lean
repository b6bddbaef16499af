import CStack.Host.Program

/-!
# Run-time faults

Why execution stopped before the entry function returned, with the text each fault prints.
-/

namespace CStack

/-- A run-time fault. -/
inductive VmError where
  | stackUnderflow
  | invalidAddress (address : Nat)
  | stackOverflow (depth : Nat)
  | entryNotFound (name : String)
  | notCallable (v : Value)
  | typeMismatch (op : String) (left right : Kind)
  | divisionByZero
  | missingReturn (function : String)
  | host (e : HostError)
  | stepLimit (limit : Nat)
  | notRunning
  deriving Repr

namespace VmError

/-- The text of a fault. -/
def message : VmError → String
  | .stackUnderflow => "operand stack underflow"
  | .invalidAddress a => "invalid memory address 0x" ++ hexDigits 4 a
  | .stackOverflow depth => "call stack overflow at depth " ++ toString depth
  | .entryNotFound name => "entry point '" ++ name ++ "' not found"
  | .notCallable v => "value " ++ v.text ++ " is not callable"
  | .typeMismatch op l r => "operator '" ++ op ++ "' cannot combine " ++ l.name ++ " and " ++ r.name
  | .divisionByZero => "integer division by zero"
  | .missingReturn f => "'" ++ f ++ "' ran past the end of its code"
  | .host e => e.message
  | .stepLimit n => "step limit of " ++ toString n ++ " exceeded"
  | .notRunning => "the interpreter is not running; call reset first"

/-- The name of a host error's kind. -/
def hostName : HostError → String
  | .argumentOutOfRange .. => "ArgumentOutOfRange"
  | .invalidAddress _ => "InvalidAddress"
  | .assertionFailed .. => "AssertionFailed"
  | .custom _ => "Custom"

/-- The name of a fault's kind; a host error is named `Host.` and its own kind. -/
def name : VmError → String
  | .stackUnderflow => "StackUnderflow"
  | .invalidAddress _ => "InvalidAddress"
  | .stackOverflow _ => "StackOverflow"
  | .entryNotFound _ => "EntryNotFound"
  | .notCallable _ => "NotCallable"
  | .typeMismatch .. => "TypeMismatch"
  | .divisionByZero => "DivisionByZero"
  | .missingReturn _ => "MissingReturn"
  | .host e => "Host." ++ hostName e
  | .stepLimit _ => "StepLimit"
  | .notRunning => "NotRunning"

end VmError

end CStack
