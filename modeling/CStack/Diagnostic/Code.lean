/-!
Diagnostic codes. Each code names one kind of compile error, has a number and a one-line
description, and is marked when it comes from resolving a name or a call.
-/

namespace CStack

/-- The kinds of compile error. -/
inductive Code where
  | e0019
  | e0020
  | e0030
  | e0103
  | e0111
  | e0119
  | e0126
  | e0127
  | e0128
  | e0131
  | e0246
  | e1061
  | e1501
  | e1503
  | e2019
  | e2064
  deriving DecidableEq, Repr, Inhabited

namespace Code

/-- Every code, in numeric order. -/
def all : List Code :=
  [.e0019, .e0020, .e0030, .e0103, .e0111, .e0119, .e0126, .e0127, .e0128, .e0131, .e0246,
    .e1061, .e1501, .e1503, .e2019, .e2064]

/-- The number of a code. -/
def number : Code → Nat
  | .e0019 => 19
  | .e0020 => 20
  | .e0030 => 30
  | .e0103 => 103
  | .e0111 => 111
  | .e0119 => 119
  | .e0126 => 126
  | .e0127 => 127
  | .e0128 => 128
  | .e0131 => 131
  | .e0246 => 246
  | .e1061 => 1061
  | .e1501 => 1501
  | .e1503 => 1503
  | .e2019 => 2019
  | .e2064 => 2064

/-- The code with a number, if there is one. -/
def ofNumber? (n : Nat) : Option Code := all.find? (fun c => c.number == n)

/-- The printed name: `E` and the number in four digits. -/
def text (c : Code) : String :=
  let s := toString c.number
  "E" ++ String.ofList (List.replicate (4 - s.length) '0') ++ s

/-- Reads a code back from its printed name. -/
def ofText? (s : String) : Option Code := all.find? (fun c => c.text == s)

/-- What the code is about, in a few words. -/
def description : Code → String
  | .e0019 => "operator cannot be applied to operands"
  | .e0020 => "struct value used as a scalar"
  | .e0030 => "invalid conversion"
  | .e0103 => "unresolved symbol"
  | .e0111 => "duplicate definition"
  | .e0119 => "invalid receiver"
  | .e0126 => "missing return value"
  | .e0127 => "value returned from void function"
  | .e0128 => "duplicate local variable"
  | .e0131 => "assignment target is not an lvalue"
  | .e0246 => "unknown type"
  | .e1061 => "unknown member"
  | .e1501 => "arity mismatch"
  | .e1503 => "no matching overload"
  | .e2019 => "declared but never defined"
  | .e2064 => "call target is not a function"

/-- Whether the code reports a failure to resolve a name or a call. -/
def isCallResolution : Code → Bool
  | .e0103 | .e0119 | .e1061 | .e1501 | .e1503 | .e2064 => true
  | _ => false

theorem ofNumber_number (c : Code) : ofNumber? c.number = some c := by
  cases c <;> rfl

end Code

end CStack
