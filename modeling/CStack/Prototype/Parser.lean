import CStack.Prototype.Token
import CStack.Source.Declaration

/-!
Reading C function declarations into a name and a `Signature`.

The grammar is `type name ( params )`, where `params` is empty, the single word `void`, or
parameters separated by commas. A type is optional `const`s, a base type, then any run of `*`
(a pointer) and `const` (ignored). A base type is `void`, `bool`, `struct Name`, a bare `Name`
(a struct), or a basic type with an optional `signed`/`unsigned` prefix; `signed` or `unsigned`
alone means `int`, and `float`, `double` and `long double` take no prefix. A parameter is a type,
an optional name (`arg0`, `arg1`, … by position otherwise) and an optional `= default`, where
the default is an integer (read as a 64-bit integer) or a decimal (a binary64 float), with an
optional minus sign.
-/

namespace CStack.Prototype

/-- What is left to read. -/
abbrev Input := List Lexeme

/-- The error for finding the front of `ts` where `expected` should be. -/
def unexpected (expected : String) : Input → Error
  | l :: _ => .unexpected expected l.text l.offset
  | [] => .unexpectedEnd expected

/-- Takes a token off the front if it is there. -/
def eat (t : Token) : Input → Bool × Input
  | l :: rest => if l.token = t then (true, rest) else (false, l :: rest)
  | [] => (false, [])

/-- Requires a token at the front. -/
def expect (t : Token) (expected : String) (ts : Input) : Except Error Input :=
  match eat t ts with
  | (true, rest) => .ok rest
  | (false, _) => .error (unexpected expected ts)

/-- Requires an identifier at the front. -/
def ident (expected : String) : Input → Except Error (String × Input)
  | ⟨.ident name, _, _⟩ :: rest => .ok (name, rest)
  | ts => .error (unexpected expected ts)

/-- Drops leading `const`s. -/
def skipConst : Input → Input
  | ⟨.keyword .const, _, _⟩ :: rest => skipConst rest
  | ts => ts

/-- Applies the `*`s after a base type and drops the `const`s among them. -/
def suffixes (t : TypeName) : Input → TypeName × Input
  | ⟨.keyword .const, _, _⟩ :: rest => suffixes t rest
  | ⟨.star, _, _⟩ :: rest => suffixes (.pointer t) rest
  | ts => (t, ts)

/-- The basic type after `long`: `long long [int]`, `long double` (only without a prefix), or
`long [int]`. -/
def afterLong (explicit : Bool) (ts : Input) : BasicName × Input :=
  match eat (.keyword .long) ts with
  | (true, rest) => (.longLong, (eat (.keyword .int) rest).2)
  | (false, _) =>
    match explicit, eat (.keyword .double) ts with
    | false, (true, rest) => (.longDouble, rest)
    | _, _ => (.long, (eat (.keyword .int) ts).2)

/-- A base type, with its optional signedness prefix. -/
def baseType (ts : Input) : Except Error (TypeName × Input) :=
  let (prefix?, ts) : Option Signedness × Input :=
    match ts with
    | ⟨.keyword .signed, _, _⟩ :: rest => (some .signed, rest)
    | ⟨.keyword .unsigned, _, _⟩ :: rest => (some .unsigned, rest)
    | _ => (none, ts)
  let sign := prefix?.getD .signed
  let basic (name : BasicName) (rest : Input) : Except Error (TypeName × Input) :=
    .ok (.basic name sign, rest)
  match prefix?, ts with
  | none, ⟨.keyword .void, _, _⟩ :: rest => .ok (.void, rest)
  | none, ⟨.keyword .bool, _, _⟩ :: rest => .ok (TypeName.bool, rest)
  | none, ⟨.keyword .struct, _, _⟩ :: rest =>
    (ident "a struct name" rest).map fun (name, rest) => (.struct name, rest)
  | none, ⟨.ident name, _, _⟩ :: rest => .ok (.struct name, rest)
  | _, ⟨.keyword .char, _, _⟩ :: rest => basic .char rest
  | _, ⟨.keyword .short, _, _⟩ :: rest => basic .short (eat (.keyword .int) rest).2
  | _, ⟨.keyword .int, _, _⟩ :: rest => basic .int rest
  | p, ⟨.keyword .long, _, _⟩ :: rest =>
    let (name, rest) := afterLong p.isSome rest
    basic name rest
  | none, ⟨.keyword .float, _, _⟩ :: rest => basic .float rest
  | none, ⟨.keyword .double, _, _⟩ :: rest => basic .double rest
  | some _, rest => basic .int rest
  | none, rest => .error (unexpected "a type" rest)

/-- A type: leading `const`s, a base type, then pointer stars. -/
def type (ts : Input) : Except Error (TypeName × Input) := do
  let (base, rest) ← baseType (skipConst ts)
  return suffixes base rest

/-- A default value: an optional minus, then an integer or a decimal. -/
def defaultValue (ts : Input) : Except Error (Value × Input) :=
  let (negative, ts) := eat .minus ts
  match ts with
  | ⟨.integer v, _, _⟩ :: rest => .ok (.int64 (if negative then -v else v), rest)
  | ⟨.decimal bits, _, _⟩ :: rest =>
    .ok (.float64 (if negative then bits ^^^ 0x8000000000000000 else bits), rest)
  | _ => .error (unexpected "a default value" ts)

/-- A parameter at a position. -/
def param (index : Nat) (ts : Input) : Except Error (ParamDecl × Input) := do
  let (ty, rest) ← type ts
  let (name, rest) ← match rest with
    | ⟨.ident name, _, _⟩ :: more => pure (name, more)
    | _ => pure ("arg" ++ toString index, rest)
  match eat .equals rest with
  | (true, more) =>
    let (v, more) ← defaultValue more
    return ({ name, type := ty, default := some v }, more)
  | (false, _) => return ({ name, type := ty }, rest)

/-- Parameters separated by commas, from position `index` on; at most `bound` of them. -/
def params (index : Nat) (ts : Input) : (bound : Nat) → Except Error (List ParamDecl × Input)
  | 0 => .ok ([], ts)
  | bound + 1 => do
    let (p, rest) ← param index ts
    match eat .comma rest with
    | (true, more) =>
      let (ps, more) ← params (index + 1) more bound
      return (p :: ps, more)
    | (false, _) => return ([p], rest)

/-- The parameter list between the parentheses: empty, `void`, or parameters. -/
def paramList (ts : Input) : Except Error (List ParamDecl × Input) :=
  match ts with
  | ⟨.keyword .void, _, _⟩ :: ⟨.closeParen, t, o⟩ :: rest => .ok ([], ⟨.closeParen, t, o⟩ :: rest)
  | ⟨.closeParen, _, _⟩ :: _ => .ok ([], ts)
  -- anything else starts a parameter, even the end of the text; every parameter read takes at
  -- least one lexeme, so one more than the input's length bounds their number
  | _ => params 0 ts (ts.length + 1)

/-- Reads a whole declaration into its name and signature. -/
def parse (text : String) : Except Error (String × Signature) := do
  let ts ← lex text
  let (ret, ts) ← type ts
  let (name, ts) ← ident "a function name" ts
  let ts ← expect .openParen "'('" ts
  let (ps, ts) ← paramList ts
  let ts ← expect .closeParen "')'" ts
  match ts with
  | [] => return (name, { ret, params := ps })
  | _ => .error (unexpected "end of declaration" ts)

end CStack.Prototype
