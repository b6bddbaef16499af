import CStack.Source.Stmt

/-!
Declarations and compilation units.

A signature is a return type and named parameters, each with an optional default value; a
struct declares fields and methods; a global has a type and an optional initial value; a
function definition has a signature, an optional body (none for a prototype) and, for a method,
the struct that owns it. A unit lists structs, globals and functions in source order.
-/

namespace CStack

/-- A parameter as declared. -/
structure ParamDecl where
  name : String
  type : TypeName
  default : Option Value := none
  deriving Repr

/-- A function's declared type: return type and parameters. -/
structure Signature where
  ret : TypeName
  params : List ParamDecl
  deriving Repr

/-- The printed form `t p = d` of a parameter, its default by its value text. -/
def ParamDecl.text (p : ParamDecl) : String :=
  p.type.text ++ " " ++ p.name ++
    (match p.default with
     | some v => " = " ++ v.text
     | none => "")

/-- The parenthesised parameter list `(t₁ p₁ = d₁, t₂ p₂)` of a signature. -/
def Signature.paramsText (s : Signature) : String :=
  "(" ++ ", ".intercalate (s.params.map ParamDecl.text) ++ ")"

/-- The printed form `ret (t₁ p₁ = d₁, t₂ p₂)`: the return type, then the parameter list. -/
def Signature.text (s : Signature) : String :=
  s.ret.text ++ " " ++ s.paramsText

/-- A member of a struct declaration. -/
inductive MemberDecl where
  | field (name : String) (type : TypeName)
  | method (name : String) (signature : Signature)
  deriving Repr

/-- A struct declaration. -/
structure StructDecl where
  name : String
  members : List MemberDecl
  span : Span := Span.none

/-- A global variable. -/
structure GlobalDecl where
  name : String
  type : TypeName
  init : Option Expr := none
  span : Span := Span.none

/-- A function or method, defined or only declared. -/
structure FunctionDef where
  name : String
  owner : Option String := none
  signature : Signature
  body : Option (List Stmt) := none
  span : Span := Span.none

/-- The name `Owner::name` of a method, or the plain name of a function. -/
def FunctionDef.qualifiedName (f : FunctionDef) : String :=
  match f.owner with
  | some owner => owner ++ "::" ++ f.name
  | none => f.name

/-- A compilation unit. -/
structure CompilationUnit where
  structs : List StructDecl := []
  globals : List GlobalDecl := []
  functions : List FunctionDef := []

end CStack
