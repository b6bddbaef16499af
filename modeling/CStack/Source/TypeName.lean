/-!
Type names as a declaration writes them: `void`, the basic C types with their signedness,
pointers, structs by name and function types. A type name is only text with structure; what it
means on a target (its width, its layout) is decided when it is resolved against a machine and
a struct registry.
-/

namespace CStack

/-- Whether an integer type is signed. -/
inductive Signedness where
  | signed
  | unsigned
  deriving DecidableEq, Repr, Inhabited

/-- The basic C types. -/
inductive BasicName where
  | bool
  | char
  | short
  | int
  | long
  | longLong
  | float
  | double
  | longDouble
  deriving DecidableEq, Repr, Inhabited

namespace BasicName

/-- Every basic type, in order of declaration. -/
def all : List BasicName :=
  [.bool, .char, .short, .int, .long, .longLong, .float, .double, .longDouble]

/-- The C spelling. -/
def text : BasicName → String
  | .bool => "bool"
  | .char => "char"
  | .short => "short"
  | .int => "int"
  | .long => "long"
  | .longLong => "long long"
  | .float => "float"
  | .double => "double"
  | .longDouble => "long double"

/-- Whether the type is one of the three floating-point types. -/
def isFloat : BasicName → Bool
  | .float | .double | .longDouble => true
  | _ => false

end BasicName

/-- A type as written. -/
inductive TypeName where
  | void
  | basic (name : BasicName) (signedness : Signedness)
  | pointer (target : TypeName)
  | struct (name : String)
  | function (ret : TypeName) (params : List TypeName)
  deriving Repr, Inhabited

namespace TypeName

/-- The type `int`, signed. -/
def int : TypeName := .basic .int .signed

/-- The type `bool`, which counts as unsigned. -/
def bool : TypeName := .basic .bool .unsigned

/-- The C spelling: `unsigned` only before an unsigned integer type other than `bool`, a `*`
after the target of a pointer, and `ret (p₁, p₂)` for a function type. -/
def text : TypeName → String
  | .void => "void"
  | .basic name .unsigned => if name = .bool then name.text else "unsigned " ++ name.text
  | .basic name .signed => name.text
  | .pointer t => t.text ++ "*"
  | .struct name => name
  | .function ret params => ret.text ++ " (" ++ ", ".intercalate (params.map text) ++ ")"

end TypeName

end CStack
