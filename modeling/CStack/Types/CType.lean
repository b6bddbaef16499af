import CStack.Target.Machine

/-!
Types as the compiler sees them, after resolution against a machine and a struct registry.

A basic type knows its width on the target; `bool` is always unsigned and the floating-point
types always signed. Two basic types are the same type when they agree in kind (bool, integer
or float), signedness and width, whatever they are called: on a target where `int` and `long`
are both four bytes wide they are one type, printed by the name it was written with. Function
types carry their parameters' names and defaults and whether they are methods taking a
receiver; structs are referred to by their registry entry.
-/

namespace CStack

/-- The three kinds of basic type. -/
inductive BasicKind where
  | bool
  | integer
  | float
  deriving DecidableEq, Repr

/-- A basic type on a target. -/
structure BasicType where
  name : BasicName
  signedness : Signedness
  size : Nat
  deriving DecidableEq, Repr

namespace BasicType

/-- The basic type of a name on a machine; `bool` is made unsigned and floats signed. -/
def make (name : BasicName) (signedness : Signedness) (m : Machine) : BasicType :=
  let signedness :=
    if name = .bool then .unsigned else if name.isFloat then .signed else signedness
  ⟨name, signedness, m.sizeOf name⟩

/-- Whether the type is `bool`, an integer or a float. -/
def kind (b : BasicType) : BasicKind :=
  if b.name = .bool then .bool else if b.name.isFloat then .float else .integer

/-- Whether the type is signed. -/
def isSigned (b : BasicType) : Bool := b.signedness = .signed

/-- The machine representation: a float kind or an integer kind of the type's width, and
`Int64` for a width that has none. -/
def valueKind (b : BasicType) : Kind :=
  let k := match b.kind with
    | .float => Kind.float? b.size
    | _ => Kind.integer? b.size b.isSigned
  k.getD .int64

/-- The same integer type with another signedness; `bool` and floats are unchanged. -/
def withSignedness (b : BasicType) (s : Signedness) : BasicType :=
  if b.kind = .integer then { b with signedness := s } else b

/-- Type identity: kind, signedness and width agree. -/
def same (a b : BasicType) : Bool :=
  a.kind == b.kind && a.signedness == b.signedness && a.size == b.size

/-- The C spelling, `unsigned` only before unsigned integer types. -/
def text (b : BasicType) : String :=
  if b.kind = .integer && !b.isSigned then "unsigned " ++ b.name.text else b.name.text

end BasicType

/-- A struct of the registry: its position and its name. -/
structure StructId where
  index : Nat
  name : String
  deriving DecidableEq, Repr

mutual

/-- A resolved type. -/
inductive CType where
  | void
  | basic (b : BasicType)
  | pointer (target : CType)
  | function (f : FunctionType)
  | struct (id : StructId)

/-- A function type: return type, parameters, and whether it takes a receiver. -/
inductive FunctionType where
  | mk (ret : CType) (params : List Parameter) (isInstance : Bool)

/-- A parameter: name, type and the default value used when an argument is left out. -/
inductive Parameter where
  | mk (name : String) (type : CType) (default : Option Value)

end

instance : Inhabited CType := ⟨.void⟩
instance : Inhabited FunctionType := ⟨.mk .void [] false⟩

namespace FunctionType

def ret : FunctionType → CType
  | .mk r _ _ => r

def params : FunctionType → List Parameter
  | .mk _ ps _ => ps

def isInstance : FunctionType → Bool
  | .mk _ _ i => i

/-- The same function type, as a method that takes a receiver. -/
def intoInstance : FunctionType → FunctionType
  | .mk r ps _ => .mk r ps true

end FunctionType

namespace Parameter

def name : Parameter → String
  | .mk n _ _ => n

def type : Parameter → CType
  | .mk _ t _ => t

def default : Parameter → Option Value
  | .mk _ _ d => d

end Parameter

mutual

/-- Type identity. Basic types compare by kind, signedness and width; function types compare
return types, parameters (names and defaults included) and receivers. -/
def CType.same : CType → CType → Bool
  | .void, .void => true
  | .basic a, .basic b => a.same b
  | .pointer a, .pointer b => CType.same a b
  | .function f, .function g => FunctionType.same f g
  | .struct a, .struct b => a == b
  | _, _ => false

/-- Function type identity. -/
def FunctionType.same : FunctionType → FunctionType → Bool
  | .mk r ps i, .mk r' ps' i' => CType.same r r' && Parameter.sameList ps ps' && i == i'

/-- Parameter identity, position by position. -/
def Parameter.sameList : List Parameter → List Parameter → Bool
  | [], [] => true
  | .mk n t d :: ps, .mk n' t' d' :: qs =>
    n == n' && CType.same t t' && d == d' && Parameter.sameList ps qs
  | _, _ => false

end

instance : BEq CType := ⟨CType.same⟩

mutual

/-- The C-like spelling: `T*` for pointers, `ret (t₁, t₂)` for function types, structs by
name. -/
def CType.text : CType → String
  | .void => "void"
  | .basic b => b.text
  | .pointer t => CType.text t ++ "*"
  | .function f => FunctionType.text f
  | .struct id => id.name

/-- The spelling `ret (t₁, t₂)` of a function type. -/
def FunctionType.text : FunctionType → String
  | .mk r ps _ => CType.text r ++ " (" ++ Parameter.listText ps ++ ")"

/-- The parameter types separated by commas. -/
def Parameter.listText : List Parameter → String
  | [] => ""
  | [.mk _ t _] => CType.text t
  | .mk _ t _ :: p :: ps => CType.text t ++ ", " ++ Parameter.listText (p :: ps)

end

namespace CType

/-- The machine's `int`. -/
def int (m : Machine) : CType := .basic (BasicType.make .int .signed m)

/-- The machine's `char`. -/
def char (m : Machine) : CType := .basic (BasicType.make .char .signed m)

/-- The machine's `double`. -/
def double (m : Machine) : CType := .basic (BasicType.make .double .signed m)

/-- The type `void*`. -/
def voidPointer : CType := .pointer .void

def isVoid : CType → Bool
  | .void => true
  | _ => false

def isPointer : CType → Bool
  | .pointer _ => true
  | _ => false

def isStruct : CType → Bool
  | .struct _ => true
  | _ => false

def isFunction : CType → Bool
  | .function _ => true
  | _ => false

/-- Whether the type is a basic type. -/
def isArithmetic : CType → Bool
  | .basic _ => true
  | _ => false

/-- Whether the type is a basic type other than a float (`bool` included). -/
def isInteger : CType → Bool
  | .basic b => b.kind != .float
  | _ => false

def isFloat : CType → Bool
  | .basic b => b.kind == .float
  | _ => false

/-- Whether a value of the type fits one cell and can be tested for truth. -/
def isScalar : CType → Bool
  | .basic _ | .pointer _ | .function _ => true
  | _ => false

/-- Whether the type is `bool`. -/
def isBool : CType → Bool
  | .basic b => b.kind == .bool
  | _ => false

def asStruct? : CType → Option StructId
  | .struct id => some id
  | _ => none

def pointee? : CType → Option CType
  | .pointer t => some t
  | _ => none

/-- The function a value of the type calls: a function type, or a pointer to one. -/
def callable? : CType → Option FunctionType
  | .function f => some f
  | .pointer (.function f) => some f
  | _ => none

/-- The machine representation of a value of the type; `void` and structs have none. -/
def valueKind? : CType → Option Kind
  | .basic b => some b.valueKind
  | .pointer _ | .function _ => some .pointer
  | .void | .struct _ => none

end CType

namespace FunctionType

/-- The number of leading parameters without a default: arguments that must be given. -/
def requiredCount (f : FunctionType) : Nat :=
  (f.params.findIdx? (fun p => p.default.isSome)).getD f.params.length

/-- Whether two function types take parameters of the same types, position by position. -/
def sameParameterTypes (f g : FunctionType) : Bool :=
  f.params.length == g.params.length &&
    (f.params.zip g.params).all (fun (p, q) => p.type.same q.type)

/-- Same return type, same receiver, same parameter types. -/
def sameSignature (f g : FunctionType) : Bool :=
  f.ret.same g.ret && f.isInstance == g.isInstance && f.sameParameterTypes g

end FunctionType

/-- A parameter with a default, converted to the parameter's representation. -/
def Parameter.withDefault (name : String) (type : CType) (v : Value) : Parameter :=
  .mk name type (some (match type.valueKind? with
    | some k => v.convert k
    | none => v))

end CStack
