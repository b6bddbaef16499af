import CStack.Types.Registry

/-!
# Unit-level names

The names a unit defines outside any function: globals with their cells, free functions and
intrinsics with their overloads in declaration order, and the bodies given for struct methods.
A prototype that never receives a body is an overload without an address. Inside a function the
compiler adds locals, and inside a method the fields and methods of the receiver; `Symbol` is
what a name turns out to denote.
-/

namespace CStack

/-- A global variable: its first cell and its type. -/
structure GlobalSymbol where
  address : Nat
  type : CType

/-- One overload of a free function or intrinsic; `none` for a prototype without a body. -/
structure FunctionSymbol where
  type : FunctionType
  address : Option Nat

/-- Globals, function overloads and method bodies of a unit. -/
structure SymbolTable where
  globals : List (String × GlobalSymbol) := []
  functions : List (String × List FunctionSymbol) := []
  methods : List ((StructId × String) × List (FunctionType × Nat)) := []

namespace SymbolTable

/-- The global with a name. -/
def global? (t : SymbolTable) (name : String) : Option GlobalSymbol := t.globals.lookup name

/-- Adds a global, unless the name is already one; says whether it was added. -/
def addGlobal (t : SymbolTable) (name : String) (g : GlobalSymbol) : Option SymbolTable :=
  if (t.global? name).isSome then none else some { t with globals := (name, g) :: t.globals }

/-- The overloads of a name, in declaration order. -/
def functionsNamed (t : SymbolTable) (name : String) : List FunctionSymbol :=
  (t.functions.lookup name).getD []

/-- Replaces the overloads of a name. -/
def setOverloads (t : SymbolTable) (name : String) (fs : List FunctionSymbol) : SymbolTable :=
  { t with functions := (name, fs) :: t.functions.filter (·.1 != name) }

/-- Adds an overload after the existing ones. -/
def addOverload (t : SymbolTable) (name : String) (f : FunctionSymbol) : SymbolTable :=
  t.setOverloads name (t.functionsNamed name ++ [f])

/-- The bodies recorded for a method name of a struct. -/
def methodBodies (t : SymbolTable) (owner : StructId) (name : String) : List (FunctionType × Nat) :=
  (t.methods.lookup (owner, name)).getD []

/-- Records the body of `owner::name` with its type and address. -/
def addMethod (t : SymbolTable) (owner : StructId) (name : String) (type : FunctionType)
    (address : Nat) : SymbolTable :=
  let bodies := t.methodBodies owner name ++ [(type, address)]
  { t with methods := ((owner, name), bodies) :: t.methods.filter (·.1 != (owner, name)) }

/-- The address of the body defined for a declared method: the first body taking the same
parameter types. -/
def methodDefinition (t : SymbolTable) (owner : StructId) (name : String)
    (declared : FunctionType) : Option Nat :=
  ((t.methodBodies owner name).find? (·.1.sameParameterTypes declared)).map (·.2)

end SymbolTable

/-- What a name denotes where it is used. -/
inductive Symbol where
  /-- A local variable or parameter, by frame slot. -/
  | local (slot : Nat) (type : CType)
  | global (address : Nat) (type : CType)
  /-- A field of the receiver inside a method body, by cell offset. -/
  | field (offset : Nat) (type : CType)
  | function (address : Nat) (type : FunctionType)
  /-- A method of the receiver inside a method body. -/
  | method (address : Nat) (type : FunctionType)

/-- The type of what a symbol denotes; a function or method has its function type. -/
def Symbol.type : Symbol → CType
  | .local _ t | .global _ t | .field _ t => t
  | .function _ f | .method _ f => .function f

end CStack
