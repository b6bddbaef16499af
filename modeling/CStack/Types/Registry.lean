import CStack.Types.Conversion

/-!
The struct registry: every struct of a unit, its members and its layout in cells.

Structs are first declared by name (which fixes their position) and then defined with their
members. A field occupies as many cells as its type: one for a scalar, the cell count of a struct
for a struct field, none for `void`. A struct may contain another struct by value only once that
one is defined, so no struct contains itself. Methods occupy no cells; they are listed under their
name in declaration order, which is the order in which overloads are tried.
-/

namespace CStack

/-- A member of a defined struct. -/
inductive StructMember where
  | field (name : String) (type : CType)
  | method (name : String) (type : FunctionType)

/-- The name of a member. -/
def StructMember.name : StructMember → String
  | .field n _ | .method n _ => n

/-- A struct entry: members with their cell offsets, and the total cell count. -/
structure StructType where
  id : StructId
  members : List StructMember := []
  offsets : List Nat := []
  cellCount : Nat := 0
  defined : Bool := false

namespace StructType

/-- The offset and type of the first field with a name. -/
def field? (s : StructType) (name : String) : Option (Nat × CType) :=
  (s.members.zip s.offsets).findSome? fun (m, o) =>
    match m with
    | .field n t => if n = name then some (o, t) else none
    | .method _ _ => none

/-- Whether some member has the name. -/
def hasMember (s : StructType) (name : String) : Bool := s.members.any (·.name == name)

/-- The methods with a name, in declaration order. -/
def methodsNamed (s : StructType) (name : String) : List FunctionType :=
  s.members.filterMap fun m =>
    match m with
    | .method n t => if n = name then some t else none
    | .field _ _ => none

/-- The names of the methods, each once, in order of first declaration. -/
def methodNames (s : StructType) : List String :=
  (s.members.filterMap fun m =>
    match m with
    | .method n _ => some n
    | .field _ _ => none).eraseDups

end StructType

/-- Why a type could not be resolved or a struct defined. -/
inductive TypeError where
  | unknown (name : String)
  | incomplete (name : String)
  deriving DecidableEq, Repr

/-- The text of a type error. -/
def TypeError.message : TypeError → String
  | .unknown n => "The type '" ++ n ++ "' could not be found"
  | .incomplete n => "'" ++ n ++ "' is used by value before its definition is complete"

/-- All structs, by position. -/
structure Registry where
  structs : Array StructType := #[]

namespace Registry

/-- The struct with a name. -/
def lookup (r : Registry) (name : String) : Option StructId :=
  (r.structs.find? (·.id.name == name)).map (·.id)

/-- The entry of a struct, if the id is one of this registry's. -/
def get? (r : Registry) (id : StructId) : Option StructType :=
  match r.structs[id.index]? with
  | some s => if s.id.name = id.name then some s else none
  | none => none

/-- Declares a struct name, or finds the one already declared. -/
def declare (r : Registry) (name : String) : StructId × Registry :=
  match r.lookup name with
  | some id => (id, r)
  | none =>
    let id : StructId := ⟨r.structs.size, name⟩
    (id, { structs := r.structs.push { id } })

/-- The number of cells a value of a type occupies. -/
def cellCount (r : Registry) : CType → Nat
  | .void => 0
  | .basic _ | .pointer _ | .function _ => 1
  | .struct id => (r.get? id).elim 0 (·.cellCount)

/-- The kinds of the cells of a value of a type, the fields of nested structs flattened in
order, looking at most `fuel` structs deep. -/
def cellKindsWithin (r : Registry) : Nat → CType → List Kind
  | 0, _ => []
  | fuel + 1, .struct id =>
    match r.get? id with
    | some st => st.members.flatMap fun m =>
        match m with
        | .field _ t => r.cellKindsWithin fuel t
        | .method _ _ => []
    | none => []
  | _ + 1, t => t.valueKind?.toList

/-- The kinds of the cells of a value of a type. A struct holds another by value only once that
one is defined, so nesting never goes deeper than the number of structs. -/
def cellKinds (r : Registry) (t : CType) : List Kind := r.cellKindsWithin (r.structs.size + 1) t

/-- The offsets and total cell count of members, fields one after another and methods at `0`;
fails on a struct field whose struct is not yet defined. Offsets and counts are 32-bit words:
the running count wraps around at `UInt32.size`, which is `2 ^ 32`. -/
def layout (r : Registry) : List StructMember → Nat → Except TypeError (List Nat × Nat)
  | [], total => .ok ([], total)
  | .method _ _ :: rest, total => do
    let (offsets, total) ← r.layout rest total
    return (0 :: offsets, total)
  | .field _ t :: rest, total => do
    if let .struct inner := t then
      if !((r.get? inner).map (·.defined)).getD false then
        throw (.incomplete inner.name)
    let (offsets, end_) ← r.layout rest ((total + r.cellCount t) % UInt32.size)
    return (total :: offsets, end_)

/-- Defines a declared struct with its members. -/
def define (r : Registry) (id : StructId) (members : List StructMember) :
    Except TypeError Registry := do
  let (offsets, cells) ← r.layout members 0
  match r.structs[id.index]? with
  | none => throw (.unknown id.name)
  | some s =>
    let entry : StructType :=
      { s with members := members, offsets := offsets, cellCount := cells, defined := true }
    return { structs := r.structs.set! id.index entry }

mutual

/-- Resolves a type name; function types get unnamed parameters without defaults. -/
def resolve (r : Registry) (m : Machine) : TypeName → Except TypeError CType
  | .void => .ok .void
  | .basic name s => .ok (.basic (BasicType.make name s m))
  | .pointer t => return .pointer (← r.resolve m t)
  | .struct name =>
    match r.lookup name with
    | some id => .ok (.struct id)
    | none => .error (.unknown name)
  | .function ret params => do
    let ret ← r.resolve m ret
    let params ← r.resolveParams m params
    return .function (.mk ret params false)

/-- Resolves the parameter types of a function type name in order, stopping at the first
failure. -/
def resolveParams (r : Registry) (m : Machine) : List TypeName → Except TypeError (List Parameter)
  | [] => .ok []
  | p :: ps => do
    let t ← r.resolve m p
    return Parameter.mk "" t none :: (← r.resolveParams m ps)

end

/-- Resolves a signature into a function type; defaults are converted to their parameter's
representation. -/
def resolveSignature (r : Registry) (m : Machine) (s : Signature) : Except TypeError FunctionType := do
  let ret ← r.resolve m s.ret
  let params ← s.params.mapM fun p => do
    let t ← r.resolve m p.type
    return match p.default with
      | some v => Parameter.withDefault p.name t v
      | none => Parameter.mk p.name t none
  return .mk ret params false

/-- Resolves a declared member: a field's type, or a method's signature as a method. -/
def resolveMember (r : Registry) (m : Machine) : MemberDecl → Except TypeError StructMember
  | .field name t => return .field name (← r.resolve m t)
  | .method name s => return .method name (← r.resolveSignature m s).intoInstance

/-- A registry of struct declarations: every name declared first, then each struct defined in
order with its resolved members. Each declaration yields its entry once defined, or the first
error that stopped it, in which case the struct stays undefined. -/
def ofDecls (m : Machine) (decls : List StructDecl) :
    Registry × List (Except TypeError StructType) :=
  let declared := decls.foldl (fun r d => (r.declare d.name).2) {}
  decls.foldl (fun (r, results) d =>
    let id := (r.declare d.name).1
    let outcome := do
      let members ← d.members.mapM (r.resolveMember m)
      r.define id members
    match outcome with
    | .ok r' => (r', results ++ [((r'.get? id).elim (.error (.unknown d.name)) .ok)])
    | .error e => (r, results ++ [.error e])) (declared, [])

end Registry

end CStack
