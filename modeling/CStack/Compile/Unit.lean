import CStack.Compile.Statement
import CStack.Compile.Tagging
import CStack.Bytecode.Executable

/-!
# Compiling a unit

A unit is compiled in passes:

1. the machine is validated;
2. structs are declared by name, then defined in order, their members resolved;
3. the machine's intrinsics take the first function addresses;
4. globals get memory cells, cell `0` staying reserved for null;
5. function and method signatures are registered, pairing prototypes with definitions;
6. the global initialiser function and every body are emitted.

Every diagnostic of every pass is collected before it is decided whether the unit yields an
executable; any diagnostic at all, kept or suppressed, means it does not.
-/

namespace CStack

/-- Why a unit produced no executable. -/
inductive CompileError where
  | machine (e : MachineError)
  /-- The diagnostics the report kept, in order. -/
  | diagnostics (ds : List Diagnostic)

namespace CompileError

/-- The text of a compile error. -/
def message : CompileError → String
  | .machine e => "invalid machine model: " ++ e.message
  | .diagnostics ds => "compilation failed with " ++ toString ds.length ++ " error(s)"

/-- The diagnostics of a failed unit; none for an invalid machine. -/
def diagnosticList : CompileError → List Diagnostic
  | .machine _ => []
  | .diagnostics ds => ds

end CompileError

/-- A function definition whose body waits to be emitted. -/
structure PendingBody where
  definition : FunctionDef
  type : FunctionType
  owner : Option StructId
  address : Nat

/-- A global with an initial value. -/
structure GlobalInit where
  value : Expr
  address : Nat
  type : CType

/-- The unit-level state built before bodies are emitted. -/
structure Assembly where
  report : Report
  symbols : SymbolTable := {}
  functions : Array Function := #[]
  globals : Array Kind := #[.pointer]
  inits : Array GlobalInit := #[]
  pending : Array PendingBody := #[]

/-- The monad of the passes before emission. -/
abbrev AssemblyM := StateM Assembly

namespace AssemblyM

/-- Files a diagnostic. -/
def error (code : Code) (span : Span) (message : String) : AssemblyM Unit :=
  modify fun s => { s with report := s.report.error code span message }

/-- Reports a struct taken or returned by value: structs pass by pointer only. -/
def checkByValue (name : String) (f : FunctionType) (span : Span) : AssemblyM Unit := do
  if f.ret.isStruct then
    error .e0020 span ("'" ++ name ++ "' is a struct value; take its address instead")
  for p in f.params do
    if p.type.isStruct then
      error .e0020 span ("'" ++ p.name ++ "' is a struct value; take its address instead")

/-- The members of a struct declaration, resolved, with duplicates and unknown types reported
and left out. -/
def structMembers (m : Machine) (reg : Registry) (d : StructDecl) :
    AssemblyM (List StructMember) := do
  let mut members : Array StructMember := #[]
  for member in d.members do
    match member with
    | .field name type =>
      if members.any (·.name == name) then
        error .e0111 d.span ("'" ++ d.name ++ "::" ++ name ++ "' is already defined")
        continue
      match reg.resolve m type with
      | .ok t => members := members.push (.field name t)
      | .error e => error .e0246 d.span e.message
    | .method name signature =>
      match reg.resolveSignature m signature with
      | .error e => error .e0246 d.span e.message
      | .ok f =>
        let f := f.intoInstance
        let qualified := d.name ++ "::" ++ name
        checkByValue qualified f d.span
        let duplicate := members.any fun other =>
          match other with
          | .method n g => n == name && g.sameParameterTypes f
          | .field _ _ => false
        if duplicate then
          error .e0111 d.span ("'" ++ qualified ++ "' is already defined with the same parameter types")
        else
          members := members.push (.method name f)
  return members.toList

/-- The struct registry of a unit: every name declared, a repeated name reported, then each first
declaration defined in order. -/
def registerStructs (m : Machine) (structs : List StructDecl) : AssemblyM Registry := do
  let mut reg : Registry := {}
  let mut firsts : Array StructDecl := #[]
  for d in structs do
    if (reg.lookup d.name).isSome then
      error .e0111 d.span ("'" ++ d.name ++ "' is already defined")
    else
      firsts := firsts.push d
    reg := (reg.declare d.name).2
  for d in firsts do
    let id := (reg.declare d.name).1
    let members ← structMembers m reg d
    match reg.define id members with
    | .ok r => reg := r
    | .error e => error .e0246 d.span e.message
  return reg

/-- Gives each intrinsic of the machine the next function address. -/
def addIntrinsics (m : Machine) (reg : Registry) : AssemblyM Unit := do
  for i in m.intrinsics do
    match reg.resolveSignature m i.signature with
    | .error e => error .e0246 Span.none e.message
    | .ok f =>
      modify fun s => { s with
        symbols := s.symbols.addOverload i.name ⟨f, some s.functions.size⟩
        functions := s.functions.push ⟨i.name, f, .intrinsic i.program⟩ }

/-- Gives each global its cells, at least one. -/
def allocateGlobals (m : Machine) (reg : Registry) (globals : List GlobalDecl) : AssemblyM Unit := do
  for d in globals do
    match reg.resolve m d.type with
    | .error e => error .e0246 d.span e.message
    | .ok t =>
      let s ← get
      let address := s.globals.size
      match s.symbols.addGlobal d.name ⟨address, t⟩ with
      | none => error .e0111 d.span ("'" ++ d.name ++ "' is already defined")
      | some symbols =>
        let kinds := reg.cellKinds t
        let kinds := if kinds.isEmpty then [(CType.int m).valueKind?.getD .int32] else kinds
        set { s with
          symbols
          globals := s.globals ++ kinds.toArray
          inits := match d.init with
            | some v => s.inits.push ⟨v, address, t⟩
            | none => s.inits }

/-- Registers a function body at the next address, to be emitted later. -/
def addBody (d : FunctionDef) (f : FunctionType) (owner : Option StructId) : AssemblyM Nat :=
  modifyGet fun s =>
    let address := s.functions.size
    (address, { s with
      functions := s.functions.push ⟨d.qualifiedName, f, .compiled #[] #[]⟩
      pending := s.pending.push ⟨d, f, owner, address⟩ })

/-- Registers a method definition: its struct must declare a method of that name with the same
parameter types, and no other body for it may come first. -/
def declareMethod (reg : Registry) (d : FunctionDef) (f : FunctionType) (ownerName : String) :
    AssemblyM Unit := do
  let some owner := reg.lookup ownerName | do
    error .e0246 d.span ("The type '" ++ ownerName ++ "' could not be found")
  let f := f.intoInstance
  let declared := ((reg.get? owner).map fun st =>
    (st.methodsNamed d.name).any (·.sameParameterTypes f)).getD false
  if !declared then
    return ← error .e1061 d.span ("'" ++ d.name ++ "' not found in '" ++ owner.name ++ "'")
  if d.body.isNone then return
  if ((← get).symbols.methodDefinition owner d.name f).isSome then
    return ← error .e0111 d.span
      ("'" ++ d.qualifiedName ++ "' is already defined with the same parameter types")
  let address ← addBody d f (some owner)
  modify fun s => { s with symbols := s.symbols.addMethod owner d.name f address }

/-- Registers a free function: a prototype adds an overload unless one with the same parameter
types exists; a definition gives that overload its address, or adds one, unless it already has
a body. -/
def declareFree (d : FunctionDef) (f : FunctionType) : AssemblyM Unit := do
  let overloads := (← get).symbols.functionsNamed d.name
  let existing := overloads.findIdx? (·.type.sameParameterTypes f)
  if d.body.isNone then
    if existing.isNone then
      modify fun s => { s with symbols := s.symbols.addOverload d.name ⟨f, none⟩ }
    return
  let defined := match existing with
    | some i => (overloads[i]?.bind (·.address)).isSome
    | none => false
  if defined then
    return ← error .e0111 d.span
      ("'" ++ d.qualifiedName ++ "' is already defined with the same parameter types")
  let address ← addBody d f none
  let overloads := match existing with
    | some i => overloads.mapIdx fun j o => if j = i then { o with address := some address } else o
    | none => overloads ++ [⟨f, some address⟩]
  modify fun s => { s with symbols := s.symbols.setOverloads d.name overloads }

/-- Registers every function and method signature of a unit. -/
def declareFunctions (m : Machine) (reg : Registry) (defs : List FunctionDef) : AssemblyM Unit := do
  for d in defs do
    match reg.resolveSignature m d.signature with
    | .error e => error .e0246 d.span e.message
    | .ok f =>
      checkByValue d.qualifiedName f d.span
      match d.owner with
      | some ownerName => declareMethod reg d f ownerName
      | none => declareFree d f

end AssemblyM

namespace EmitM

/-- The type of the global initialiser function. -/
def initType : FunctionType := .mk .void [] false

/-- Emits the global initialiser function and every pending body, returning each function's
address with its code and frame. -/
def emitBodies (init : Nat) (inits : Array GlobalInit) (pending : Array PendingBody) :
    EmitM (List (Nat × Array Instr × Array Kind)) := do
  beginFunction initFunctionName initType none Span.none
  for g in inits do
    if g.type.isStruct then
      structValue g.value
      continue
    let t ← typeOf g.value
    emitExpr g.value
    emitCast t g.type g.value.span
    push (.storeGlobal g.address)
  push .ret
  let (code, frame) ← finishFunction
  let mut out := [(init, code, frame)]
  for b in pending do
    let some body := b.definition.body | continue
    beginFunction b.definition.qualifiedName b.type b.owner b.definition.span
    emitBlock body
    emitImplicitReturn b.type.ret
    let (code, frame) ← finishFunction
    out := out ++ [(b.address, code, frame)]
  return out

end EmitM

/-- The passes before emission, run on a unit as it is: the struct registry and everything the
unit declares outside function bodies. -/
def CompilationUnit.assemble (unit : CompilationUnit) (m : Machine) (config : ReportConfig) :
    Registry × Assembly :=
  let passes : AssemblyM Registry := do
    let reg ← AssemblyM.registerStructs m unit.structs
    AssemblyM.addIntrinsics m reg
    AssemblyM.allocateGlobals m reg unit.globals
    AssemblyM.declareFunctions m reg unit.functions
    return reg
  passes.run { report := Report.empty config }

/-- Compiles a unit for a machine, filing diagnostics under a report configuration. -/
def compile (unit : CompilationUnit) (m : Machine) (config : ReportConfig) :
    Except CompileError Executable := do
  if let .error e := m.validate then throw (.machine e)
  let unit := unit.numbered
  let (reg, a) := unit.assemble m config
  let init := a.functions.size
  let functions := a.functions.push ⟨initFunctionName, EmitM.initType, .compiled #[] #[]⟩
  let (bodies, st) :=
    ((EmitM.emitBodies init a.inits a.pending).run ⟨m, reg, a.symbols⟩).run { report := a.report }
  if st.report.hasErrors then throw (.diagnostics st.report.diagnostics.toList)
  let functions := bodies.foldl (fun fs (address, code, frame) =>
    fs.modify address fun f => { f with body := .compiled code frame }) functions
  return { functions, globals := a.globals, init,
           intKind := (CType.int m).valueKind?.getD .int32, pointerSize := m.pointerSize }

end CStack
