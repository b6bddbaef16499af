import CStack.Bytecode.Instruction
import CStack.Types.CType
import CStack.Host.Program

/-!
# Executables

A compiled program: a function table, whose indices are the function addresses, the kinds of the
global cells, and the address of the function that runs the global initialisers. Global cell `0`
is reserved so that no object lives at the null address.
-/

namespace CStack

/-- The body of a function: bytecode with the kinds of its frame cells, or a host program. -/
inductive Body where
  /-- Code, and the kind of every frame cell: the receiver of a method, the parameters, then
  the locals. A frame starts as the zeros of these kinds. -/
  | compiled (code : Array Instr) (frame : Array Kind)
  | intrinsic (program : HostProgram Unit)

/-- An entry of the function table. -/
structure Function where
  /-- The plain name of a function, `Owner::name` for a method. -/
  name : String
  type : FunctionType
  body : Body

/-- The name of the function that runs the global initialisers. -/
def initFunctionName : String := "__cinit"

/-- Everything the interpreter needs to run a program. -/
structure Executable where
  functions : Array Function
  /-- Kinds of the global cells; cell `0` is the reserved null cell. -/
  globals : Array Kind
  /-- The address of the initialiser function. -/
  init : Nat
  /-- The representation of `int`; comparisons produce it. -/
  intKind : Kind
  /-- The byte width of a data pointer; pointer arithmetic wraps at this width. -/
  pointerSize : Nat

namespace Executable

/-- The function at an address. -/
def function? (x : Executable) (address : Nat) : Option Function := x.functions[address]?

/-- The address of the first function with a name. -/
def findFunction (x : Executable) (name : String) : Option Nat :=
  x.functions.findIdx? (·.name == name)

/-- A number right-aligned in a field of four characters. -/
def padIndex (n : Nat) : String :=
  let s := toString n
  String.ofList (List.replicate (4 - s.length) ' ') ++ s

/-- The listing of one function: a header line `address name : type`, then each instruction
with its index, or a note that the body is internal. -/
def functionListing (address : Nat) (f : Function) : String :=
  let header := hexDigits 4 address ++ " " ++ f.name ++ " : " ++ f.type.text ++ "\n"
  match f.body with
  | .intrinsic _ => header ++ "    <internal>\n"
  | .compiled code _ =>
    (code.toList.zipIdx.foldl (fun acc (i, n) => acc ++ "    " ++ padIndex n ++ "  " ++ i.text ++ "\n")
      header)

/-- The listing of every function, in address order. -/
def disassemble (x : Executable) : String :=
  String.join (x.functions.toList.zipIdx.map fun (f, a) => functionListing a f)

end Executable

end CStack
