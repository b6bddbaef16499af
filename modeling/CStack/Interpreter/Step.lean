import CStack.Interpreter.Host

/-!
# Running bytecode

One step fetches the current frame's next instruction and executes it. A call pops the callee,
the receiver of a method and the arguments, then either enters a new frame or runs the callee's
host program, after which exactly its result is left on the stack (the zero of its return type
if it pushed nothing, the last value if it pushed several, nothing for `void`). A return pops the
result, drops what its frame left on the stack and hands the result to the caller, or, when the
entry function returns, keeps it and finishes.

`reset` prepares a run of an entry function: memory and stacks are cleared and the entry frame is
entered with the global initialiser's frame above it, so the initialiser runs first.
-/

namespace CStack

namespace VmM

/-- Enters a frame for a compiled function: its cells zeroed, the receiver in the first and the
arguments after it, each written only where memory has a cell. -/
def enter (address : Nat) (receiver : Option Value) (args : Array Value) : VmM Unit := do
  let s ← get
  let notCallable := VmError.notCallable (.pointer address.toUInt32)
  let some f := s.program.function? address | throw notCallable
  let .compiled _ kinds := f.body | throw notCallable
  if s.frames.size ≥ s.config.maxFrames then throw (.stackOverflow s.frames.size)
  let base := match s.frames.back? with
    | some caller => caller.stop
    | none => s.program.globals.size
  if base > addressLimit then throw (.stackOverflow 0)
  let stop := min (base + kinds.size) addressLimit
  if stop > s.memory.size then throw (.stackOverflow s.frames.size)
  let memory := (kinds.toList.take (stop - base)).zipIdx.foldl
    (fun m (k, i) => m.setIfInBounds (base + i) (Value.zero k)) s.memory
  let (memory, firstParam) := match receiver with
    | some this => (memory.setIfInBounds base this, base + 1)
    | none => (memory, base)
  let memory := args.toList.zipIdx.foldl (fun m (v, i) => m.setIfInBounds (firstParam + i) v) memory
  set { s with memory, frames := s.frames.push ⟨address, 0, base, stop, s.stack.size⟩ }

/-- Runs an intrinsic's host program and leaves exactly its result on the stack. -/
def callIntrinsic (f : Function) (program : HostProgram Unit) (args : Array Value) : VmM Unit := do
  let height := (← get).stack.size
  runHost args program
  if f.type.ret.isVoid then return ← truncate height
  let s ← get
  if s.stack.size = height then
    push ((f.type.ret.valueKind?.map Value.zero).getD default)
  else if s.stack.size > height + 1 then
    let result := s.stack.back?.getD default
    truncate height
    push result

/-- Calls the function whose address is on top of the stack with `argc` arguments. -/
def call (argc : Nat) : VmM Unit := do
  let callee ← pop
  let .pointer address := callee | throw (.notCallable callee)
  let some f := (← get).program.function? address.toNat | throw (.notCallable callee)
  let receiver ← if f.type.isInstance then some <$> pop else pure none
  let s ← get
  if s.stack.size < (← floor) + argc then throw .stackUnderflow
  let args := s.stack.extract (s.stack.size - argc) s.stack.size
  truncate (s.stack.size - argc)
  match f.body with
  | .compiled _ _ => enter address.toNat receiver args
  | .intrinsic program => callIntrinsic f program args

/-- Returns from the current frame. -/
def ret : VmM Status := do
  let s ← get
  let returnsValue := match s.frames.back?.bind (s.program.function? ·.function) with
    | some f => !f.type.ret.isVoid
    | none => false
  let result ← if returnsValue then some <$> pop else pure none
  let f ← frame
  modify fun s => { s with frames := s.frames.pop }
  truncate f.stackBase
  if (← get).frames.isEmpty then
    modify fun s => { s with result }
    return .finished
  if let some v := result then push v
  return .running

/-- Executes one instruction. -/
def execute (i : Instr) : VmM Status := do
  let s ← get
  let width := s.program.pointerSize
  let intKind := s.program.intKind
  match i with
  | .loadConstant v => push v
  | .loadLocal slot => push (← load (← localAddress slot))
  | .storeLocal slot =>
    let address ← localAddress slot
    store address (← pop)
  | .loadLocalAddress slot => push (.pointer (← localAddress slot).toUInt32)
  | .loadGlobal address => push (← load address)
  | .storeGlobal address => store address (← pop)
  | .loadGlobalAddress address => push (.pointer address.toUInt32)
  | .loadPointer => push (← load (← popAddress))
  | .storePointer =>
    let address ← popAddress
    store address (← pop)
  | .offsetPointer cells =>
    let p ← pop
    push (← ofExcept (Operators.offsetPointer p (Int64.ofNat cells) width))
  | .addPointer stride =>
    let offset := (← pop).toInt64 * Int64.ofNat stride
    let p ← pop
    push (← ofExcept (Operators.offsetPointer p offset width))
  | .subPointer stride =>
    let offset := (← pop).toInt64 * Int64.ofNat stride
    let p ← pop
    push (← ofExcept (Operators.offsetPointer p (-offset) width))
  | .dup =>
    let some v := (← get).stack.back? | throw .stackUnderflow
    push v
  | .pop => let _ ← pop
  | .convert k => push ((← pop).convert k)
  | .binary op =>
    let right ← pop
    let left ← pop
    push (← ofExcept (if op.isComparison then Operators.compare op left right intKind
      else Operators.arithmetic op left right))
  | .unary .neg => push (← ofExcept (Operators.negate (← pop)))
  | .unary .bitNot => push (← ofExcept (Operators.complement (← pop)))
  | .unary .not => push (Operators.logicalNot (← pop) intKind)
  | .jump target => jump target
  | .branchIfFalse target =>
    if !(← pop).truthy then jump target
  | .call argc => call argc
  | .ret => return ← ret
  return .running

/-- Executes the current frame's next instruction. -/
def step : VmM Status := do
  let s ← get
  let some f := s.frames.back? | throw .notRunning
  set { s with frames := s.frames.modify (s.frames.size - 1) fun f => { f with ip := f.ip + 1 } }
  let function := s.program.function? f.function
  let instr := function.bind fun fn =>
    match fn.body with
    | .compiled code _ => code[f.ip]?
    | .intrinsic _ => none
  let some i := instr | throw (.missingReturn ((function.map (·.name)).getD ""))
  modify fun s => { s with steps := s.steps + 1 }
  execute i

/-- Prepares a run of the entry function with a name: memory, stacks and the step count are
cleared, then the entry frame and the initialiser frame above it are entered. -/
def reset (entry : String) : VmM Unit := do
  let s ← get
  let some address := s.program.findFunction entry | throw (.entryNotFound entry)
  let runnable := match s.program.function? address with
    | some { body := .compiled _ _, type, .. } => !type.isInstance
    | _ => false
  if !runnable then throw (.notCallable (.pointer address.toUInt32))
  set { s with memory := Interpreter.freshMemory s.program s.config, stack := #[], frames := #[],
               result := none, steps := 0 }
  enter address none #[]
  enter s.program.init none #[]

end VmM

namespace Interpreter

/-- Steps at most `n` times, stopping after the step that finishes the entry function; the
status of the last step taken, `last` if none is. -/
def stepsUpTo : Nat → Option Status → Interpreter → EStateM.Result VmError Interpreter (Option Status)
  | 0, last, s => .ok last s
  | n + 1, _, s =>
    match VmM.step.run s with
    | .ok .finished s' => .ok (some .finished) s'
    | .ok .running s' => stepsUpTo n (some .running) s'
    | .error e s' => .error e s'

end Interpreter

namespace VmM

/-- Steps at most `n` times, stopping after the step that finishes the entry function: the
status of the last step, none when `n` is `0`. -/
def stepUpTo (n : Nat) : VmM (Option Status) := fun s => Interpreter.stepsUpTo n none s

/-- Runs at most `limit` steps and returns what the entry function returned; running out of
steps with frames left is a fault. -/
def runWithLimit (limit : Nat) : VmM (Option Value) := do
  let last ← stepUpTo limit
  let s ← get
  if last = some .finished || s.frames.isEmpty then return s.result
  throw (.stepLimit limit)

/-- Runs until the entry function returns, for at most `fuel` steps: what it returned, or `none`
when the fuel runs out first. -/
def runFor (fuel : Nat) : VmM (Option (Option Value)) := do
  if (← stepUpTo fuel) = some .finished then return some (← get).result
  return none

end VmM

end CStack
