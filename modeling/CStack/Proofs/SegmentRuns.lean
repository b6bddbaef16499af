import Mathlib
import CStack.Proofs.StackDiscipline

/-!
# Runs of code placed in a frame

Code with heights that fit it (`StackMap`) sits in the function a frame runs, from instruction
`start` on, and the frame enters it at its first instruction over an operand stack of `h` values
(`Segment`, `Segment.Enters`). A run of it (`Segment.Run`) is any sequence of steps taken while
control is in the code or in a call it made, in which every call the code makes reaches a function
whose type agrees with the one the call site was emitted for (`FunctionType.Agrees`): both take a
receiver or neither, as many parameters, and both return a value or neither. The function the frame
runs is assumed to return a value exactly when the code was emitted for one that does
(`Segment.Loaded`); neither can be known from the code.

Along such a run the segment stands (`Segment.Stands`): until its frame returns, the `h` values stay
below, and the frame is either the top frame at an index of the code with `h` plus the height there
on the stack, or waits for a call of the code, whose callee's frame began its stack where the
call's operands began. One step keeps this (`Segment.Stands.step`): the step lemmas take the
instruction the frame is at one kind at a time (`Segment.Past`), and a step in a callee's frame
leaves the frames below it and the stack below its base alone. By induction every state of a run
stands (`Segment.Run.stands`), and `Segment.Run.disciplined` reads off what the code keeps: the
stack below `h` untouched, each instruction's operands above `h`, no underflow at an instruction
of the code, and `h` plus the code's net effect on the stack when control reaches its end.
-/

namespace CStack

/-- Two function types agree on what a call does to the stack: both take a receiver or neither,
they take as many parameters, and both return a value or neither. -/
structure FunctionType.Agrees (f g : FunctionType) : Prop where
  isInstance : f.isInstance = g.isInstance
  params : f.params.length = g.params.length
  ret : f.ret.isVoid = g.ret.isVoid

/-- Code placed from instruction `start` on in the function at address `function`, and run by
the frame at index `frame` of the frame stack, entered with the operand stack `below`. -/
structure Segment where
  code : List Annotated
  start : Nat
  frame : Nat
  function : Nat
  below : Array Value

namespace Segment

open Interpreter

variable (σ : Segment)

/-- The program holds the code where the segment says, in a function that returns a value exactly
when `rv`. -/
structure Loaded (x : Executable) (rv : Bool) : Prop where
  code : ∃ code, x.code? σ.function = some code ∧
    ∀ j (hj : j < σ.code.length), code[σ.start + j]? = some σ.code[j].instr
  returns : ∀ f, x.function? σ.function = some f → f.type.ret.isVoid = !rv

/-- The frame `fr` is the segment's frame, still running its function, with the stack below the
segment untouched. -/
structure Active (fr : Frame) (s : Interpreter) : Prop where
  frame : s.frames[σ.frame]? = some fr
  function : fr.function = σ.function
  base : fr.stackBase ≤ σ.below.size
  below : s.stack.take σ.below.size = σ.below

/-- The frame `fr` is the top frame, at an instruction of the code or just past its end, with the
stack at the height there. -/
def AtCode (d : Nat → Nat) (fr : Frame) (s : Interpreter) : Prop :=
  s.frames.size = σ.frame + 1 ∧ σ.start ≤ fr.ip ∧ fr.ip ≤ σ.start + σ.code.length ∧
    s.stack.size = σ.below.size + d fr.ip

/-- The frame `fr` waits for the call at instruction `j` of the code to return: the frame above it
runs the callee `f`, its stack began where the call's callee, receiver and arguments began, and
`f` returns a value exactly when the function type the call site calls returns one. -/
def InCall (d : Nat → Nat) (fr : Frame) (s : Interpreter) : Prop :=
  ∃ j ft g f, j < σ.code.length ∧ fr.ip = σ.start + j + 1 ∧
    σ.code[j]? = some ⟨.call ft.params.length, some ft⟩ ∧ s.frames[σ.frame + 1]? = some g ∧
    g.stackBase + (ft.params.length + 1 + ft.isInstance.toNat) =
      σ.below.size + d (σ.start + j) ∧
    s.program.function? g.function = some f ∧ f.type.ret.isVoid = ft.ret.isVoid

/-- What a run of the segment keeps: the layout, and until the segment's frame has returned, the
frame at the code or in a call the code made. -/
def Stands (x : Executable) (c : InterpreterConfig) (d : Nat → Nat) (s : Interpreter) : Prop :=
  s.Layout x c ∧
    (s.frames.size ≤ σ.frame ∨ ∃ fr, σ.Active fr s ∧ (σ.AtCode d fr s ∨ σ.InCall d fr s))

/-- Control is in the segment: in a call it made, or at one of its instructions. -/
def InCode (s : Interpreter) : Prop :=
  σ.frame + 1 < s.frames.size ∨
    s.frames.size = σ.frame + 1 ∧
      ∀ fr, s.frames[σ.frame]? = some fr → fr.ip < σ.start + σ.code.length

/-- A call the segment is about to make, to a function on top of the stack, reaches one whose type
agrees with the one the call site calls. -/
def CallsAgree (s : Interpreter) : Prop :=
  ∀ fr j n ft address f, s.frames.size = σ.frame + 1 → s.frames[σ.frame]? = some fr →
    fr.ip = σ.start + j → σ.code[j]? = some ⟨.call n, some ft⟩ →
    s.stack.back? = some (.pointer address) → s.program.function? address.toNat = some f →
    f.type.Agrees ft

/-- The state `s₀` enters the segment: laid out, its top frame is the segment's, running the
segment's function at the code's first instruction, over the stack the segment is entered with. -/
structure Enters (x : Executable) (c : InterpreterConfig) (s₀ : Interpreter) : Prop where
  layout : s₀.Layout x c
  top : s₀.frames.size = σ.frame + 1
  frame : ∃ fr, s₀.frames[σ.frame]? = some fr ∧ fr.function = σ.function ∧ fr.ip = σ.start
  below : s₀.stack = σ.below

/-- What a run of code that moves the stack by `q` keeps, said of the code alone: while the
segment's frame lives the stack it was entered with stays below; each instruction of the code that
the frame is at finds the values it takes above that stack; at the end of the code `q` values lie
above it; and a step of the frame at an instruction of the code, with a call that agrees, never
fails for want of operands. -/
structure Disciplined (rv : Bool) (q : Nat) (s : Interpreter) : Prop where
  below : σ.frame < s.frames.size →
    s.stack.take σ.below.size = σ.below ∧ σ.below.size ≤ s.stack.size
  operands : ∀ fr j (hj : j < σ.code.length), s.frames.size = σ.frame + 1 →
    s.frames[σ.frame]? = some fr → fr.ip = σ.start + j →
    σ.below.size + σ.code[j].needs rv ≤ s.stack.size
  finish : ∀ fr, s.frames.size = σ.frame + 1 → s.frames[σ.frame]? = some fr →
    fr.ip = σ.start + σ.code.length → s.stack.size = σ.below.size + q
  faults : σ.InCode s → σ.CallsAgree s → s.frames.size = σ.frame + 1 →
    ∀ e s', VmM.step.run s = .error e s' → e ≠ .stackUnderflow

/-- The runs of the segment from `s₀`: each step is taken with control in the segment and, when it
is a call, to a function that agrees with its call site. -/
inductive Run (s₀ : Interpreter) : Interpreter → Prop
  | start : Run s₀ s₀
  | step {s s' : Interpreter} {st : Status} : Run s₀ s → σ.InCode s → σ.CallsAgree s →
      VmM.step.run s = .ok st s' → Run s₀ s'

variable {σ} {x : Executable} {c : InterpreterConfig} {rv : Bool} {d : Nat → Nat}
  {s s' : Interpreter} {fr : Frame}

theorem stands_at (hact : σ.Active fr s) (hk : s.frames.size = σ.frame + 1) {ip : Nat}
    (hL : s'.Layout x c) (hframes : s'.frames = (s.jumpTo ip).frames)
    (hbelow : s'.stack.take σ.below.size = σ.below) (hlo : σ.start ≤ ip)
    (hhi : ip ≤ σ.start + σ.code.length) (hsize : s'.stack.size = σ.below.size + d ip) :
    σ.Stands x c d s' :=
  ⟨hL, .inr ⟨{ fr with ip }, ⟨by rw [hframes, getElem?_jumpTo_last hk hact.frame],
    hact.function, hact.base, hbelow⟩,
    .inl ⟨by rw [hframes]; simpa [jumpTo] using hk, hlo, hhi, hsize⟩⟩⟩

/-- What a step may end in: a fault other than underflow, or a state that, laid out, stands. -/
def Outcome (x : Executable) (c : InterpreterConfig) (d : Nat → Nat) :
    EStateM.Result VmError Interpreter Status → Prop
  | .error e _ => e ≠ .stackUnderflow
  | .ok _ s' => s'.Layout x c → σ.Stands x c d s'

/-- `s₁` is `s` moved past instruction `j` of the code, which the segment's frame `fr`, the top
frame, was at with the stack at the height there: the state in which a step of `s` executes that
instruction. -/
structure Past (d : Nat → Nat) (fr : Frame) (j : Nat) (s s₁ : Interpreter) : Prop where
  active : σ.Active fr s
  top : s.frames.size = σ.frame + 1
  ip : fr.ip = σ.start + j
  lt : j < σ.code.length
  height : s.stack.size = σ.below.size + d (σ.start + j)
  frames : s₁.frames = (s.jumpTo (σ.start + j + 1)).frames
  stack : s₁.stack = s.stack
  program : s₁.program = s.program

namespace Past

variable {j : Nat} {s₁ : Interpreter} {callee : Option FunctionType}

theorem floor (h : σ.Past d fr j s s₁) : s₁.floor = fr.stackBase := by
  rw [floor_congr h.frames, floor_jumpTo, floor_of_back (back?_of_last h.top h.active.frame)]

theorem outcome_plain (h : σ.Past d fr j s s₁) {y : Annotated}
    (hctl : y.instr.transfersControl = false)
    (hfit : y.Fits σ.start (σ.start + σ.code.length) rv d (σ.start + j)) :
    σ.Outcome x c d ((VmM.execute y.instr).run s₁) := by
  obtain ⟨harity, hnext⟩ := hfit.plain hctl
  have hroom : s₁.floor + y.instr.arity.1 ≤ s₁.stack.size := by
    rw [h.floor, h.stack, h.height]
    have := h.active.base
    omega
  obtain ⟨herror, hok⟩ := VmM.execute_pops hctl s₁ hroom
  cases hr : (VmM.execute y.instr).run s₁ with
  | error e s' => exact herror e s' hr
  | ok st s' =>
    intro hL
    obtain ⟨hloc, hsize, htake⟩ := hok st s' hr
    have hbase := h.active.base
    have hlt := h.lt
    rw [h.stack, h.height] at hsize htake
    refine stands_at h.active h.top hL (hloc.frames.trans h.frames) ?_ (by omega) (by omega)
      (by omega)
    rw [take_eq_of_take_eq (by omega) htake, h.active.below]

theorem outcome_jump (h : σ.Past d fr j s s₁) {t : Nat}
    (hfit : (⟨.jump t, callee⟩ : Annotated).Fits σ.start (σ.start + σ.code.length) rv d
      (σ.start + j)) :
    σ.Outcome x c d ((VmM.execute (.jump t)).run s₁) := by
  obtain ⟨-, hlo, hhi, ht⟩ := hfit
  rw [VmM.execute_jump]
  intro hL
  refine stands_at h.active h.top hL (frames_jumpTo_of h.frames t) ?_ hlo hhi ?_
  · show s₁.stack.take _ = _
    rw [h.stack, h.active.below]
  · show s₁.stack.size = _
    rw [h.stack, h.height, ht]

theorem outcome_branch (h : σ.Past d fr j s s₁) {t : Nat}
    (hfit : (⟨.branchIfFalse t, callee⟩ : Annotated).Fits σ.start (σ.start + σ.code.length) rv
      d (σ.start + j)) :
    σ.Outcome x c d ((VmM.execute (.branchIfFalse t)).run s₁) := by
  obtain ⟨hneeds, hlo, hhi, ht, hnext⟩ := hfit
  simp only [Annotated.needs, Instr.arity] at hneeds
  have hbase := h.active.base
  have hheight := h.height
  have hlt := h.lt
  have hfloor : s₁.floor < s₁.stack.size := by
    rw [h.floor, h.stack]
    omega
  -- the condition is popped; below it the stack is untouched
  have hbelow : s₁.stack.pop.take σ.below.size = σ.below := by
    rw [take_pop_of_lt (by rw [h.stack]; omega), h.stack, h.active.below]
  have hsize : s₁.stack.pop.size = σ.below.size + d (σ.start + j) - 1 := by
    rw [Array.size_pop, h.stack]
    omega
  rw [VmM.execute_branchIfFalse, if_pos hfloor]
  split
  · intro hL
    exact stands_at h.active h.top hL h.frames hbelow (by omega) (by omega) (by simp only; omega)
  · intro hL
    exact stands_at h.active h.top hL (frames_jumpTo_of h.frames t) hbelow hlo hhi
      (by simp only [jumpTo]; omega)

/-- A return from the segment's frame, whose function returns a value exactly when the code was
emitted for one that does, finds its result above the floor; afterwards the frame is gone. -/
theorem outcome_ret (h : σ.Past d fr j s s₁) (hL : σ.Loaded x rv) (hx : s.program = x)
    (hfit : (⟨.ret, callee⟩ : Annotated).Fits σ.start (σ.start + σ.code.length) rv d
      (σ.start + j)) :
    σ.Outcome x c d ((VmM.execute .ret).run s₁) := by
  obtain ⟨hneeds, -⟩ := hfit
  simp only [Annotated.needs] at hneeds
  have hbase := h.active.base
  have hheight := h.height
  have hrun : (VmM.execute .ret).run s₁ = VmM.ret.run s₁ := by
    simp only [VmM.execute, EStateM.run_bind, EStateM.run_get]
  -- the function the frame runs, compiled since it holds the code
  obtain ⟨f, hf⟩ : ∃ f, x.function? σ.function = some f := by
    obtain ⟨code, hcode, -⟩ := hL.code
    cases hf : x.function? σ.function with
    | none => simp [Executable.code?, hf] at hcode
    | some f => exact ⟨f, rfl⟩
  have hresult : (!f.type.ret.isVoid).toNat = rv.toNat := by rw [hL.returns f hf, Bool.not_not]
  have hback₁ : s₁.frames.back? = some { fr with ip := σ.start + j + 1 } := by
    rw [h.frames]
    exact back?_jumpTo (back?_of_last h.top h.active.frame) _
  have hf₁ : s₁.program.function? ({ fr with ip := σ.start + j + 1 } : Frame).function = some f := by
    rw [h.program, hx, h.active.function, hf]
  obtain ⟨herror, hok⟩ := VmM.ret_run hback₁ hf₁ (by rw [h.floor, h.stack]; omega)
  rw [hrun]
  cases hr : VmM.ret.run s₁ with
  | error e s' => exact herror (by rw [h.floor, h.stack, hresult]; omega) e s' hr
  | ok st s' =>
    intro hLs
    obtain ⟨hframes, -⟩ := hok st s' hr
    refine ⟨hLs, .inl ?_⟩
    rw [hframes, Array.size_pop, h.frames]
    simp [jumpTo, h.top]

/-- A call reaches a function that agrees with its call site, or fails as a call of something not
callable. An intrinsic callee leaves its result where the call's operands began; a compiled one
runs in a frame whose stack begins there. -/
theorem outcome_call (h : σ.Past d fr j s s₁) {n : Nat} {ft : FunctionType}
    (hget : σ.code[j]? = some ⟨.call n, some ft⟩) (hagree : σ.CallsAgree s)
    (hfit : (⟨.call n, some ft⟩ : Annotated).Fits σ.start (σ.start + σ.code.length) rv d
      (σ.start + j)) :
    σ.Outcome x c d ((VmM.execute (.call n)).run s₁) := by
  obtain ⟨hneeds, ft', hft, rfl, hnext⟩ := hfit
  cases hft
  simp only [Annotated.needs] at hneeds hnext
  have hbase := h.active.base
  have hheight := h.height
  have hlt := h.lt
  have hrun : (VmM.execute (.call ft.params.length)).run s₁ =
      (VmM.call ft.params.length >>= fun _ => pure Status.running).run s₁ := rfl
  rw [hrun, EStateM.run_bind]
  by_cases hcallable : ∃ address f, s₁.stack.back? = some (.pointer address) ∧
      s₁.program.function? address.toNat = some f
  · obtain ⟨address, f, htop, hf⟩ := hcallable
    have hag : f.type.Agrees ft := hagree fr j _ ft address f h.top h.active.frame h.ip hget
      (h.stack ▸ htop) (h.program ▸ hf)
    have hroom : s₁.floor + (ft.params.length + 1 + f.type.isInstance.toNat) ≤ s₁.stack.size := by
      rw [h.floor, h.stack, hag.isInstance]
      omega
    have hout := VmM.call_run ft.params.length htop hf hroom
    -- the callee's operands began here
    have hH : s₁.stack.size - (ft.params.length + 1 + f.type.isInstance.toNat) =
        σ.below.size + d (σ.start + j) - (ft.params.length + 1 + ft.isInstance.toNat) := by
      rw [h.stack, hheight, hag.isInstance]
    rw [hH] at hout
    cases hr : (VmM.call ft.params.length).run s₁ with
    | error e s' =>
      rw [hr] at hout
      exact hout
    | ok u s' =>
      rw [hr] at hout
      obtain ⟨hprogram, htake, ⟨base, stop, hframes, hsize⟩ | ⟨hframes, hsize⟩⟩ := hout
      · -- the callee runs in a new frame above the segment's
        intro hL
        have hk₁ : s₁.frames.size = σ.frame + 1 := by
          rw [h.frames]
          simpa [jumpTo] using h.top
        refine ⟨hL, .inr ⟨{ fr with ip := σ.start + j + 1 }, ⟨?_, h.active.function,
          h.active.base, ?_⟩, .inr ⟨j, ft, ⟨address.toNat, 0, base, stop,
            σ.below.size + d (σ.start + j) - (ft.params.length + 1 + ft.isInstance.toNat)⟩,
            f, hlt, rfl, hget, ?_, ?_, ?_, hag.ret⟩⟩⟩
        · rw [hframes, Array.getElem?_push, if_neg (by omega), h.frames]
          exact getElem?_jumpTo_last h.top h.active.frame _
        · rw [take_eq_of_take_eq (by omega) htake, h.stack, h.active.below]
        · rw [hframes, Array.getElem?_push, if_pos (by omega)]
        · simp only
          omega
        · simpa [hprogram, h.program] using hf
      · -- an intrinsic callee left its result in place of the operands
        intro hL
        refine stands_at h.active h.top hL (hframes.trans h.frames) ?_ (by omega) (by omega) ?_
        · rw [take_eq_of_take_eq (by omega) htake, h.stack, h.active.below]
        · rw [hsize, hag.ret]
          omega
  · obtain ⟨v, s', hr⟩ := VmM.call_notCallable ft.params.length
      (by rw [h.floor, h.stack]; omega) hcallable
    rw [hr]
    intro h
    cases h

end Past

theorem outcome_here (hL : σ.Loaded x rv) (hd : StackMap σ.code σ.start rv d)
    (hs : s.Layout x c) (hact : σ.Active fr s)
    (hat : σ.AtCode d fr s) (hin : fr.ip < σ.start + σ.code.length) (hagree : σ.CallsAgree s) :
    σ.Outcome x c d (VmM.step.run s) := by
  obtain ⟨hk, hlo, -, hsize⟩ := hat
  obtain ⟨code, hcode, hcodeAt⟩ := hL.code
  obtain ⟨j, hip⟩ : ∃ j, fr.ip = σ.start + j := ⟨fr.ip - σ.start, by omega⟩
  have hj : j < σ.code.length := by omega
  have hback := back?_of_last hk hact.frame
  have hinstr : s.instrAt? fr = some σ.code[j].instr := by
    simp only [instrAt?, hs.program, hact.function, hcode, Option.bind_some, hip, hcodeAt j hj]
  have hpast : σ.Past d fr j s { s.advance with steps := s.steps + 1 } :=
    ⟨hact, hk, hip, hj, hip ▸ hsize, by rw [← hip]; exact advance_frames hback, rfl, rfl⟩
  have hget : σ.code[j]? = some σ.code[j] := List.getElem?_eq_getElem hj
  have hfit := hd j hj
  rw [VmM.step_run, hback]
  simp only [hinstr]
  generalize σ.code[j] = y at hget hfit
  cases hctl : y.instr.transfersControl
  case false => exact hpast.outcome_plain hctl hfit
  obtain ⟨instr, callee⟩ := y
  cases instr <;> simp [Instr.transfersControl] at hctl
  case jump t => exact hpast.outcome_jump hfit
  case branchIfFalse t => exact hpast.outcome_branch hfit
  case call n =>
    obtain ⟨ft, rfl⟩ : ∃ ft, callee = some ft := by
      obtain ⟨-, ft, hft, -⟩ := hfit
      exact ⟨ft, hft⟩
    exact hpast.outcome_call hget hagree hfit
  case ret => exact hpast.outcome_ret hL hs.program hfit

theorem stands_called (hd : StackMap σ.code σ.start rv d) (hs : s.Layout x c)
    (hact : σ.Active fr s)
    (hcall : σ.InCall d fr s) {st : Status} (hstep : VmM.step.run s = .ok st s')
    (hs' : s'.Layout x c) : σ.Stands x c d s' := by
  obtain ⟨j, ft, g, f, hj, hip, hget, hg, hgbase, hgf, hret⟩ := hcall
  have hk : σ.frame + 1 < s.frames.size := (Array.getElem?_eq_some_iff.mp hg).1
  -- the call's operands lie above the stack the segment was entered with
  have hfit := hd j hj
  rw [List.getElem?_eq_getElem hj, Option.some.injEq] at hget
  rw [hget] at hfit
  obtain ⟨hneeds, ft', hft', -, hnext⟩ := hfit
  obtain rfl := Option.some.inj hft'
  simp only [Annotated.needs] at hneeds hnext
  have hbelow : σ.below.size ≤ g.stackBase := by omega
  obtain ⟨top, hback⟩ : ∃ top, s.frames.back? = some top :=
    ⟨_, Array.back?_eq_getElem? ▸ Array.getElem?_eq_getElem (by omega)⟩
  have hgtop : g.stackBase ≤ top.stackBase := floor_of_back hback ▸ hs.stackBase_le_floor hg
  have htop : s.frames.size = σ.frame + 2 → top = g := fun hsize => by
    have hlast := (back?_eq_some hback).1
    have hindex : s.frames.size - 1 = σ.frame + 1 := by omega
    rw [hindex, hg] at hlast
    exact (Option.some.inj hlast).symm
  rw [VmM.step_run, hback] at hstep
  cases hi : s.instrAt? top with
  | none => simp only [hi] at hstep; cases hstep
  | some i =>
    simp only [hi] at hstep
    set s₁ : Interpreter := { s.advance with steps := s.steps + 1 }
    have hL₁ : s₁.Layout x c := hs.advance.of_local ⟨rfl, rfl, rfl, rfl, id, fun _ => rfl⟩
    have hframes₁ : s₁.frames = (s.jumpTo (top.ip + 1)).frames := advance_frames hback
    have hfloor₁ : s₁.floor = top.stackBase := (floor_moveIp _ _).trans (floor_of_back hback)
    have hsize₁ : s₁.frames.size = s.frames.size := by simp [hframes₁, jumpTo]
    have hframe₁ : s₁.frames[σ.frame]? = some fr := by
      rw [hframes₁, getElem?_jumpTo_of_lt hk, hact.frame]
    by_cases hreturn : s.frames.size = σ.frame + 2 ∧ i = .ret
    · -- the callee returns to the segment's frame
      obtain ⟨hsize, rfl⟩ := hreturn
      obtain rfl := htop hsize
      have hback₁ : s₁.frames.back? = some { top with ip := top.ip + 1 } := by
        rw [hframes₁]
        exact back?_jumpTo hback _
      have hrun : (VmM.execute .ret).run s₁ = VmM.ret.run s₁ := by
        simp only [VmM.execute, EStateM.run_bind, EStateM.run_get]
      obtain ⟨-, hok⟩ := VmM.ret_run hback₁ hgf hL₁.floor
      obtain ⟨hframes', -, htake', hsize'⟩ := hok st s' (hrun ▸ hstep)
      have hsize'' : s'.frames.size = σ.frame + 1 := by
        rw [hframes', Array.size_pop, hsize₁]
        omega
      refine ⟨hs', .inr ⟨fr, ⟨?_, hact.function, hact.base, ?_⟩,
        .inl ⟨hsize'', by omega, by omega, ?_⟩⟩⟩
      · rw [hframes', Array.getElem?_pop, if_pos (by omega), hframe₁]
      · rw [take_eq_of_take_eq hbelow htake']
        exact hact.below
      · have hresult := hsize'
          (by rw [Bool.eq_false_iff, ne_eq, Array.isEmpty_iff_size_eq_zero]; omega)
        dsimp only at hresult
        rw [hresult, hret, hip]
        omega
    · -- any other step leaves the callee's frame in place
      have hmoves := VmM.execute_moves i hL₁.floor
      rw [hstep, VmM.final_ok] at hmoves
      have hk' : s'.frames[σ.frame]? = some fr := by
        rw [hmoves.getElem?_of_lt (by omega), hframe₁]
      obtain ⟨g', hg', hfun', hbase'⟩ : ∃ g', s'.frames[σ.frame + 1]? = some g' ∧
          g'.function = g.function ∧ g'.stackBase = g.stackBase := by
        by_cases hlast : σ.frame + 2 < s.frames.size
        · refine ⟨g, ?_, rfl, rfl⟩
          rw [hmoves.getElem?_of_lt (by omega), hframes₁, getElem?_jumpTo_of_lt hlast, hg]
        · have hsize : s.frames.size = σ.frame + 2 := by omega
          obtain rfl := htop hsize
          have hle := VmM.size_le_execute (fun h => hreturn ⟨hsize, h⟩) s₁
          rw [hstep, VmM.final_ok] at hle
          have hg₁ : s₁.frames[s₁.frames.size - 1]? = some { top with ip := top.ip + 1 } := by
            rw [hframes₁]
            exact (back?_eq_some (back?_jumpTo hback _)).1
          obtain ⟨g', hg', hfun', hbase'⟩ := hmoves.getElem?_last hle hg₁
          rw [hsize₁, hsize] at hg'
          exact ⟨g', hg', hfun', hbase'⟩
      have htake : s'.stack.take σ.below.size = σ.below := by
        rw [take_eq_of_take_eq (by omega) (hmoves.below hL₁.floor)]
        exact hact.below
      refine ⟨hs', .inr ⟨fr, ⟨hk', hact.function, hact.base, htake⟩,
        .inr ⟨j, ft, g', f, hj, hip, by rw [List.getElem?_eq_getElem hj, hget], hg',
          by rw [hbase']; exact hgbase, ?_, hret⟩⟩⟩
      rw [hfun', hs'.program, ← hs.program]
      exact hgf

theorem Enters.stands {s₀ : Interpreter} (h₀ : σ.Enters x c s₀) (hstart : d σ.start = 0) :
    σ.Stands x c d s₀ := by
  obtain ⟨hs, htop, ⟨fr, hfr, hfun, hip⟩, hbelow⟩ := h₀
  have hbase : fr.stackBase ≤ σ.below.size := by
    rw [← floor_of_back (back?_of_last htop hfr), ← hbelow]
    exact hs.floor
  exact ⟨hs, .inr ⟨fr, ⟨hfr, hfun, hbase, by rw [← hbelow]; exact Array.extract_size⟩,
    .inl ⟨htop, by omega, by omega, by rw [hip, hstart, hbelow, Nat.add_zero]⟩⟩⟩

variable (hL : σ.Loaded x rv) (hd : StackMap σ.code σ.start rv d)
include hL hd

/-- The segment keeps standing along a step taken with control in it and with calls that
agree. -/
theorem Stands.step (hst : σ.Stands x c d s) (hin : σ.InCode s) (hagree : σ.CallsAgree s)
    {st : Status} (hstep : VmM.step.run s = .ok st s') : σ.Stands x c d s' := by
  obtain ⟨hs, hleft | ⟨fr, hact, hat | hcall⟩⟩ := hst
  · -- a frame that has returned is not in the code
    rcases hin with hin | ⟨hin, -⟩ <;> omega
  all_goals have hs' : s'.Layout x c := by simpa [hstep] using hs.step
  · have hip : fr.ip < σ.start + σ.code.length := by
      rcases hin with hin | ⟨-, hin⟩
      · have := hat.1
        omega
      · exact hin fr hact.frame
    have hout := outcome_here hL hd hs hact hat hip hagree
    rw [hstep] at hout
    exact hout hs'
  · exact stands_called hd hs hact hcall hstep hs'

theorem Run.stands {s₀ : Interpreter} (h₀ : σ.Stands x c d s₀) (hrun : σ.Run s₀ s) :
    σ.Stands x c d s := by
  induction hrun with
  | start => exact h₀
  | step _ hin hagree hstep ih => exact ih.step hL hd hin hagree hstep

theorem Stands.step_error (hst : σ.Stands x c d s) (hin : σ.InCode s)
    (htop : s.frames.size = σ.frame + 1) (hagree : σ.CallsAgree s) {e : VmError}
    (hstep : VmM.step.run s = .error e s') : e ≠ .stackUnderflow := by
  obtain ⟨hs, hleft | ⟨fr, hact, hat | ⟨j, ft, g, f, -, -, -, hg, -⟩⟩⟩ := hst
  · omega
  · have hip : fr.ip < σ.start + σ.code.length := by
      rcases hin with hin | ⟨-, hin⟩
      · omega
      · exact hin fr hact.frame
    have hout := outcome_here hL hd hs hact hat hip hagree
    rw [hstep] at hout
    exact hout
  · -- a frame waiting for a call is not the top one
    have := (Array.getElem?_eq_some_iff.mp hg).1
    omega

theorem Stands.disciplined {q : Nat} (hq : d (σ.start + σ.code.length) = q)
    (hst : σ.Stands x c d s) : σ.Disciplined rv q s where
  below hk := by
    obtain ⟨hs, hleft | ⟨fr, hact, hat | ⟨j, ft, g, f, hj, -, hget, hg, hgbase, -⟩⟩⟩ := hst
    · omega
    · exact ⟨hact.below, by rw [hat.2.2.2]; omega⟩
    · -- the callee's stack begins above the stack the segment was entered with
      have hneeds := (hd j hj).1
      rw [List.getElem?_eq_getElem hj, Option.some.injEq] at hget
      rw [hget] at hneeds
      simp only [Annotated.needs] at hneeds
      have hfloor := hs.stackBase_le_floor hg
      exact ⟨hact.below, by have := hs.floor; omega⟩
  operands fr j hj htop hfr hip := by
    obtain ⟨-, hleft | ⟨fr', hact, hat | ⟨-, -, g, -, -, -, -, hg, -⟩⟩⟩ := hst
    · omega
    · rw [hact.frame, Option.some.injEq] at hfr
      subst hfr
      rw [hat.2.2.2, hip]
      have := (hd j hj).1
      omega
    · have := (Array.getElem?_eq_some_iff.mp hg).1
      omega
  finish fr htop hfr hip := by
    obtain ⟨-, hleft | ⟨fr', hact, hat | ⟨-, -, g, -, -, -, -, hg, -⟩⟩⟩ := hst
    · omega
    · rw [hact.frame, Option.some.injEq] at hfr
      subst hfr
      rw [hat.2.2.2, hip, hq]
    · have := (Array.getElem?_eq_some_iff.mp hg).1
      omega
  faults hin hagree htop _ _ hstep := hst.step_error hL hd hin htop hagree hstep

omit hd in
/-- Every state of a run of code that moves any stack by `q`, entered from a state that enters it,
keeps the discipline. -/
theorem Run.disciplined {q : Nat} (hsh : Shifts rv σ.code σ.start 0 q) {s₀ : Interpreter}
    (h₀ : σ.Enters x c s₀) (hrun : σ.Run s₀ s) : σ.Disciplined rv q s := by
  obtain ⟨d, hd, hstart, hend⟩ := hsh 0 le_rfl
  exact (hrun.stands hL hd (h₀.stands hstart)).disciplined hL hd (by rw [hend]; omega)

end Segment

theorem Shifts.target_mem {rv : Bool} {code : List Annotated} {a p q : Nat}
    (h : Shifts rv code a p q) {j : Nat} (hj : j < code.length) {t : Nat}
    (ht : code[j].instr = .jump t ∨ code[j].instr = .branchIfFalse t) :
    a ≤ t ∧ t ≤ a + code.length := by
  obtain ⟨d, hd, -⟩ := h p le_rfl
  obtain ⟨-, hfit⟩ := hd j hj
  generalize code[j] = y at ht hfit
  obtain ⟨instr, callee⟩ := y
  rcases ht with ht | ht <;> simp only at ht <;> subst ht
  · exact ⟨hfit.1, hfit.2.1⟩
  · exact ⟨hfit.1, hfit.2.1⟩

/-- Code placed from instruction `start` on keeps the stack discipline, moving the stack by `q`, in
a function that returns a value when `rv`: its jumps and branches go inside it or just past its
end, and every run of it, from a state that enters it over any stack, keeps the discipline. -/
structure StackDisciplined (rv : Bool) (code : List Annotated) (start q : Nat) : Prop where
  targets : ∀ j (hj : j < code.length) t,
    code[j].instr = .jump t ∨ code[j].instr = .branchIfFalse t → start ≤ t ∧ t ≤ start + code.length
  runs : ∀ (σ : Segment) (x : Executable) (c : InterpreterConfig) (s₀ s : Interpreter),
    σ.code = code → σ.start = start → σ.Loaded x rv → σ.Enters x c s₀ → σ.Run s₀ s →
      σ.Disciplined rv q s

/-- Code that moves any height by `q`, with heights that fit it, keeps the stack discipline. -/
theorem Shifts.stackDisciplined {rv : Bool} {code : List Annotated} {start q : Nat}
    (h : Shifts rv code start 0 q) : StackDisciplined rv code start q where
  targets _ hj _ ht := h.target_mem hj ht
  runs σ _ _ _ _ hcode hstart hL h₀ hrun := by
    subst hcode hstart
    exact Segment.Run.disciplined hL h h₀ hrun

end CStack
