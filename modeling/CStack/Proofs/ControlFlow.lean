import Mathlib
import CStack.Proofs.CodeGrowth
import CStack.Proofs.StepCases
import CStack.Proofs.FrameLayout

/-!
# Running short-circuit and structured control flow

The code of `l && r`, `l || r`, `if` and `while` is the code of the parts with branches and jumps
around it (`logicalLayout`, `ifLayout`, `whileLayout`). This module runs that code in the
interpreter. The parts are arbitrary code, so what they do is taken as given: a part's code, run
from the instruction it starts at, reaches the instruction after it in the same frame
(`Continues`), having pushed its value if it is an expression. From there the branches around the
parts decide which part runs next and where the whole ends up, each in a fixed number of steps:

* after the left side of `&&` has left a falsy value, or that of `||` a truthy one, the end is
  reached with `0` or `1` and the right side never runs; otherwise one step starts the right side
  on the stack as it was, and once it has left its value, the end is reached with `1` or `0` for
  that value (`ShortCircuits`);
* after the condition of an `if`, one step starts the then-branch on a truthy value and the
  else-branch, or the end, on a falsy one, and a finished then-branch continues at the end
  (`Branches`);
* a `while` loop runs as the inductive `LoopRuns` says a loop runs: the condition, then on a
  truthy value the body and the loop again, and on the first falsy value the end (`Loops`).

Together with the layouts the emitter produces, `controlFlow_runs` states this of emitted code.
-/
namespace CStack

namespace Interpreter

/-- `s` runs to `t` in `n` steps, each of which leaves the program running. -/
inductive RunsIn : Nat → Interpreter → Interpreter → Prop
  | refl (s : Interpreter) : RunsIn 0 s s
  | step {s t u : Interpreter} {n : Nat} :
      VmM.step.run s = .ok .running t → RunsIn n t u → RunsIn (n + 1) s u

namespace RunsIn

variable {s t u : Interpreter} {m n : Nat}

theorem one (h : VmM.step.run s = .ok .running t) : RunsIn 1 s t := .step h (.refl t)

theorem trans (h₁ : RunsIn m s t) (h₂ : RunsIn n t u) : RunsIn (m + n) s u := by
  induction h₁ with
  | refl => simpa using h₂
  | step hs _ ih =>
    rw [Nat.add_right_comm]
    exact .step hs (ih h₂)

end RunsIn

/-- The current frame's function holds the instructions `seg` from index `a` on. -/
def CodeAt (s : Interpreter) (a : Nat) (seg : List Instr) : Prop :=
  ∃ f code, s.frames.back? = some f ∧ s.program.code? f.function = some code ∧
    ∀ i (hi : i < seg.length), code[a + i]? = some seg[i]

/-- `t` is `s` with its current frame continued at instruction `i` and the operand stack `stack`:
the program and the frames are those of `s`, but for the current frame's instruction. Memory,
notes, the result and the step count may differ. -/
structure Continues (t s : Interpreter) (i : Nat) (stack : Array Value) : Prop where
  program : t.program = s.program
  frames : t.frames = (s.jumpTo i).frames
  stack : t.stack = stack

/-- `t` moved on to instruction `i` with the operand stack `stack`, `n` steps later. -/
def resume (t : Interpreter) (i : Nat) (stack : Array Value) (n : Nat) : Interpreter :=
  { t with stack, steps := t.steps + n }.jumpTo i

/-! ### Moving the current frame -/

variable {s t u : Interpreter} {a i j : Nat} {st : Array Value}

theorem jumpTo_jumpTo (s : Interpreter) (i j : Nat) : (s.jumpTo i).jumpTo j = s.jumpTo j := by
  simp only [jumpTo, Array.size_modify, Interpreter.mk.injEq, and_true, true_and]
  apply Array.ext (by simp)
  intro k _ _
  simp only [Array.getElem_modify]
  split <;> rfl

theorem back?_jumpTo {f : Frame} (h : s.frames.back? = some f) (i : Nat) :
    (s.jumpTo i).frames.back? = some { f with ip := i } := by
  rw [Array.back?_eq_getElem?] at h ⊢
  simp only [jumpTo, Array.size_modify, Array.getElem?_modify, h, if_true, Option.map_some]

theorem floor_jumpTo (s : Interpreter) (i : Nat) : (s.jumpTo i).floor = s.floor :=
  floor_moveIp _ fun _ => i

theorem resume_jumpTo (t : Interpreter) (i j : Nat) (stack : Array Value) (n : Nat) :
    (t.resume i stack n).jumpTo j = t.resume j stack n :=
  jumpTo_jumpTo _ i j

theorem resume_resume (t : Interpreter) (i j : Nat) (stack stack' : Array Value) (n m : Nat) :
    (t.resume i stack n).resume j stack' m = t.resume j stack' (n + m) := by
  have hframes := congrArg Interpreter.frames (jumpTo_jumpTo t i j)
  cases t
  simp only [Interpreter.resume, Interpreter.jumpTo, Array.size_modify] at hframes ⊢
  rw [hframes, Nat.add_assoc]

namespace Continues

theorem floor (h : t.Continues s i st) : t.floor = s.floor := by
  rw [floor_congr h.frames, floor_jumpTo]

theorem resume (h : t.Continues s i st) (j : Nat) (stack : Array Value) (n : Nat) :
    (t.resume j stack n).Continues s j stack where
  program := h.program
  frames := by
    simp only [Interpreter.resume, Interpreter.jumpTo, h.frames]
    exact congrArg Interpreter.frames (jumpTo_jumpTo s i j)
  stack := rfl

theorem resume_self (h : t.Continues s i st) : t.resume i st 0 = t := by
  have hframes : (t.jumpTo i).frames = t.frames := by
    simp only [Interpreter.jumpTo, h.frames]
    exact congrArg Interpreter.frames (jumpTo_jumpTo s i i)
  obtain ⟨-, -, rfl⟩ := h
  cases t
  simp only [Interpreter.resume, Interpreter.jumpTo, Nat.add_zero] at hframes ⊢
  rw [hframes]

theorem trans (h₁ : t.Continues s i st) {st' : Array Value} (h₂ : u.Continues t j st') :
    u.Continues s j st' where
  program := h₂.program.trans h₁.program
  frames := by
    rw [h₂.frames]
    simp only [Interpreter.jumpTo, h₁.frames]
    exact congrArg Interpreter.frames (jumpTo_jumpTo s i j)
  stack := h₂.stack

theorem advance_eq (h : t.Continues s i st) :
    { t.advance with steps := t.steps + 1 } = t.resume (i + 1) t.stack 1 := by
  have hframes : t.advance.frames = (t.jumpTo (i + 1)).frames := by
    apply Array.ext (by simp [Interpreter.advance, Interpreter.jumpTo])
    intro k hk _
    simp only [Interpreter.advance, Interpreter.jumpTo, Array.getElem_modify]
    split
    · rename_i hlast
      have hk' : k < t.frames.size := by simpa [Interpreter.advance] using hk
      have hip : t.frames[k].ip = i := by
        simp only [h.frames, Interpreter.jumpTo, Array.size_modify] at hlast ⊢
        simp [Array.getElem_modify, hlast]
      simp [hip]
    · rfl
  cases t
  simp only [Interpreter.advance, Interpreter.jumpTo, Interpreter.resume] at hframes ⊢
  rw [hframes]

theorem step_run (h : t.Continues s i st) {x : Instr} {rest : List Instr}
    (hcode : s.CodeAt i (x :: rest)) :
    VmM.step.run t = (VmM.execute x).run (t.resume (i + 1) t.stack 1) := by
  obtain ⟨f, code, hback, hfun, hseg⟩ := hcode
  have hx : code[i]? = some x := by
    have h0 := hseg 0 (Nat.succ_pos _)
    rwa [Nat.add_zero, List.getElem_cons_zero] at h0
  have htback : t.frames.back? = some { f with ip := i } := h.frames ▸ back?_jumpTo hback i
  have hinstr : t.instrAt? { f with ip := i } = some x := by
    simp only [instrAt?, h.program, hfun, Option.bind_some, hx]
  rw [VmM.step_run]
  simp only [htback, hinstr]
  rw [h.advance_eq]

theorem step_loadConstant (h : t.Continues s i st) {v : Value} {rest : List Instr}
    (hcode : s.CodeAt i (.loadConstant v :: rest)) :
    VmM.step.run t = .ok .running (t.resume (i + 1) (st.push v) 1) := by
  rw [h.step_run hcode, h.stack]
  rfl

theorem step_jump (h : t.Continues s i st) {target : Nat} {rest : List Instr}
    (hcode : s.CodeAt i (.jump target :: rest)) :
    VmM.step.run t = .ok .running (t.resume target st 1) := by
  rw [h.step_run hcode, VmM.execute_jump, resume_jumpTo, h.stack]

theorem step_branchIfFalse {v : Value} (h : t.Continues s i (st.push v))
    (hfloor : s.floor ≤ st.size) {target : Nat} {rest : List Instr}
    (hcode : s.CodeAt i (.branchIfFalse target :: rest)) :
    VmM.step.run t = .ok .running (t.resume (if v.truthy then i + 1 else target) st 1) := by
  have hmoved := h.resume (i + 1) t.stack 1
  have hstack : (t.resume (i + 1) t.stack 1).stack = st.push v := hmoved.stack.trans h.stack
  have habove : (t.resume (i + 1) t.stack 1).floor < (t.resume (i + 1) t.stack 1).stack.size := by
    rw [hmoved.floor, hstack, Array.size_push]
    omega
  rw [h.step_run hcode, VmM.execute_branchIfFalse, if_pos habove, hstack, Array.back?_push,
    Option.getD_some, Array.pop_push]
  have hpop : ({ t.resume (i + 1) t.stack 1 with stack := st } : Interpreter) =
      t.resume (i + 1) st 1 := rfl
  cases v.truthy with
  | true => rw [if_pos rfl, if_pos rfl, hpop]
  | false =>
    rw [if_neg Bool.false_ne_true, if_neg Bool.false_ne_true, hpop, resume_jumpTo]

end Continues

namespace CodeAt

theorem append_right {p q : List Instr} (h : s.CodeAt a (p ++ q)) : s.CodeAt (a + p.length) q := by
  obtain ⟨f, code, hback, hfun, hseg⟩ := h
  refine ⟨f, code, hback, hfun, fun k hk => ?_⟩
  have hk' := hseg (p.length + k) (by simp; omega)
  rw [List.getElem_append_right (by omega)] at hk'
  simpa [Nat.add_assoc] using hk'

theorem tail {x : Instr} {rest : List Instr} (h : s.CodeAt a (x :: rest)) :
    s.CodeAt (a + 1) rest :=
  h.append_right (p := [x])

end CodeAt

end Interpreter

/-! ### Short-circuit code -/

/-- What a short-circuit operator computes from the truth of its two sides. -/
def LogicalOp.eval : LogicalOp → Bool → Bool → Bool
  | .and, l, r => l && r
  | .or, l, r => l || r

/-- Whether the truth of the left side alone decides: false for `&&`, true for `||`. -/
def LogicalOp.decides : LogicalOp → Bool → Bool
  | .and, l => !l
  | .or, l => l

theorem LogicalOp.eval_of_decides {op : LogicalOp} {l : Bool} (h : op.decides l = true) (r : Bool) :
    op.eval l r = l := by
  cases op <;> cases l <;> simp_all [decides, eval]

theorem LogicalOp.eval_of_not_decides {op : LogicalOp} {l : Bool} (h : op.decides l = false)
    (r : Bool) : op.eval l r = r := by
  cases op <;> cases l <;> simp_all [decides, eval]

theorem Value.convert_one {k : Kind} (hk : k.isFloat = false) :
    (Value.int64 1).convert k = Value.ofBool k true := by
  cases k <;> simp only [Kind.isFloat, Bool.true_eq_false] at hk <;> decide

theorem Value.zero_eq_ofBool (k : Kind) : Value.zero k = Value.ofBool k false := rfl

theorem Kind.isFloat_of_integer? {n : Nat} {signed : Bool} {k : Kind}
    (h : Kind.integer? n signed = some k) : k.isFloat = false := by
  unfold Kind.integer? at h
  split at h <;> cases h <;> rfl

theorem EmitEnv.intKind_isFloat (env : EmitEnv) : env.intKind.isFloat = false := by
  have hint : BasicName.int.isFloat = false := rfl
  unfold EmitEnv.intKind CType.int
  simp only [CType.valueKind?, Option.getD_some, BasicType.valueKind, BasicType.kind,
    BasicType.make, hint, Bool.false_eq_true, if_false]
  cases h : Kind.integer? _ _ with
  | none => rfl
  | some k => exact Kind.isFloat_of_integer? h

namespace Interpreter

variable {s t u : Interpreter} {a i : Nat} {st : Array Value}

theorem runsIn_truthTail {k : Kind} (hk : k.isFloat = false) {w : Value}
    (hu : u.Continues s i (st.push w)) (hfloor : s.floor ≤ st.size)
    (hcode : s.CodeAt i [.branchIfFalse (i + 3), .loadConstant ((Value.int64 1).convert k),
      .jump (i + 3 + 1), .loadConstant (Value.zero k)]) :
    RunsIn (if w.truthy then 3 else 2) u
      (u.resume (i + 4) (st.push (Value.ofBool k w.truthy)) (if w.truthy then 3 else 2)) := by
  have hbranch := hu.step_branchIfFalse hfloor hcode
  cases hw : w.truthy with
  | true =>
    rw [hw, if_pos rfl] at hbranch
    have hone := (hu.resume (i + 1) st 1).step_loadConstant hcode.tail
    have hjump := ((hu.resume (i + 1) st 1).resume (i + 2)
      (st.push ((Value.int64 1).convert k)) 1).step_jump
      hcode.tail.tail
    simp only [resume_resume, Value.convert_one hk] at hone hjump
    simp only [if_true]
    exact .step hbranch (.step hone (.one hjump))
  | false =>
    rw [hw, if_neg Bool.false_ne_true] at hbranch
    have hzero := (hu.resume (i + 3) st 1).step_loadConstant hcode.tail.tail.tail
    rw [resume_resume, Value.zero_eq_ofBool] at hzero
    simp only [Bool.false_eq_true, if_false]
    exact .step hbranch (.one hzero)

/-- How the short-circuit code `logicalLayout k op a ls rs` runs in an interpreter whose current
function holds it at `a`, once its left side has left `v` on the stack. When `v` decides, at most
three steps reach the end with `1` or `0` for `v`, and the right side does not run. Otherwise one
step starts the right side on the stack as it was, and once the right side has left `w`, at most
three steps reach the end with `1` or `0` for what the operator makes of `v` and `w`. -/
def ShortCircuits (k : Kind) (op : LogicalOp) (a : Nat) (ls rs : List Instr) : Prop :=
  ∀ ⦃s t : Interpreter⦄ ⦃v : Value⦄, s.CodeAt a (logicalLayout k op a ls rs) →
    s.floor ≤ s.stack.size → t.Continues s (a + ls.length) (s.stack.push v) →
    (op.decides v.truthy = true →
      ∃ n ≤ 3, RunsIn n t (t.resume (a + (logicalLayout k op a ls rs).length)
        (s.stack.push (Value.ofBool k v.truthy)) n)) ∧
    (op.decides v.truthy = false →
      RunsIn 1 t (t.resume (a + ls.length + (if op = .or then 3 else 1)) s.stack 1) ∧
      ∀ ⦃u : Interpreter⦄ ⦃w : Value⦄,
        u.Continues s (a + ls.length + (if op = .or then 3 else 1) + rs.length) (s.stack.push w) →
        ∃ n ≤ 3, RunsIn n u (u.resume (a + (logicalLayout k op a ls rs).length)
          (s.stack.push (Value.ofBool k (op.eval v.truthy w.truthy))) n))

theorem logicalLayout_shortCircuits {k : Kind} (hk : k.isFloat = false) (op : LogicalOp)
    (a : Nat) (ls rs : List Instr) : ShortCircuits k op a ls rs := by
  intro s t v hcode hfloor ht
  have hend : a + (logicalLayout k op a ls rs).length =
      a + ls.length + (if op = .or then 3 else 1) + rs.length + 4 := by
    rw [EmitM.length_logicalLayout]
    omega
  rw [hend]
  cases op with
  | and =>
    simp only [logicalLayout, reduceCtorEq, if_false, List.append_assoc, List.cons_append,
      List.nil_append] at hcode ⊢
    have hbranch := hcode.append_right
    have hstep := ht.step_branchIfFalse hfloor hbranch
    refine ⟨fun hd => ?_, fun hd => ⟨?_, fun u w hu => ?_⟩⟩
    · -- a false left side branches to the `0` at the end
      have hv : v.truthy = false := by simpa [LogicalOp.decides] using hd
      rw [hv, if_neg Bool.false_ne_true] at hstep
      have hzero := (ht.resume (a + ls.length + 1 + rs.length + 3) s.stack 1).step_loadConstant
        (hbranch.tail.append_right.append_right (p := [_, _, _]))
      rw [resume_resume, Value.zero_eq_ofBool] at hzero
      refine ⟨2, by omega, ?_⟩
      rw [hv]
      exact .step hstep (.one hzero)
    · have hv : v.truthy = true := by simpa [LogicalOp.decides] using hd
      rw [hv, if_pos rfl] at hstep
      exact .one hstep
    · rw [LogicalOp.eval_of_not_decides hd]
      exact ⟨_, by split <;> omega, runsIn_truthTail hk hu hfloor hbranch.tail.append_right⟩
  | or =>
    simp only [logicalLayout, if_true, List.append_assoc, List.cons_append, List.nil_append]
      at hcode ⊢
    have hbranch := hcode.append_right
    have hstep := ht.step_branchIfFalse hfloor hbranch
    refine ⟨fun hd => ?_, fun hd => ⟨?_, fun u w hu => ?_⟩⟩
    · -- a true left side pushes `1` and jumps to the end
      have hv : v.truthy = true := by simpa [LogicalOp.decides] using hd
      rw [hv, if_pos rfl] at hstep
      have hone := (ht.resume (a + ls.length + 1) s.stack 1).step_loadConstant hbranch.tail
      have hjump := ((ht.resume (a + ls.length + 1) s.stack 1).resume (a + ls.length + 1 + 1)
        (s.stack.push ((Value.int64 1).convert k)) 1).step_jump hbranch.tail.tail
      simp only [resume_resume, Value.convert_one hk] at hone hjump
      refine ⟨3, le_refl 3, ?_⟩
      rw [hv]
      exact .step hstep (.step hone (.one hjump))
    · have hv : v.truthy = false := by simpa [LogicalOp.decides] using hd
      rw [hv, if_neg Bool.false_ne_true] at hstep
      exact .one hstep
    · rw [LogicalOp.eval_of_not_decides hd]
      exact ⟨_, by split <;> omega,
        runsIn_truthTail hk hu hfloor hbranch.tail.tail.tail.append_right⟩

/-! ### `if` and `while` -/

/-- How the code `ifLayout a cs ts es` of an `if` statement runs in an interpreter whose current
function holds it at `a`, once its condition has left `v` on the stack: one step starts the
then-branch when `v` is truthy, and the else-branch, or the end when there is none, when it is
not. A then-branch that finishes continues at the end within a step, and the else-branch ends at
the end. -/
def Branches (a : Nat) (cs ts : List Instr) (es : Option (List Instr)) : Prop :=
  ∀ ⦃s t : Interpreter⦄ ⦃v : Value⦄, s.CodeAt a (ifLayout a cs ts es) →
    s.floor ≤ s.stack.size → t.Continues s (a + cs.length) (s.stack.push v) →
    RunsIn 1 t (t.resume (if v.truthy then a + cs.length + 1
      else a + cs.length + 1 + ts.length + (if es.isSome then 1 else 0)) s.stack 1) ∧
    (∀ ⦃u : Interpreter⦄, u.Continues s (a + cs.length + 1 + ts.length) s.stack →
      ∃ n ≤ 1, RunsIn n u (u.resume (a + (ifLayout a cs ts es).length) s.stack n)) ∧
    a + cs.length + 1 + ts.length + (if es.isSome then 1 else 0) + (es.getD []).length =
      a + (ifLayout a cs ts es).length

theorem ifLayout_branches (a : Nat) (cs ts : List Instr) (es : Option (List Instr)) :
    Branches a cs ts es := by
  intro s t v hcode hfloor ht
  cases es with
  | none =>
    have hend : a + (ifLayout a cs ts none).length = a + cs.length + 1 + ts.length := by
      simp only [ifLayout, List.length_append, List.length_cons]
      omega
    simp only [ifLayout] at hcode
    simp only [hend, Option.isSome_none, Bool.false_eq_true, if_false, Nat.add_zero,
      Option.getD_none, List.length_nil, and_true]
    refine ⟨.one (ht.step_branchIfFalse hfloor hcode.append_right), fun u hu => ?_⟩
    refine ⟨0, Nat.zero_le _, ?_⟩
    rw [hu.resume_self]
    exact .refl u
  | some es =>
    have hend : a + (ifLayout a cs ts (some es)).length =
        a + cs.length + 1 + ts.length + 1 + es.length := by
      simp only [ifLayout, List.length_append, List.length_cons]
      omega
    simp only [ifLayout, List.append_assoc, List.cons_append] at hcode
    simp only [hend, Option.isSome_some, if_true, Option.getD_some, and_true]
    refine ⟨.one (ht.step_branchIfFalse hfloor hcode.append_right), fun u hu => ?_⟩
    exact ⟨1, le_refl 1, .one (hu.step_jump hcode.append_right.tail.append_right)⟩

/-- The runs of the loop `whileLayout a cs bs` in the frame of `s₀`, from a state at the loop's
start to one at its end, as a `while` loop means them: the condition's code runs and leaves a
value; on a falsy value the loop is left, and on a truthy one the body's code runs and the loop
starts over. -/
inductive LoopRuns (s₀ : Interpreter) (a : Nat) (cs bs : List Instr) :
    Interpreter → Interpreter → Prop
  | exit {s t : Interpreter} {v : Value} :
      (∃ n, RunsIn n s t) → t.Continues s₀ (a + cs.length) (s₀.stack.push v) →
      v.truthy = false →
      LoopRuns s₀ a cs bs s (t.resume (a + cs.length + 1 + bs.length + 1) s₀.stack 1)
  | iterate {s t u w : Interpreter} {v : Value} :
      (∃ n, RunsIn n s t) → t.Continues s₀ (a + cs.length) (s₀.stack.push v) →
      v.truthy = true →
      (∃ n, RunsIn n (t.resume (a + cs.length + 1) s₀.stack 1) u) →
      u.Continues s₀ (a + cs.length + 1 + bs.length) s₀.stack →
      LoopRuns s₀ a cs bs (u.resume a s₀.stack 1) w → LoopRuns s₀ a cs bs s w

/-- How the code `whileLayout a cs bs` of a `while` loop runs in an interpreter whose current
function holds it at `a`: every run of `LoopRuns` from the loop's start is a run of the interpreter
that ends at the instruction after the loop with the stack as it was. -/
def Loops (a : Nat) (cs bs : List Instr) : Prop :=
  ∀ ⦃s₀ s w : Interpreter⦄, s₀.CodeAt a (whileLayout a cs bs) → s₀.floor ≤ s₀.stack.size →
    LoopRuns s₀ a cs bs s w →
    (∃ n, RunsIn n s w) ∧ w.Continues s₀ (a + (whileLayout a cs bs).length) s₀.stack

theorem whileLayout_loops (a : Nat) (cs bs : List Instr) : Loops a cs bs := by
  intro s₀ s w hcode hfloor hrun
  have hend : a + (whileLayout a cs bs).length = a + cs.length + 1 + bs.length + 1 := by
    simp only [whileLayout, List.length_append, List.length_cons, List.length_nil]
    omega
  simp only [whileLayout, List.append_assoc, List.cons_append] at hcode
  have hbranch := hcode.append_right
  rw [hend]
  induction hrun with
  | exit hcond ht hv =>
    obtain ⟨n, hn⟩ := hcond
    have hstep := ht.step_branchIfFalse hfloor hbranch
    rw [hv, if_neg Bool.false_ne_true] at hstep
    exact ⟨⟨n + 1, hn.trans (.one hstep)⟩, ht.resume _ _ 1⟩
  | iterate hcond ht hv hbody hu _ ih =>
    obtain ⟨n, hn⟩ := hcond
    obtain ⟨m, hm⟩ := hbody
    have hstep := ht.step_branchIfFalse hfloor hbranch
    rw [hv, if_pos rfl] at hstep
    have hback := hu.step_jump hbranch.tail.append_right
    obtain ⟨⟨k, hk⟩, hw⟩ := ih
    exact ⟨⟨n + 1 + m + 1 + k, (((hn.trans (.one hstep)).trans hm).trans (.one hback)).trans hk⟩,
      hw⟩

end Interpreter

open EmitM Interpreter

/-- Emitted code runs as the control flow of the source means. The code emitted for `l && r` and
`l || r` (after typing the node) is the code of the two sides with the branches of
`logicalLayout` around it, and the code of `if` and `while` is the code of the condition and the
branches with the branches of `ifLayout` and `whileLayout` around it; each part's code is what
emitting it appends where the layout places it. That code runs as `ShortCircuits`, `Branches`
and `Loops` say: the right side of `&&` runs exactly when the left is truthy, and that of `||`
exactly when it is falsy, the result being the `int` `1` or `0`; the then-branch runs exactly on
a truthy condition and the else-branch exactly on a falsy one; a loop runs its body once per
truthy test and stops at the first falsy one; and each ends at the instruction after it. -/
theorem controlFlow_runs (env : EmitEnv) (st : EmitState) :
    (∀ tag span op l r, ∃ st₁ ls rs,
      (((typeOf (.node tag span (.logical op l r))).run env).run st).2 = st₁ ∧
      (((emitExpr l).run env).run st₁).2.function.code = st₁.function.code ++ ls.toArray ∧
      (∃ st₂, st₂.function.code.size =
          st₁.function.code.size + ls.length + (if op = .or then 3 else 1) ∧
        (((emitExpr r).run env).run st₂).2.function.code = st₂.function.code ++ rs.toArray) ∧
      (((emitExpr (.node tag span (.logical op l r))).run env).run st).2.function.code =
        st₁.function.code ++ (logicalLayout env.intKind op st₁.function.code.size ls rs).toArray ∧
      ShortCircuits env.intKind op st₁.function.code.size ls rs) ∧
    (∀ span c t, ∃ cs ts,
      (((emitCondition c).run env).run st).2.function.code = st.function.code ++ cs.toArray ∧
      (∃ st', st'.function.code.size = st.function.code.size + cs.length + 1 ∧
        (((emitStmt t).run env).run st').2.function.code = st'.function.code ++ ts.toArray) ∧
      (((emitStmt (.node span (.ite c t none))).run env).run st).2.function.code =
        st.function.code ++ (ifLayout st.function.code.size cs ts none).toArray ∧
      Branches st.function.code.size cs ts none) ∧
    (∀ span c t e, ∃ cs ts es,
      (((emitCondition c).run env).run st).2.function.code = st.function.code ++ cs.toArray ∧
      (∃ st', st'.function.code.size = st.function.code.size + cs.length + 1 ∧
        (((emitStmt t).run env).run st').2.function.code = st'.function.code ++ ts.toArray) ∧
      (∃ st', st'.function.code.size = st.function.code.size + cs.length + 1 + ts.length + 1 ∧
        (((emitStmt e).run env).run st').2.function.code = st'.function.code ++ es.toArray) ∧
      (((emitStmt (.node span (.ite c t (some e)))).run env).run st).2.function.code =
        st.function.code ++ (ifLayout st.function.code.size cs ts (some es)).toArray ∧
      Branches st.function.code.size cs ts (some es)) ∧
    (∀ span c body, ∃ cs bs,
      (((emitCondition c).run env).run st).2.function.code = st.function.code ++ cs.toArray ∧
      (∃ st', st'.function.code.size = st.function.code.size + cs.length + 1 ∧
        (((emitStmt body).run env).run st').2.function.code = st'.function.code ++ bs.toArray) ∧
      (((emitStmt (.node span (.loop c body))).run env).run st).2.function.code =
        st.function.code ++ (whileLayout st.function.code.size cs bs).toArray ∧
      Loops st.function.code.size cs bs) := by
  refine ⟨fun tag span op l r => ?_, fun span c t => ?_, fun span c t e => ?_,
    fun span c body => ?_⟩
  · -- typing the node comes first and appends nothing the layout depends on
    obtain ⟨ls, rs, hl, hr, -, -, hcode⟩ := @emitLogical_code op (emitExpr l) (emitExpr r)
      (emitExpr_appends l) (emitExpr_appends r) env
      (((typeOf (.node tag span (.logical op l r))).run env).run st).2
    refine ⟨_, ls, rs, rfl, hl, hr, ?_, logicalLayout_shortCircuits env.intKind_isFloat _ _ _ _⟩
    simp only [emitExpr, run_bind]
    exact hcode
  · obtain ⟨cs, ts, hc, ht, -, -, hcode⟩ := @ite_code span c t
      (Appends.condition c (emitExpr_appends c)) (emitStmt_appends t) env st
    exact ⟨cs, ts, hc, ht, hcode, ifLayout_branches _ _ _ _⟩
  · obtain ⟨cs, ts, es, hc, ht, he, -, -, -, hcode⟩ := @iteElse_code span c t e
      (Appends.condition c (emitExpr_appends c)) (emitStmt_appends t) (emitStmt_appends e) env st
    exact ⟨cs, ts, es, hc, ht, he, hcode, ifLayout_branches _ _ _ _⟩
  · obtain ⟨cs, bs, hc, hb, -, -, hcode⟩ := @loop_code span c body
      (Appends.condition c (emitExpr_appends c)) (emitStmt_appends body) env st
    exact ⟨cs, bs, hc, hb, hcode, whileLayout_loops _ _ _⟩

end CStack
