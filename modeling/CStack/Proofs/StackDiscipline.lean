import Mathlib
import CStack.Proofs.StackHeights
import CStack.Proofs.Faults
import CStack.Proofs.FrameLayout
import CStack.Proofs.ControlFlow

/-!
# What one instruction does to the operand stack

An instruction that does not transfer control replaces the values it takes from the top of the
stack by the values it leaves, touches nothing below them, and never fails for want of operands
when they lie above the floor (`VmM.execute_pops`, with the combinators of `VmM.Pops`). A call of a
function on top of the stack leaves the callee's frame on top, its stack beginning where the
call's operands began, or an intrinsic callee's result in their place (`VmM.call_run`); a callee
that is not a function makes the call fail as such (`VmM.call_notCallable`). A return leaves the
result where the frame's stack began (`VmM.ret_run`), and only a return takes a frame away
(`VmM.size_le_execute`). The frame lemmas at the end say which frames a step leaves as they were.

`SegmentRuns` puts these together into runs of code placed in a frame.
-/

namespace CStack

/-- A fault that is about the values of an operator's operands: a kind it does not take, or a
division by zero. -/
def VmError.OfOperands : VmError → Prop
  | .typeMismatch .. | .divisionByZero => True
  | _ => False

theorem VmError.OfOperands.ne_stackUnderflow {e : VmError} (h : e.OfOperands) :
    e ≠ .stackUnderflow := by
  rintro rfl
  exact h

namespace Operators

variable {op : BinaryOp} {l r v : Value} {e : VmError}

theorem arithmetic_ofOperands (h : arithmetic op l r = .error e) : e.OfOperands := by
  unfold arithmetic integerArith at h
  dsimp only at h
  repeat' split at h
  all_goals (cases h <;> trivial)

theorem compare_ofOperands {k : Kind} (h : compare op l r k = .error e) : e.OfOperands := by
  unfold compare at h
  dsimp only at h
  split at h <;> (cases h <;> trivial)

theorem negate_ofOperands (h : negate v = .error e) : e.OfOperands := by
  unfold negate at h
  split at h <;> (cases h <;> trivial)

theorem complement_ofOperands (h : complement v = .error e) : e.OfOperands := by
  unfold complement at h
  split at h <;> (cases h <;> trivial)

theorem offsetPointer_ofOperands {cells : Int64} {width : Nat}
    (h : offsetPointer v cells width = .error e) : e.OfOperands := by
  unfold offsetPointer at h
  split at h <;> (cases h <;> trivial)

end Operators

theorem pop_eq_take {α : Type} (xs : Array α) : xs.pop = xs.take (xs.size - 1) := by
  apply Array.ext_getElem?
  intro i
  simp only [Array.take_eq_extract, Array.getElem?_extract, Array.getElem?_pop]
  grind

namespace VmM

open Interpreter

/-- Run from a state whose stack holds at least `p` values above the current frame's floor, `x`
never underflows: it fails with another fault, or it changes the interpreter only locally and
leaves `q` values in place of the top `p`, with the stack below them as it was. -/
def Pops {α : Type} (x : VmM α) (p q : Nat) : Prop :=
  ∀ s : Interpreter, s.floor + p ≤ s.stack.size →
    (∀ e s', x.run s = .error e s' → e ≠ .stackUnderflow) ∧
      ∀ a s', x.run s = .ok a s' → s.Local s' ∧ s'.stack.size + p = s.stack.size + q ∧
        s'.stack.take (s.stack.size - p) = s.stack.take (s.stack.size - p)

namespace Pops

variable {α β : Type} {x : VmM α} {f : α → VmM β} {p q p' q' : Nat}

theorem pure (a : α) : (Pure.pure a : VmM α).Pops 0 0 := fun s _ =>
  ⟨(fun _ _ h => by cases h), fun _ _ h => by cases h; exact ⟨Local.refl s, rfl, rfl⟩⟩

theorem of_stack (hk : x.Keeps) (hf : x.FailsWith (· ≠ .stackUnderflow))
    (hs : ∀ s a s', x.run s = .ok a s' → s'.stack = s.stack) : x.Pops 0 0 := fun s _ =>
  ⟨fun e s' h => hf s e s' h, fun a s' h => by
    have hloc := hk s
    rw [h] at hloc
    exact ⟨hloc, by rw [hs s a s' h], by rw [hs s a s' h]⟩⟩

theorem push (v : Value) : (push v).Pops 0 1 := fun s _ =>
  ⟨(fun _ _ h => by cases h), fun _ s' h => by
    cases h
    refine ⟨push_keeps v s, by simp, ?_⟩
    simp only [Nat.sub_zero, Array.push_eq_append]
    exact take_append_of_le (Nat.le_refl _)⟩

theorem pop : pop.Pops 1 0 := fun s hs => by
  rw [pop_run, if_pos (by omega)]
  refine ⟨(fun _ _ h => by cases h), fun _ s' h => ?_⟩
  cases h
  have hloc := pop_keeps s
  rw [pop_run, if_pos (by omega)] at hloc
  exact ⟨hloc, by simp; omega, take_pop_of_lt (by omega)⟩

theorem of_final (h : ∀ s, final (x.run s) = s) (hf : x.FailsWith (· ≠ .stackUnderflow)) :
    x.Pops 0 0 :=
  of_stack (Keeps.of_final h) hf fun s a s' hr => by
    have := h s
    rw [hr] at this
    rw [final_ok] at this
    rw [this]

theorem get {g : Interpreter → VmM α}
    (hg : ∀ s, s.floor + p ≤ s.stack.size → (g s).Pops p q) : (MonadState.get >>= g).Pops p q :=
  fun s hs => hg s hs s hs

theorem mono (h : x.Pops p q) (k : Nat) : x.Pops (p + k) (q + k) := by
  intro s hs
  obtain ⟨he, ho⟩ := h s (by omega)
  refine ⟨he, fun a s' hr => ?_⟩
  obtain ⟨hloc, hsize, htake⟩ := ho a s' hr
  refine ⟨hloc, by omega, ?_⟩
  rw [← take_take_of_le (show s.stack.size - (p + k) ≤ s.stack.size - p by omega), htake,
    take_take_of_le (by omega)]

theorem throw {e : VmError} (he : e ≠ .stackUnderflow) : (MonadExcept.throw e : VmM α).Pops 0 0 :=
  of_final (fun _ => rfl) (FailsWith.throw he)

theorem ofExcept {r : Except VmError α} (hr : ∀ e, r = .error e → e.OfOperands) :
    (ofExcept r).Pops 0 0 := by
  cases r with
  | ok a => exact pure a
  | error e => exact throw (hr e rfl).ne_stackUnderflow

theorem load (address : Nat) : (load address).Pops 0 0 := by
  refine of_final (fun s => ?_) ?_
  · unfold VmM.load
    split
    · rfl
    · simp only [EStateM.run_bind, EStateM.run_get]
      split <;> rfl
  · unfold VmM.load
    split
    · exact FailsWith.throw (by simp)
    · refine FailsWith.get fun s => ?_
      split
      · exact FailsWith.pure _
      · exact FailsWith.throw (by simp)

theorem localAddress (slot : Nat) : (localAddress slot).Pops 0 0 := by
  refine of_final (fun s => ?_) fun s e s' h => ?_
  · rw [localAddress_run]
    cases s.frames.back? with
    | none => rfl
    | some f =>
      dsimp only
      split <;> rfl
  · rw [localAddress_run] at h
    split at h
    · cases h
      simp
    · split at h <;> cases h
      simp

theorem store (address : Nat) (v : Value) : (store address v).Pops 0 0 := by
  refine of_stack (store_keeps address v) (fun s e s' h => ?_) fun s a s' h => ?_ <;>
    rw [store_run] at h <;> split at h <;> cases h
  · simp
  · rfl

/-- One action after another: the second takes what the first left, and what lay below. -/
theorem bind (hx : x.Pops p q) (hf : ∀ a, (f a).Pops p' q') :
    (x >>= f).Pops (p + (p' - q)) (q' + (q - p')) := by
  intro s hs
  obtain ⟨hxe, hxo⟩ := hx s (by omega)
  cases hr : x.run s with
  | error e₁ s₁ =>
    refine ⟨fun e s' h => ?_, fun b s' h => ?_⟩ <;> rw [EStateM.run_bind, hr] at h <;> cases h
    exact hxe _ _ hr
  | ok a s₁ =>
    obtain ⟨hloc, hsize, htake⟩ := hxo a s₁ hr
    have hfloor : s₁.floor = s.floor := floor_congr hloc.frames
    obtain ⟨hfe, hfo⟩ := hf a s₁ (by omega)
    refine ⟨fun e s' h => ?_, fun b s' h => ?_⟩ <;> rw [EStateM.run_bind, hr] at h
    · exact hfe e s' h
    obtain ⟨hloc', hsize', htake'⟩ := hfo b s' h
    refine ⟨hloc.trans hloc', by omega, ?_⟩
    -- what lies below both pieces' operands is kept by each
    rw [← take_take_of_le (show s.stack.size - (p + (p' - q)) ≤ s₁.stack.size - p' by omega),
      htake', take_take_of_le (show s.stack.size - (p + (p' - q)) ≤ s₁.stack.size - p' by omega),
      ← take_take_of_le (show s.stack.size - (p + (p' - q)) ≤ s.stack.size - p by omega), htake,
      take_take_of_le (by omega)]

theorem popAddress : popAddress.Pops 1 0 := pop.bind fun _ => pure _

end Pops

/-- An instruction that does not transfer control replaces the values it takes by the values it
leaves, and never fails for want of them. -/
theorem execute_pops {i : Instr} (h : i.transfersControl = false) :
    (execute i).Pops i.arity.1 i.arity.2 := by
  unfold execute
  refine Pops.get fun s₀ _ => ?_
  cases i with
  | loadConstant v => exact (Pops.push v).bind fun _ => .pure _
  | loadLocal slot =>
    exact (Pops.localAddress slot).bind fun a => (Pops.load a).bind fun v =>
      (Pops.push v).bind fun _ => .pure _
  | storeLocal slot =>
    exact (Pops.localAddress slot).bind fun a => Pops.pop.bind fun v =>
      (Pops.store a v).bind fun _ => .pure _
  | loadLocalAddress slot =>
    exact (Pops.localAddress slot).bind fun a => (Pops.push _).bind fun _ => .pure _
  | loadGlobal address =>
    exact (Pops.load address).bind fun v => (Pops.push v).bind fun _ => .pure _
  | storeGlobal address =>
    exact Pops.pop.bind fun v => (Pops.store address v).bind fun _ => .pure _
  | loadGlobalAddress address => exact (Pops.push _).bind fun _ => .pure _
  | loadPointer =>
    exact Pops.popAddress.bind fun a => (Pops.load a).bind fun v =>
      (Pops.push v).bind fun _ => .pure _
  | storePointer =>
    exact Pops.popAddress.bind fun a => Pops.pop.bind fun v =>
      (Pops.store a v).bind fun _ => .pure _
  | offsetPointer cells =>
    exact Pops.pop.bind fun p =>
      (Pops.ofExcept fun _ => Operators.offsetPointer_ofOperands).bind fun v =>
        (Pops.push v).bind fun _ => .pure _
  | addPointer stride | subPointer stride =>
    exact Pops.pop.bind fun o => Pops.pop.bind fun p =>
      (Pops.ofExcept fun _ => Operators.offsetPointer_ofOperands).bind fun v =>
        (Pops.push v).bind fun _ => .pure _
  | dup =>
    -- the value copied is the top one, which the stack holds
    refine Pops.get fun s₁ hs₁ => ?_
    simp only [Instr.arity] at hs₁
    obtain ⟨v, hv⟩ : ∃ v, s₁.stack.back? = some v :=
      Option.isSome_iff_exists.mp (by simp [Array.back?_eq_getElem?]; omega)
    simp only [hv]
    exact ((Pops.push v).bind fun _ => .pure _).mono 1
  | pop => exact Pops.pop.bind fun _ => .pure _
  | convert k => exact Pops.pop.bind fun v => (Pops.push _).bind fun _ => .pure _
  | binary op =>
    refine Pops.pop.bind fun r => Pops.pop.bind fun l => (Pops.ofExcept ?_).bind fun v =>
      (Pops.push v).bind fun _ => .pure _
    intro e he
    split at he
    · exact Operators.compare_ofOperands he
    · exact Operators.arithmetic_ofOperands he
  | unary op =>
    cases op with
    | neg =>
      exact Pops.pop.bind fun v =>
        (Pops.ofExcept fun _ => Operators.negate_ofOperands).bind fun w =>
          (Pops.push w).bind fun _ => .pure _
    | bitNot =>
      exact Pops.pop.bind fun v =>
        (Pops.ofExcept fun _ => Operators.complement_ofOperands).bind fun w =>
          (Pops.push w).bind fun _ => .pure _
    | not => exact Pops.pop.bind fun v => (Pops.push _).bind fun _ => .pure _
  | jump _ | branchIfFalse _ | call _ | ret => simp [Instr.transfersControl] at h


theorem runHost_failsWith_host (args : Array Value) (p : HostProgram Unit) :
    (runHost args p).FailsWith fun e => ∃ he, e = .host he := by
  induction p with
  | pure a => exact FailsWith.pure _
  | fail e => exact FailsWith.throw ⟨e, rfl⟩
  | readArg index next ih => exact ih _
  | readMemory address next ih =>
    intro s e s' h
    simp only [runHost, EStateM.run_bind, hostCell_run] at h
    split at h
    · exact ih _ _ _ _ h
    · exact ih _ _ _ _ h
  | writeMemory address v next ih =>
    intro s e s' h
    simp only [runHost, EStateM.run_bind, hostCell_run] at h
    split at h
    · simp only [EStateM.run_bind, EStateM.run_modify] at h
      exact ih _ _ _ _ h
    · exact ih _ _ _ _ h
  | push v next ih =>
    intro s e s' h
    simp only [runHost, EStateM.run_bind, push_run] at h
    exact ih _ _ _ h
  | note n next ih => exact (FailsWith.modify _).bind fun _ => ih

/-- An intrinsic's host program runs above the stack of its call, and exactly the result is left
on top of that stack: one value when the function returns one, none for `void`. -/
theorem callIntrinsic_run (f : Function) (program : HostProgram Unit) (args : Array Value)
    (s : Interpreter) :
    (∀ e s', (callIntrinsic f program args).run s = .error e s' → e ≠ .stackUnderflow) ∧
      ∀ s', (callIntrinsic f program args).run s = .ok () s' → s'.program = s.program ∧
        s'.frames = s.frames ∧ s'.stack.take s.stack.size = s.stack ∧
        s'.stack.size = s.stack.size + (!f.type.ret.isVoid).toNat := by
  obtain ⟨hprogram, -, hframes, -, rest, hrest⟩ := runHost_grows args program s
  unfold callIntrinsic
  simp only [EStateM.run_bind, EStateM.run_get]
  cases hr : (runHost args program).run s with
  | error e s₁ =>
    refine ⟨fun e' s' h => ?_, fun s' h => by cases h⟩
    cases h
    obtain ⟨he, rfl⟩ := runHost_failsWith_host args program s _ _ hr
    simp
  | ok u s₁ =>
    rw [hr] at hprogram hframes hrest
    simp only [final_ok] at hprogram hframes hrest
    refine ⟨fun e' s' h => ?_, fun s' h => ?_⟩
    · dsimp only at h
      split at h
      · cases h
      · simp only [EStateM.run_bind, EStateM.run_get] at h
        split at h
        · cases h
        · split at h <;> cases h
    · dsimp only at h
      have htake : (s.stack ++ rest).take s.stack.size = s.stack := by
        rw [take_append_of_le (Nat.le_refl _), Array.take_eq_extract, Array.extract_size]
      split at h
      · rename_i hvoid
        cases h
        refine ⟨hprogram, hframes, ?_, ?_⟩ <;> simp [hrest, hvoid, htake]
      · rename_i hvoid
        have hnonvoid : (!f.type.ret.isVoid).toNat = 1 := by simp [hvoid]
        rw [hnonvoid]
        have hsize : s₁.stack.size = s.stack.size + rest.size := by rw [hrest, Array.size_append]
        simp only [EStateM.run_bind, EStateM.run_get] at h
        split at h
        · -- nothing pushed: the zero of the result type stands in
          rename_i hnone
          cases h
          have hempty : rest = #[] := Array.eq_empty_of_size_eq_zero (by omega)
          refine ⟨hprogram, hframes, ?_, by simp [hsize]; omega⟩
          simp only [hrest, hempty, Array.append_empty, Array.push_eq_append]
          rw [take_append_of_le (Nat.le_refl _), Array.take_eq_extract, Array.extract_size]
        · split at h
          · -- several pushed: the last is the result
            simp only [EStateM.run_bind, truncate_run, push_run] at h
            cases h
            refine ⟨hprogram, hframes, ?_, by simp; omega⟩
            rw [Array.push_eq_append, take_append_of_le (by simp; omega), take_take_of_le le_rfl,
              hrest, htake]
          · cases h
            refine ⟨hprogram, hframes, by rw [hrest, htake], by omega⟩

/-- What a call of the function `f` at `address` may end in, from `s`, when `H` values lie below
its callee, receiver and arguments: a fault other than underflow, or success with what lay below
them left alone and either the callee's frame entered on them, or the intrinsic callee's result on
top of them. -/
def CallOutcome (s : Interpreter) (address : Nat) (f : Function) (H : Nat) :
    EStateM.Result VmError Interpreter Unit → Prop
  | .error e _ => e ≠ .stackUnderflow
  | .ok () s' => s'.program = s.program ∧ s'.stack.take H = s.stack.take H ∧
      ((∃ base stop, s'.frames = s.frames.push ⟨address, 0, base, stop, H⟩ ∧ s'.stack.size = H) ∨
        (s'.frames = s.frames ∧ s'.stack.size = H + (!f.type.ret.isVoid).toNat))

theorem enter_failsWith_ne (address : Nat) (receiver : Option Value) (args : Array Value) :
    (enter address receiver args).FailsWith (· ≠ .stackUnderflow) := by
  intro s e s' h
  unfold enter at h
  simp only [EStateM.run_bind, EStateM.run_get] at h
  repeat' split at h
  all_goals (cases h; try simp)

theorem ite_bind_same {α β : Type} {c : Prop} [Decidable c] (x y : VmM α) (k : α → VmM β) :
    (if c then x >>= k else y >>= k) = (if c then x else y) >>= k := by
  split <;> rfl

/-- A call whose callee, a function, is on top of the stack, with its receiver and arguments below
it above the floor, never underflows; when it succeeds, what lay below those values is left alone,
and the callee's frame is entered on them or the intrinsic callee's result is on top of them. -/
theorem call_run (argc : Nat) {s : Interpreter} {address : UInt32} {f : Function}
    (htop : s.stack.back? = some (.pointer address))
    (hf : s.program.function? address.toNat = some f)
    (hroom : s.floor + (argc + 1 + f.type.isInstance.toNat) ≤ s.stack.size) :
    CallOutcome s address.toNat f (s.stack.size - (argc + 1 + f.type.isInstance.toNat))
      ((call argc).run s) := by
  unfold call
  simp only [EStateM.run_bind, pop_run, if_pos (show s.floor < s.stack.size by omega), htop,
    Option.getD_some, EStateM.run_get, hf]
  rw [ite_bind_same, EStateM.run_bind]
  -- the receiver, when the callee takes one, lies below the callee
  cases hreceiver : (if f.type.isInstance then some <$> pop else pure none : VmM (Option Value)).run
      { s with stack := s.stack.pop } with
  | error e s₂ =>
    split at hreceiver
    · rename_i hinst
      rw [map_run, pop_run, if_pos (by rw [hinst, Bool.toNat_true] at hroom; simp; omega)] at hreceiver
      cases hreceiver
    · cases hreceiver
  | ok receiver s₂ =>
    have hs₂ : s₂.frames = s.frames ∧ s₂.program = s.program ∧
        s₂.stack = s.stack.take (s.stack.size - 1 - f.type.isInstance.toNat) := by
      split at hreceiver
      · rename_i hinst
        rw [map_run, pop_run, if_pos (by rw [hinst, Bool.toNat_true] at hroom; simp; omega)] at hreceiver
        cases hreceiver
        refine ⟨rfl, rfl, ?_⟩
        simp only [hinst, Bool.toNat_true, pop_eq_take, Array.take_eq_extract, Array.size_extract,
          Array.extract_extract]
        congr 1
        omega
      · rename_i hinst
        cases hreceiver
        rw [Bool.not_eq_true] at hinst
        exact ⟨rfl, rfl, by rw [hinst, Bool.toNat_false, pop_eq_take, Nat.sub_zero]⟩
    obtain ⟨hframes, hprogram, hstack⟩ := hs₂
    have hsize₂ : s₂.stack.size = s.stack.size - 1 - f.type.isInstance.toNat := by
      rw [hstack, Array.take_eq_extract, Array.size_extract]
      omega
    have hfloor₂ : s₂.floor = s.floor := floor_congr hframes
    dsimp only
    simp only [EStateM.run_bind, EStateM.run_get, floor_run, hfloor₂]
    rw [if_neg (by omega), EStateM.run_bind, truncate_run]
    dsimp only
    -- the arguments are cut off, leaving the values below the callee's
    have hH : s₂.stack.size - argc = s.stack.size - (argc + 1 + f.type.isInstance.toNat) := by
      omega
    have htake : (s₂.stack.take (s₂.stack.size - argc)).take
        (s.stack.size - (argc + 1 + f.type.isInstance.toNat)) =
          s.stack.take (s.stack.size - (argc + 1 + f.type.isInstance.toNat)) := by
      rw [hH, take_take_of_le le_rfl, hstack, take_take_of_le (by omega)]
    have hsize₃ : (s₂.stack.take (s₂.stack.size - argc)).size =
        s.stack.size - (argc + 1 + f.type.isInstance.toNat) := by
      rw [Array.take_eq_extract, Array.size_extract]
      omega
    split
    · rcases enter_cases address.toNat receiver (s₂.stack.extract (s₂.stack.size - argc))
        { s₂ with stack := s₂.stack.take (s₂.stack.size - argc) } with ⟨e, he⟩ |
        ⟨kinds, s', he, hent⟩ <;> rw [he]
      · exact enter_failsWith_ne _ _ _ _ _ _ he
      · have hfr := hent.frames
        rw [hsize₃, hframes] at hfr
        exact ⟨by rw [hent.program, hprogram], by rw [hent.stack, htake],
          .inl ⟨_, _, hfr, by rw [hent.stack, hsize₃]⟩⟩
    · rename_i program _
      obtain ⟨herror, hok⟩ := callIntrinsic_run f program (s₂.stack.extract (s₂.stack.size - argc))
        { s₂ with stack := s₂.stack.take (s₂.stack.size - argc) }
      cases hr : (callIntrinsic f program _).run _ with
      | error e s' => exact herror e s' hr
      | ok u s' =>
        obtain ⟨hprogram', hframes', htake', hsize'⟩ := hok s' hr
        simp only [hsize₃] at htake' hsize'
        refine ⟨by rw [hprogram', hprogram], ?_, .inr ⟨by rw [hframes', hframes], hsize'⟩⟩
        rw [htake', hH, hstack, take_take_of_le (by omega)]

/-- A return from the frame `fr`, running `f`, never underflows when the stack holds the result
above the floor in case `f` returns one; when it succeeds the frame is gone and the stack is cut
down to where the frame's stack began, with the result on top for a caller that continues. -/
theorem ret_run {s : Interpreter} {fr : Frame} {f : Function} (hback : s.frames.back? = some fr)
    (hf : s.program.function? fr.function = some f) (hs : s.floor ≤ s.stack.size) :
    (s.floor + (!f.type.ret.isVoid).toNat ≤ s.stack.size →
        ∀ e s', ret.run s = .error e s' → e ≠ .stackUnderflow) ∧
      ∀ st s', ret.run s = .ok st s' → s'.frames = s.frames.pop ∧ s'.program = s.program ∧
        s'.stack.take fr.stackBase = s.stack.take fr.stackBase ∧
        (s'.frames.isEmpty = false → s'.stack.size = fr.stackBase + (!f.type.ret.isVoid).toNat) := by
  have hfloor : s.floor = fr.stackBase := floor_of_back hback
  unfold ret
  simp only [EStateM.run_bind, EStateM.run_get, hback, Option.bind_some, hf]
  rw [ite_bind_same, EStateM.run_bind]
  cases hresult : (if (!f.type.ret.isVoid) = true then some <$> pop else pure none :
      VmM (Option Value)).run s with
  | error e s₁ =>
    -- only popping the result fails, and only when it is not above the floor
    dsimp only
    by_cases hvalue : (!f.type.ret.isVoid) = true
    · by_cases hlt : s.floor < s.stack.size
      · rw [if_pos hvalue, map_run, pop_run, if_pos hlt] at hresult
        cases hresult
      · rw [hvalue, Bool.toNat_true]
        exact ⟨fun hroom => absurd hroom (by omega), fun st s' h => by cases h⟩
    · rw [if_neg hvalue] at hresult
      cases hresult
  | ok result s₁ =>
    have hs₁ : s₁.frames = s.frames ∧ s₁.program = s.program ∧
        s₁.stack.take fr.stackBase = s.stack.take fr.stackBase ∧ fr.stackBase ≤ s₁.stack.size ∧
        result.isSome = !f.type.ret.isVoid := by
      by_cases hvalue : (!f.type.ret.isVoid) = true
      · by_cases hlt : s.floor < s.stack.size
        · rw [if_pos hvalue, map_run, pop_run, if_pos hlt] at hresult
          cases hresult
          exact ⟨rfl, rfl, take_pop_of_lt (by omega), by simp; omega, hvalue.symm⟩
        · rw [if_pos hvalue, map_run, pop_run, if_neg hlt] at hresult
          cases hresult
      · rw [if_neg hvalue] at hresult
        cases hresult
        rw [Bool.not_eq_true] at hvalue
        exact ⟨rfl, rfl, rfl, by omega, hvalue.symm⟩
    obtain ⟨hframes, hprogram, htake, hbase, hsome⟩ := hs₁
    rw [← hsome]
    -- after the result is taken: the frame is dropped and the stack cut down to its base
    have hback₁ : s₁.frames.back? = some fr := by rw [hframes]; exact hback
    have htake₁ : (s₁.stack.take fr.stackBase).take fr.stackBase = s.stack.take fr.stackBase := by
      rw [take_take_of_le le_rfl, htake]
    have hsize₁ : (s₁.stack.take fr.stackBase).size = fr.stackBase := by
      rw [Array.take_eq_extract, Array.size_extract]
      omega
    dsimp only
    simp only [EStateM.run_bind, frame_run, hback₁, EStateM.run_modify, truncate_run,
      EStateM.run_get]
    split
    · refine ⟨fun _ e s' h => (by cases h), fun st s' h => ?_⟩
      cases h
      simp_all
    · cases result with
      | none =>
        simp only [EStateM.run_pure]
        refine ⟨fun _ e s' h => (by cases h), fun st s' h => ?_⟩
        cases h
        simp_all
      | some v =>
        simp only [EStateM.run_bind, push_run, EStateM.run_pure]
        refine ⟨fun _ e s' h => (by cases h), fun st s' h => ?_⟩
        cases h
        refine ⟨by simp [hframes], by simp [hprogram], ?_, fun _ => by simp [hsize₁]⟩
        simp only [Array.push_eq_append]
        rw [take_append_of_le (by omega), htake₁]

end VmM

namespace Annotated

variable {lo hi i : Nat} {rv : Bool} {d : Nat → Nat} {x : Annotated}

/-- At an instruction that does not transfer control, fitting heights hold what it takes and
continue with what it leaves. -/
theorem Fits.plain (h : x.Fits lo hi rv d i) (hx : x.instr.transfersControl = false) :
    x.instr.arity.1 ≤ d i ∧ d (i + 1) = d i - x.instr.arity.1 + x.instr.arity.2 := by
  obtain ⟨⟨instr, callee⟩, rfl⟩ : ∃ y, y = x := ⟨x, rfl⟩
  obtain ⟨hneeds, hnext⟩ := h
  cases instr <;> simp_all [needs, Instr.transfersControl]

end Annotated

namespace Interpreter

variable {x : Executable} {c : InterpreterConfig} {s : Interpreter}

theorem Layout.stackBase_mono (h : s.Layout x c) {i j : Nat} (hij : i ≤ j) {f g : Frame}
    (hf : s.frames[i]? = some f) (hg : s.frames[j]? = some g) : f.stackBase ≤ g.stackBase := by
  induction j, hij using Nat.le_induction generalizing g with
  | base => rw [hf] at hg; cases hg; exact le_rfl
  | succ j _ ih =>
    -- the frame just below `g` lies between them
    obtain ⟨f', hf'⟩ : ∃ f', s.frames[j]? = some f' := by
      have : j + 1 < s.frames.size := (Array.getElem?_eq_some_iff.mp hg).1
      exact ⟨_, Array.getElem?_eq_getElem (by omega)⟩
    exact (ih hf').trans (h.stackBases j f' g hf' hg)

theorem Layout.stackBase_le_floor (h : s.Layout x c) {i : Nat} {f : Frame}
    (hf : s.frames[i]? = some f) : f.stackBase ≤ s.floor := by
  have hi : i < s.frames.size := (Array.getElem?_eq_some_iff.mp hf).1
  obtain ⟨g, hg⟩ : ∃ g, s.frames.back? = some g :=
    ⟨_, Array.back?_eq_getElem? ▸ Array.getElem?_eq_getElem (by omega)⟩
  rw [floor_of_back hg]
  exact h.stackBase_mono (by omega) hf (back?_eq_some hg).1

end Interpreter

theorem take_eq_of_take_eq {α : Type} {xs ys : Array α} {m n : Nat} (hmn : m ≤ n)
    (h : xs.take n = ys.take n) : xs.take m = ys.take m := by
  rw [← take_take_of_le hmn, h, take_take_of_le hmn]

namespace Interpreter

variable {s : Interpreter} {k : Nat} {fr : Frame}

theorem getElem?_jumpTo_last (hk : s.frames.size = k + 1) (hfr : s.frames[k]? = some fr)
    (t : Nat) : (s.jumpTo t).frames[k]? = some { fr with ip := t } := by
  simp only [jumpTo, hk, Nat.add_sub_cancel, Array.getElem?_modify, if_true, hfr, Option.map_some]

theorem back?_of_last (hk : s.frames.size = k + 1) (hfr : s.frames[k]? = some fr) :
    s.frames.back? = some fr := by
  rw [Array.back?_eq_getElem?, hk, Nat.add_sub_cancel, hfr]

theorem advance_frames (hback : s.frames.back? = some fr) :
    s.advance.frames = (s.jumpTo (fr.ip + 1)).frames := by
  obtain ⟨hlast, -⟩ := back?_eq_some hback
  apply Array.ext_getElem?
  intro i
  simp only [advance, jumpTo, Array.getElem?_modify]
  split
  · rename_i hi
    rw [← hi, hlast]
    rfl
  · rfl

theorem frames_jumpTo_of {s₁ : Interpreter} {i : Nat} (h : s₁.frames = (s.jumpTo i).frames)
    (t : Nat) : (s₁.jumpTo t).frames = (s.jumpTo t).frames := by
  have hjj := congrArg Interpreter.frames (jumpTo_jumpTo s i t)
  simp only [jumpTo] at hjj ⊢
  rw [h]
  exact hjj

theorem getElem?_jumpTo_of_lt {i : Nat} (hi : i + 1 < s.frames.size) (t : Nat) :
    (s.jumpTo t).frames[i]? = s.frames[i]? := by
  simp only [jumpTo, Array.getElem?_modify]
  rw [if_neg (by omega)]

theorem Moves.getElem?_of_lt {s' : Interpreter} (hm : s.Moves s') {i : Nat}
    (hi : i + 1 < s.frames.size) : s'.frames[i]? = s.frames[i]? := by
  cases hm with
  | stay hl => rw [hl.frames]
  | jump t hl => rw [getElem?_jumpTo_of_lt (by rw [hl.frames]; exact hi), hl.frames]
  | enter address kinds hl he =>
    rw [he.frames, Array.getElem?_push, if_neg (by rw [hl.frames]; omega), hl.frames]
  | leave f hl hr =>
    rw [hr.frames, Array.getElem?_pop, if_pos (by rw [hl.frames]; omega), hl.frames]

theorem Moves.getElem?_last {s' : Interpreter} (hm : s.Moves s')
    (hsize : s.frames.size ≤ s'.frames.size) {g : Frame}
    (hg : s.frames[s.frames.size - 1]? = some g) :
    ∃ g', s'.frames[s.frames.size - 1]? = some g' ∧ g'.function = g.function ∧
      g'.stackBase = g.stackBase := by
  cases hm with
  | stay hl => exact ⟨g, by rw [hl.frames, hg], rfl, rfl⟩
  | jump t hl =>
    refine ⟨{ g with ip := t }, ?_, rfl, rfl⟩
    simp only [jumpTo, hl.frames, Array.getElem?_modify, if_true, hg, Option.map_some]
  | enter address kinds hl he =>
    have := (Array.getElem?_eq_some_iff.mp hg).1
    refine ⟨g, ?_, rfl, rfl⟩
    rw [he.frames, Array.getElem?_push, if_neg (by rw [hl.frames]; omega), hl.frames, hg]
  | leave f hl hr =>
    rw [hr.frames, Array.size_pop, hl.frames] at hsize
    have := (Array.getElem?_eq_some_iff.mp hg).1
    omega

end Interpreter

namespace VmM

theorem size_le_execute {i : Instr} (hi : i ≠ .ret) (s : Interpreter) :
    s.frames.size ≤ (final ((execute i).run s)).frames.size := by
  cases hc : i.transfersControl
  case false => rw [(execute_keeps hc s).frames]
  cases i <;> simp [Instr.transfersControl] at hc hi
  case jump t => simp [execute_jump, Interpreter.jumpTo]
  case branchIfFalse t =>
    rw [execute_branchIfFalse]
    split_ifs <;> simp [Interpreter.jumpTo]
  case call argc =>
    have hrun : (execute (.call argc)).run s = (call argc >>= fun _ => pure Status.running).run s :=
      rfl
    rw [hrun, EStateM.run_bind]
    rcases call_cases argc s with hloc | ⟨s₁, address, kinds, s', hloc, hok, hent⟩
    · cases hr : (call argc).run s <;> rw [hr] at hloc <;>
        simp only [final_ok, final_error] at hloc <;> simp [hloc.frames]
    · rw [hok]
      simp [hent.frames, hloc.frames]

/-- A call whose callee, on top of the stack, is not the address of a function fails as a call
of something that is not callable. -/
theorem call_notCallable (argc : Nat) {s : Interpreter} (hlt : s.floor < s.stack.size)
    (h : ¬∃ address f, s.stack.back? = some (.pointer address) ∧
      s.program.function? address.toNat = some f) :
    ∃ v s', (call argc).run s = .error (.notCallable v) s' := by
  unfold call
  simp only [EStateM.run_bind, pop_run, if_pos hlt]
  cases hb : s.stack.back? with
  | none =>
    have hempty : s.stack.size = 0 := by simpa using hb
    omega
  | some v =>
    cases v with
    | pointer address =>
      cases hf : s.program.function? address.toNat with
      | none => simp [EStateM.run_get, hf]
      | some f => exact absurd ⟨address, f, hb, hf⟩ h
    | _ => exact ⟨_, _, rfl⟩

end VmM

end CStack
