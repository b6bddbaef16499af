import CStack.Proofs.StepCases

/-!
# The faults of the interpreter's actions

Which faults an action can end in (`VmM.FailsWith`), composed through `bind`, `get`, `throw` and
the rest as `VmM.Keeps` is. Three faults belong to the machinery around instructions, not to
instructions: a frame running past the end of its code (raised by fetching an instruction), a
missing entry function (raised by a reset) and the step limit (raised by a bounded run). No
instruction, operator, host program or call ends in any of them (`VmM.execute_executional`); in
particular none runs past the end of the code (`VmM.execute_failsWith`).
-/

namespace CStack

/-- A fault other than a frame running past the end of its code. -/
def VmError.NotMissingReturn (e : VmError) : Prop := ∀ name, e ≠ .missingReturn name

/-- The faults executing an instruction can end in: all but a frame running past the end of its
code, a missing entry function and the step limit. -/
def VmError.Executional : VmError → Prop
  | .missingReturn _ | .entryNotFound _ | .stepLimit _ => False
  | _ => True

theorem VmError.Executional.notMissingReturn {e : VmError} (h : e.Executional) :
    e.NotMissingReturn := by
  rintro name rfl
  exact h

theorem VmError.Executional.ne_stepLimit {e : VmError} (h : e.Executional) (n : Nat) :
    e ≠ .stepLimit n := by
  rintro rfl
  exact h

namespace Operators

variable {op : BinaryOp} {l r v : Value} {e : VmError}

theorem arithmetic_executional (h : arithmetic op l r = .error e) : e.Executional := by
  unfold arithmetic integerArith at h
  dsimp only at h
  repeat' split at h
  all_goals (cases h <;> trivial)

theorem compare_executional {k : Kind} (h : compare op l r k = .error e) : e.Executional := by
  unfold compare at h
  dsimp only at h
  split at h <;> (cases h <;> trivial)

theorem negate_executional (h : negate v = .error e) : e.Executional := by
  unfold negate at h
  split at h <;> (cases h <;> trivial)

theorem complement_executional (h : complement v = .error e) : e.Executional := by
  unfold complement at h
  split at h <;> (cases h <;> trivial)

theorem offsetPointer_executional {cells : Int64} {width : Nat}
    (h : offsetPointer v cells width = .error e) : e.Executional := by
  unfold offsetPointer at h
  split at h <;> (cases h <;> trivial)

end Operators

namespace VmM

open Interpreter

/-- Every fault `x` can fail with satisfies `P`. -/
def FailsWith {α : Type} (P : VmError → Prop) (x : VmM α) : Prop :=
  ∀ s e s', x.run s = .error e s' → P e

namespace FailsWith

variable {α β : Type} {P : VmError → Prop} {x : VmM α} {f : α → VmM β}

theorem pure (a : α) : (Pure.pure a : VmM α).FailsWith P := fun _ _ _ h => nomatch h

theorem bind (hx : x.FailsWith P) (hf : ∀ a, (f a).FailsWith P) : (x >>= f).FailsWith P := by
  intro s e s' h
  rw [EStateM.run_bind] at h
  cases hr : x.run s with
  | ok a t => rw [hr] at h; exact hf a t e s' h
  | error e' t =>
    rw [hr] at h
    cases h
    exact hx s _ _ hr

theorem map (g : α → β) (hx : x.FailsWith P) : (g <$> x).FailsWith P := by
  intro s e s' h
  rw [map_run] at h
  cases hr : x.run s with
  | ok a t => rw [hr] at h; cases h
  | error e' t =>
    rw [hr] at h
    cases h
    exact hx s _ _ hr

theorem get {g : Interpreter → VmM α} (hg : ∀ s, (g s).FailsWith P) :
    (MonadState.get >>= g).FailsWith P :=
  fun s e s' h => hg s s e s' h

theorem modify (g : Interpreter → Interpreter) : (modify g : VmM Unit).FailsWith P :=
  fun _ _ _ h => nomatch h

theorem throw {e : VmError} (he : P e) : (MonadExcept.throw e : VmM α).FailsWith P := by
  intro s e' s' h
  cases h
  exact he

theorem ofExcept {r : Except VmError α} (hr : ∀ e, r = .error e → P e) :
    (ofExcept r).FailsWith P := by
  cases r with
  | ok a => exact pure a
  | error e => exact throw (hr e rfl)

end FailsWith

section Primitives

variable (s : Interpreter)

theorem push_failsWith (v : Value) : (push v).FailsWith VmError.Executional :=
  FailsWith.modify _

theorem pop_failsWith : pop.FailsWith VmError.Executional := by
  intro s e s' h
  rw [pop_run] at h
  split at h
  · cases h
  · cases h
    trivial

theorem popAddress_failsWith : popAddress.FailsWith VmError.Executional :=
  pop_failsWith.bind fun _ => FailsWith.pure _

theorem load_failsWith (address : Nat) : (load address).FailsWith VmError.Executional := by
  unfold load
  split
  · exact FailsWith.throw trivial
  · refine FailsWith.get fun s => ?_
    split
    · exact FailsWith.pure _
    · exact FailsWith.throw trivial

theorem store_failsWith (address : Nat) (v : Value) :
    (store address v).FailsWith VmError.Executional := by
  intro s e s' h
  rw [store_run] at h
  split at h
  · cases h
    trivial
  · cases h

theorem localAddress_failsWith (slot : Nat) :
    (localAddress slot).FailsWith VmError.Executional := by
  intro s e s' h
  rw [localAddress_run] at h
  split at h
  · cases h
    trivial
  · split at h
    · cases h
      trivial
    · cases h

theorem runHost_failsWith (args : Array Value) (p : HostProgram Unit) :
    (runHost args p).FailsWith VmError.Executional := by
  induction p with
  | pure a => exact FailsWith.pure _
  | fail e => exact FailsWith.throw trivial
  | readArg index next ih => exact ih _
  | readMemory address next ih =>
    intro s e s' h
    simp only [runHost, EStateM.run_bind, hostCell_run] at h
    split at h
    · exact ih _ _ _ _ h
    · exact ih _ _ _ _ h
  | writeMemory address v next ih =>
    intro s e s' h
    simp only [runHost, EStateM.run_bind, hostCell_run] at h
    split at h
    · simp only [EStateM.run_bind, EStateM.run_modify] at h
      exact ih _ _ _ _ h
    · exact ih _ _ _ _ h
  | push v next ih =>
    intro s e s' h
    simp only [runHost, EStateM.run_bind, push_run] at h
    exact ih _ _ _ h
  | note n next ih => exact (FailsWith.modify _).bind fun _ => ih

theorem callIntrinsic_failsWith (f : Function) (program : HostProgram Unit) (args : Array Value) :
    (callIntrinsic f program args).FailsWith VmError.Executional := by
  unfold callIntrinsic
  refine FailsWith.get fun s => (runHost_failsWith args program).bind fun _ => ?_
  split
  · exact (FailsWith.modify _).bind fun _ => FailsWith.pure _
  · refine FailsWith.get fun s => ?_
    split
    · exact push_failsWith _
    · split
      · exact (FailsWith.modify _).bind fun _ => push_failsWith _
      · exact FailsWith.pure _

theorem enter_failsWith (address : Nat) (receiver : Option Value) (args : Array Value) :
    (enter address receiver args).FailsWith VmError.Executional := by
  intro s e s' h
  unfold enter at h
  simp only [EStateM.run_bind, EStateM.run_get] at h
  repeat' split at h
  all_goals (cases h; try trivial)

theorem floor_failsWith : floor.FailsWith VmError.Executional := by
  intro s e s' h
  rw [floor_run] at h
  cases h

theorem call_failsWith (argc : Nat) : (call argc).FailsWith VmError.Executional := by
  unfold call
  refine pop_failsWith.bind fun callee => ?_
  split
  · refine FailsWith.get fun s₁ => ?_
    split
    · dsimp only
      split
      case' isTrue => refine (FailsWith.map _ pop_failsWith).bind fun receiver => ?_
      case' isFalse => refine (FailsWith.pure _).bind fun receiver => ?_
      all_goals
        refine FailsWith.get fun s₂ => floor_failsWith.bind fun height => ?_
        split
        case' isTrue => refine (FailsWith.throw trivial).bind fun _ => ?_
        all_goals
          refine (FailsWith.modify _).bind fun _ => ?_
          split
          · exact enter_failsWith _ _ _
          · exact callIntrinsic_failsWith _ _ _
    · exact FailsWith.throw trivial
  · exact FailsWith.throw trivial

theorem frame_failsWith : frame.FailsWith VmError.Executional := by
  intro s e s' h
  rw [frame_run] at h
  split at h
  · cases h
  · cases h
    trivial

theorem ret_failsWith : ret.FailsWith VmError.Executional := by
  unfold ret
  refine FailsWith.get fun s => ?_
  dsimp only
  split <;> split
  all_goals first
    | refine (FailsWith.map _ pop_failsWith).bind fun result => ?_
    | refine (FailsWith.pure _).bind fun result => ?_
  all_goals
    refine frame_failsWith.bind fun f => (FailsWith.modify _).bind fun _ =>
      (FailsWith.modify _).bind fun _ => FailsWith.get fun s => ?_
    split
    · exact (FailsWith.modify _).bind fun _ => FailsWith.pure _
    · split
      · exact (push_failsWith _).bind fun _ => FailsWith.pure _
      · exact FailsWith.pure _

/-- Every fault an instruction ends in is one of the faults of execution. -/
theorem execute_executional (i : Instr) : (execute i).FailsWith VmError.Executional := by
  unfold execute
  refine FailsWith.get fun s₀ => ?_
  cases i with
  | loadConstant v => exact (push_failsWith v).bind fun _ => FailsWith.pure _
  | loadLocal slot =>
    exact (localAddress_failsWith slot).bind fun a => (load_failsWith a).bind fun v =>
      (push_failsWith v).bind fun _ => FailsWith.pure _
  | storeLocal slot =>
    exact (localAddress_failsWith slot).bind fun a => pop_failsWith.bind fun v =>
      (store_failsWith a v).bind fun _ => FailsWith.pure _
  | loadLocalAddress slot =>
    exact (localAddress_failsWith slot).bind fun a => (push_failsWith _).bind fun _ =>
      FailsWith.pure _
  | loadGlobal address =>
    exact (load_failsWith address).bind fun v => (push_failsWith v).bind fun _ => FailsWith.pure _
  | storeGlobal address =>
    exact pop_failsWith.bind fun v => (store_failsWith address v).bind fun _ => FailsWith.pure _
  | loadGlobalAddress address => exact (push_failsWith _).bind fun _ => FailsWith.pure _
  | loadPointer =>
    exact popAddress_failsWith.bind fun a => (load_failsWith a).bind fun v =>
      (push_failsWith v).bind fun _ => FailsWith.pure _
  | storePointer =>
    exact popAddress_failsWith.bind fun a => pop_failsWith.bind fun v =>
      (store_failsWith a v).bind fun _ => FailsWith.pure _
  | offsetPointer cells =>
    exact pop_failsWith.bind fun p =>
      (FailsWith.ofExcept fun _ => Operators.offsetPointer_executional).bind fun v =>
        (push_failsWith v).bind fun _ => FailsWith.pure _
  | addPointer stride | subPointer stride =>
    exact pop_failsWith.bind fun o => pop_failsWith.bind fun p =>
      (FailsWith.ofExcept fun _ => Operators.offsetPointer_executional).bind fun v =>
        (push_failsWith v).bind fun _ => FailsWith.pure _
  | dup =>
    refine FailsWith.get fun s₁ => ?_
    split
    · exact (push_failsWith _).bind fun _ => FailsWith.pure _
    · exact (FailsWith.throw trivial).bind fun _ => FailsWith.pure _
  | pop => exact pop_failsWith.bind fun _ => FailsWith.pure _
  | convert k => exact pop_failsWith.bind fun v => (push_failsWith _).bind fun _ => FailsWith.pure _
  | binary op =>
    refine pop_failsWith.bind fun r => pop_failsWith.bind fun l => (FailsWith.ofExcept ?_).bind
      fun v => (push_failsWith v).bind fun _ => FailsWith.pure _
    intro e he
    split at he
    · exact Operators.compare_executional he
    · exact Operators.arithmetic_executional he
  | unary op =>
    cases op with
    | neg =>
      exact pop_failsWith.bind fun v =>
        (FailsWith.ofExcept fun _ => Operators.negate_executional).bind fun w =>
          (push_failsWith w).bind fun _ => FailsWith.pure _
    | bitNot =>
      exact pop_failsWith.bind fun v =>
        (FailsWith.ofExcept fun _ => Operators.complement_executional).bind fun w =>
          (push_failsWith w).bind fun _ => FailsWith.pure _
    | not => exact pop_failsWith.bind fun v => (push_failsWith _).bind fun _ => FailsWith.pure _
  | jump target => exact (FailsWith.modify _).bind fun _ => FailsWith.pure _
  | branchIfFalse target =>
    refine pop_failsWith.bind fun v => ?_
    split
    · exact (FailsWith.modify _).bind fun _ => FailsWith.pure _
    · exact FailsWith.pure _
  | call argc => exact (call_failsWith argc).bind fun _ => FailsWith.pure _
  | ret => exact ret_failsWith

/-- No instruction fails by running past the end of the code: only fetching one does. -/
theorem execute_failsWith (i : Instr) : (execute i).FailsWith VmError.NotMissingReturn :=
  fun s e s' h => (execute_executional i s e s' h).notMissingReturn

end Primitives

end VmM

end CStack
