import CStack.Proofs.Faults
import CStack.Proofs.ControlFlow

/-!
# Bounded runs

`runWithLimit n` takes at most `n` steps. It returns what the entry function returned once a step
finishes it, or once no frame is left; it ends in the fault of a step that fails; and it ends in
the fault `stepLimit n` when `n` steps all leave the entry function running. `runFor fuel` is the
unbounded run cut off by fuel: it returns `some` of what the entry function returned, ends in the
fault of a failing step, or returns `none` once the fuel runs out.

Both are read through one description of `stepsUpTo`: from any state the first `n` steps either
all leave the entry function running (`Interpreter.RunsIn`), or a step before the `n`-th finishes
it (`Interpreter.FinishesAfter`) or fails (`Interpreter.FailsAfter`) (`runsIn_or_stops`), and in
each case `stepsUpTo` is known (`stepsUpTo_of_runsIn` and its two siblings). Three facts about a
single step carry the rest: it adds one to the step count (`step_steps`), it never ends in the
step limit's fault (`step_ne_stepLimit`), and one that leaves the entry function running leaves a
frame (`step_running_frames`).

The main result, `runWithLimit_composes`, says of every state with a frame that a bounded run that
reaches its limit took exactly that many steps and, resumed, ends as one longer bounded run would;
and that the bounded and the unbounded runs return the same results and end in the same faults.
-/

namespace CStack

namespace VmM

open Interpreter

theorem run_bind_eq_ok {α β : Type} {x : VmM α} {f : α → VmM β} {s t : Interpreter} {b : β}
    (h : (x >>= f).run s = .ok b t) : ∃ a u, x.run s = .ok a u ∧ (f a).run u = .ok b t := by
  rw [EStateM.run_bind] at h
  cases hx : x.run s with
  | ok a u =>
    rw [hx] at h
    exact ⟨a, u, rfl, h⟩
  | error e u =>
    rw [hx] at h
    cases h

/-! ### Execution leaves the step count alone -/

/-- An action that leaves the step count as it was, whether it returns or fails. -/
def KeepsSteps {α : Type} (x : VmM α) : Prop := ∀ s, (final (x.run s)).steps = s.steps

namespace KeepsSteps

variable {α β : Type} {x : VmM α}

theorem of_final (h : ∀ s, final (x.run s) = s) : x.KeepsSteps := fun s => by rw [h s]

theorem bind {f : α → VmM β} (hx : x.KeepsSteps) (hf : ∀ a, (f a).KeepsSteps) :
    (x >>= f).KeepsSteps := by
  intro s
  rw [EStateM.run_bind]
  have h := hx s
  cases hr : x.run s with
  | ok a t =>
    rw [hr] at h
    exact (hf a t).trans h
  | error e t =>
    rw [hr] at h
    exact h

theorem map (f : α → β) (hx : x.KeepsSteps) : (f <$> x).KeepsSteps := by
  intro s
  rw [map_run]
  have h := hx s
  cases hr : x.run s <;> rw [hr] at h <;> exact h

theorem pure (a : α) : (Pure.pure a : VmM α).KeepsSteps := of_final fun _ => rfl

theorem throw (e : VmError) : (MonadExcept.throw e : VmM α).KeepsSteps := of_final fun _ => rfl

theorem get {f : Interpreter → VmM α} (hf : ∀ s, (f s).KeepsSteps) :
    (MonadState.get >>= f).KeepsSteps :=
  fun s => hf s s

theorem modify (g : Interpreter → Interpreter) (hg : ∀ s, (g s).steps = s.steps := by intro; rfl) :
    (modify g : VmM Unit).KeepsSteps :=
  fun s => hg s

end KeepsSteps

section Primitives

theorem push_keepsSteps (v : Value) : (push v).KeepsSteps := KeepsSteps.modify _

theorem pop_keepsSteps : pop.KeepsSteps := by
  intro s
  rw [pop_run]
  split <;> rfl

theorem popAddress_keepsSteps : popAddress.KeepsSteps :=
  pop_keepsSteps.bind fun _ => KeepsSteps.pure _

theorem load_keepsSteps (address : Nat) : (load address).KeepsSteps := by
  refine KeepsSteps.of_final fun s => ?_
  unfold load
  split
  · rfl
  · simp only [EStateM.run_bind, EStateM.run_get]
    split <;> rfl

theorem store_keepsSteps (address : Nat) (v : Value) : (store address v).KeepsSteps := by
  intro s
  rw [store_run]
  split <;> rfl

theorem localAddress_keepsSteps (slot : Nat) : (localAddress slot).KeepsSteps := by
  refine KeepsSteps.of_final fun s => ?_
  rw [localAddress_run]
  cases s.frames.back? with
  | none => rfl
  | some f =>
    dsimp only
    split <;> rfl

theorem frame_keepsSteps : frame.KeepsSteps := by
  refine KeepsSteps.of_final fun s => ?_
  rw [frame_run]
  split <;> rfl

theorem ofExcept_keepsSteps {α : Type} (r : Except VmError α) : (ofExcept r).KeepsSteps := by
  cases r <;> exact KeepsSteps.of_final fun _ => rfl

theorem runHost_keepsSteps (args : Array Value) (p : HostProgram Unit) :
    (runHost args p).KeepsSteps := by
  induction p with
  | pure a => exact KeepsSteps.pure _
  | fail e => exact KeepsSteps.throw _
  | readArg index next ih => exact ih _
  | readMemory address next ih =>
    intro s
    simp only [runHost, EStateM.run_bind, hostCell_run]
    split
    · exact ih _ s
    · exact ih _ s
  | writeMemory address v next ih =>
    intro s
    simp only [runHost, EStateM.run_bind, hostCell_run]
    split
    · simp only [EStateM.run_bind, EStateM.run_modify]
      exact ih _ _
    · exact ih _ s
  | push v next ih => exact (push_keepsSteps v).bind fun _ => ih
  | note n next ih => exact (KeepsSteps.modify _).bind fun _ => ih

theorem callIntrinsic_keepsSteps (f : Function) (program : HostProgram Unit) (args : Array Value) :
    (callIntrinsic f program args).KeepsSteps := by
  unfold callIntrinsic
  refine KeepsSteps.get fun s => (runHost_keepsSteps args program).bind fun _ => ?_
  split
  · exact (KeepsSteps.modify _).bind fun _ => KeepsSteps.pure _
  · refine KeepsSteps.get fun s => ?_
    split
    · exact push_keepsSteps _
    · split
      · exact (KeepsSteps.modify _).bind fun _ => push_keepsSteps _
      · exact KeepsSteps.pure _

theorem enter_keepsSteps (address : Nat) (receiver : Option Value) (args : Array Value) :
    (enter address receiver args).KeepsSteps := by
  intro s
  unfold enter
  simp only [EStateM.run_bind, EStateM.run_get]
  repeat' split
  all_goals rfl

theorem call_keepsSteps (argc : Nat) : (call argc).KeepsSteps := by
  unfold call
  refine pop_keepsSteps.bind fun callee => ?_
  split
  · refine KeepsSteps.get fun s₁ => ?_
    split
    · dsimp only
      split
      case' isTrue => refine (KeepsSteps.map _ pop_keepsSteps).bind fun receiver => ?_
      case' isFalse => refine (KeepsSteps.pure _).bind fun receiver => ?_
      all_goals
        refine KeepsSteps.get fun s₂ => (KeepsSteps.of_final fun _ => rfl).bind fun height => ?_
        split
        case' isTrue => refine (KeepsSteps.throw _).bind fun _ => ?_
        all_goals
          refine (KeepsSteps.modify _).bind fun _ => ?_
          split
          · exact enter_keepsSteps _ _ _
          · exact callIntrinsic_keepsSteps _ _ _
    · exact KeepsSteps.throw _
  · exact KeepsSteps.throw _

theorem ret_keepsSteps : ret.KeepsSteps := by
  unfold ret
  refine KeepsSteps.get fun s => ?_
  dsimp only
  split <;> split
  all_goals first
    | refine (KeepsSteps.map _ pop_keepsSteps).bind fun result => ?_
    | refine (KeepsSteps.pure _).bind fun result => ?_
  all_goals
    refine frame_keepsSteps.bind fun f => (KeepsSteps.modify _).bind fun _ =>
      (KeepsSteps.modify _).bind fun _ => KeepsSteps.get fun s => ?_
    split
    · exact (KeepsSteps.modify _).bind fun _ => KeepsSteps.pure _
    · split
      · exact (push_keepsSteps _).bind fun _ => KeepsSteps.pure _
      · exact KeepsSteps.pure _

theorem execute_keepsSteps (i : Instr) : (execute i).KeepsSteps := by
  unfold execute
  refine KeepsSteps.get fun s₀ => ?_
  cases i with
  | loadConstant v => exact (push_keepsSteps v).bind fun _ => KeepsSteps.pure _
  | loadLocal slot =>
    exact (localAddress_keepsSteps slot).bind fun a => (load_keepsSteps a).bind fun v =>
      (push_keepsSteps v).bind fun _ => KeepsSteps.pure _
  | storeLocal slot =>
    exact (localAddress_keepsSteps slot).bind fun a => pop_keepsSteps.bind fun v =>
      (store_keepsSteps a v).bind fun _ => KeepsSteps.pure _
  | loadLocalAddress slot =>
    exact (localAddress_keepsSteps slot).bind fun a => (push_keepsSteps _).bind fun _ =>
      KeepsSteps.pure _
  | loadGlobal address =>
    exact (load_keepsSteps address).bind fun v => (push_keepsSteps v).bind fun _ =>
      KeepsSteps.pure _
  | storeGlobal address =>
    exact pop_keepsSteps.bind fun v => (store_keepsSteps address v).bind fun _ =>
      KeepsSteps.pure _
  | loadGlobalAddress address => exact (push_keepsSteps _).bind fun _ => KeepsSteps.pure _
  | loadPointer =>
    exact popAddress_keepsSteps.bind fun a => (load_keepsSteps a).bind fun v =>
      (push_keepsSteps v).bind fun _ => KeepsSteps.pure _
  | storePointer =>
    exact popAddress_keepsSteps.bind fun a => pop_keepsSteps.bind fun v =>
      (store_keepsSteps a v).bind fun _ => KeepsSteps.pure _
  | offsetPointer cells =>
    exact pop_keepsSteps.bind fun p => (ofExcept_keepsSteps _).bind fun v =>
      (push_keepsSteps v).bind fun _ => KeepsSteps.pure _
  | addPointer stride | subPointer stride =>
    exact pop_keepsSteps.bind fun o => pop_keepsSteps.bind fun p =>
      (ofExcept_keepsSteps _).bind fun v => (push_keepsSteps v).bind fun _ => KeepsSteps.pure _
  | dup =>
    refine KeepsSteps.get fun s₁ => ?_
    split
    · exact (push_keepsSteps _).bind fun _ => KeepsSteps.pure _
    · exact (KeepsSteps.throw _).bind fun _ => KeepsSteps.pure _
  | pop => exact pop_keepsSteps.bind fun _ => KeepsSteps.pure _
  | convert k => exact pop_keepsSteps.bind fun v => (push_keepsSteps _).bind fun _ => KeepsSteps.pure _
  | binary op =>
    exact pop_keepsSteps.bind fun r => pop_keepsSteps.bind fun l =>
      (ofExcept_keepsSteps _).bind fun v => (push_keepsSteps v).bind fun _ => KeepsSteps.pure _
  | unary op =>
    cases op with
    | neg | bitNot =>
      exact pop_keepsSteps.bind fun v => (ofExcept_keepsSteps _).bind fun w =>
        (push_keepsSteps w).bind fun _ => KeepsSteps.pure _
    | not => exact pop_keepsSteps.bind fun v => (push_keepsSteps _).bind fun _ => KeepsSteps.pure _
  | jump target => exact (KeepsSteps.modify _).bind fun _ => KeepsSteps.pure _
  | branchIfFalse target =>
    refine pop_keepsSteps.bind fun v => ?_
    split
    · exact (KeepsSteps.modify _).bind fun _ => KeepsSteps.pure _
    · exact KeepsSteps.pure _
  | call argc => exact (call_keepsSteps argc).bind fun _ => KeepsSteps.pure _
  | ret => exact ret_keepsSteps

end Primitives

/-! ### One step -/

section Step

variable {s t : Interpreter}

theorem ret_running_frames (h : ret.run s = .ok .running t) : 0 < t.frames.size := by
  unfold ret at h
  obtain ⟨_, s₁, hget, h⟩ := run_bind_eq_ok h
  cases hget
  dsimp only at h
  split at h <;> split at h
  all_goals
    obtain ⟨result, s₂, -, h⟩ := run_bind_eq_ok h
    obtain ⟨f, s₃, -, h⟩ := run_bind_eq_ok h
    obtain ⟨_, s₄, -, h⟩ := run_bind_eq_ok h
    obtain ⟨_, s₅, -, h⟩ := run_bind_eq_ok h
    obtain ⟨_, s₆, hget, h⟩ := run_bind_eq_ok h
    cases hget
    split at h
    · obtain ⟨_, _, -, h⟩ := run_bind_eq_ok h
      cases h
    · rename_i hframes
      have hkept : t.frames = s₅.frames := by
        split at h
        · obtain ⟨_, s₇, hpush, h⟩ := run_bind_eq_ok h
          cases h
          simp only [push_run, EStateM.Result.ok.injEq] at hpush
          rw [← hpush.2]
        · cases h
          rfl
      rw [hkept]
      simpa [Array.isEmpty_iff_size_eq_zero, Nat.pos_iff_ne_zero] using hframes

theorem execute_running_frames {i : Instr} (h : (execute i).run s = .ok .running t)
    (hs : 0 < s.frames.size) : 0 < t.frames.size := by
  cases hi : i.transfersControl
  case false =>
    have hloc := execute_keeps hi s
    rw [h] at hloc
    have hframes : t.frames = s.frames := hloc.frames
    rw [hframes]
    exact hs
  cases i
  case jump target =>
    rw [execute_jump] at h
    cases h
    simpa [Interpreter.jumpTo] using hs
  case branchIfFalse target =>
    rw [execute_branchIfFalse] at h
    split at h
    · split at h <;> cases h <;> simpa [Interpreter.jumpTo] using hs
    · cases h
  case call argc =>
    have hrun : (execute (.call argc)).run s = (call argc >>= fun _ => pure Status.running).run s :=
      rfl
    rw [hrun, EStateM.run_bind] at h
    rcases call_cases argc s with hloc | ⟨s₁, address, kinds, s', hloc, hok, hent⟩
    · cases hr : (call argc).run s with
      | ok a u =>
        rw [hr] at h hloc
        cases h
        have hframes : t.frames = s.frames := hloc.frames
        rw [hframes]
        exact hs
      | error e u =>
        rw [hr] at h
        cases h
    · rw [hok] at h
      cases h
      simp [hent.frames]
  case ret =>
    have hrun : (execute .ret).run s = ret.run s := by
      simp only [execute, EStateM.run_bind, EStateM.run_get]
    exact ret_running_frames (hrun ▸ h)
  all_goals simp [Instr.transfersControl] at hi

/-- A step adds one to the step count. -/
theorem step_steps {st : Status} (h : step.run s = .ok st t) : t.steps = s.steps + 1 := by
  rw [step_run] at h
  split at h
  · cases h
  · split at h
    · cases h
    · rename_i i _
      have hkeep := execute_keepsSteps i { s.advance with steps := s.steps + 1 }
      rw [h] at hkeep
      exact hkeep

/-- Only a bounded run ends in the step limit's fault, never a step. -/
theorem step_ne_stepLimit (n : Nat) : step.run s ≠ .error (.stepLimit n) t := by
  intro h
  rw [step_run] at h
  split at h
  · cases h
  · split at h
    · cases h
    · exact (execute_executional _ _ _ _ h).ne_stepLimit n rfl

/-- A step that leaves the entry function running leaves a frame. -/
theorem step_running_frames (h : step.run s = .ok .running t) : 0 < t.frames.size := by
  rw [step_run] at h
  split at h
  · cases h
  · rename_i f hback
    split at h
    · cases h
    · refine execute_running_frames h ?_
      have : 0 < s.frames.size := by
        rw [Array.back?_eq_getElem?] at hback
        by_contra hzero
        simp_all
      simpa [Interpreter.advance] using this

end Step

end VmM

namespace Interpreter

open VmM

variable {s t u : Interpreter} {k m n : Nat} {e : VmError}

/-! ### How a run stands after some steps -/

/-- From `s`, `k` steps leave the entry function running and the next one finishes it, in `t`. -/
def FinishesAfter (s : Interpreter) (k : Nat) (t : Interpreter) : Prop :=
  ∃ u, RunsIn k s u ∧ step.run u = .ok .finished t

/-- From `s`, `k` steps leave the entry function running and the next one fails with `e`, in
`t`: `k` instructions ran before the failing step. -/
def FailsAfter (s : Interpreter) (k : Nat) (e : VmError) (t : Interpreter) : Prop :=
  ∃ u, RunsIn k s u ∧ step.run u = .error e t

theorem RunsIn.steps (h : RunsIn n s t) : t.steps = s.steps + n := by
  induction h with
  | refl => rfl
  | step hs _ ih =>
    rw [ih, step_steps hs]
    omega

theorem RunsIn.frames (h : RunsIn n s t) (hs : 0 < s.frames.size) : 0 < t.frames.size := by
  induction h with
  | refl => exact hs
  | step hs' _ ih => exact ih (step_running_frames hs')

theorem FinishesAfter.after (hrun : RunsIn n s t) (h : FinishesAfter t k u) :
    FinishesAfter s (n + k) u :=
  let ⟨v, hv, hfin⟩ := h
  ⟨v, hrun.trans hv, hfin⟩

theorem FailsAfter.after (hrun : RunsIn n s t) (h : FailsAfter t k e u) : FailsAfter s (n + k) e u :=
  let ⟨v, hv, hfail⟩ := h
  ⟨v, hrun.trans hv, hfail⟩

theorem FailsAfter.ne_stepLimit (h : FailsAfter s k e t) (n : Nat) : e ≠ .stepLimit n := by
  rintro rfl
  obtain ⟨u, -, hfail⟩ := h
  exact step_ne_stepLimit n hfail

/-- The first `n` steps all leave the entry function running, or one of them finishes it or
fails. -/
theorem runsIn_or_stops (n : Nat) (s : Interpreter) :
    (∃ t, RunsIn n s t) ∨ (∃ k < n, ∃ t, FinishesAfter s k t) ∨
      (∃ k < n, ∃ e t, FailsAfter s k e t) := by
  induction n generalizing s with
  | zero => exact .inl ⟨s, .refl s⟩
  | succ n ih =>
    cases hs : step.run s with
    | ok st t =>
      cases st with
      | finished => exact .inr (.inl ⟨0, by omega, t, s, .refl s, hs⟩)
      | running =>
        -- the first step leaves the entry function running: the rest is a run of `n` steps
        rcases ih t with ⟨u, hu⟩ | ⟨k, hk, u, hfin⟩ | ⟨k, hk, e, u, hfail⟩
        · exact .inl ⟨u, .step hs hu⟩
        · exact .inr (.inl ⟨1 + k, by omega, u, hfin.after (.one hs)⟩)
        · exact .inr (.inr ⟨1 + k, by omega, e, u, hfail.after (.one hs)⟩)
    | error e t => exact .inr (.inr ⟨0, by omega, e, t, s, .refl s, hs⟩)

/-! ### What `stepsUpTo` reports in each case -/

theorem stepsUpTo_of_runsIn (h : RunsIn n s t) (last : Option Status) :
    stepsUpTo n last s = .ok (if n = 0 then last else some .running) t := by
  induction h generalizing last with
  | refl => rfl
  | step hs _ ih =>
    simp only [stepsUpTo, hs, ih]
    split <;> rfl

theorem stepsUpTo_of_finishesAfter (h : FinishesAfter s k t) (hk : k < n) (last : Option Status) :
    stepsUpTo n last s = .ok (some .finished) t := by
  obtain ⟨u, hrun, hfin⟩ := h
  induction hrun generalizing n last with
  | refl =>
    obtain ⟨n, rfl⟩ : ∃ n', n = n' + 1 := ⟨n - 1, by omega⟩
    simp only [stepsUpTo, hfin]
  | step hs _ ih =>
    obtain ⟨n, rfl⟩ : ∃ n', n = n' + 1 := ⟨n - 1, by omega⟩
    simp only [stepsUpTo, hs]
    exact ih (n := n) (by omega) _ hfin

theorem stepsUpTo_of_failsAfter (h : FailsAfter s k e t) (hk : k < n) (last : Option Status) :
    stepsUpTo n last s = .error e t := by
  obtain ⟨u, hrun, hfail⟩ := h
  induction hrun generalizing n last with
  | refl =>
    obtain ⟨n, rfl⟩ : ∃ n', n = n' + 1 := ⟨n - 1, by omega⟩
    simp only [stepsUpTo, hfail]
  | step hs _ ih =>
    obtain ⟨n, rfl⟩ : ∃ n', n = n' + 1 := ⟨n - 1, by omega⟩
    simp only [stepsUpTo, hs]
    exact ih (n := n) (by omega) _ hfail

end Interpreter

namespace VmM

open Interpreter

variable {s t u : Interpreter} {k n : Nat} {e : VmError}

/-! ### Bounded and fuelled runs in each case -/

theorem runWithLimit_run (n : Nat) (s : Interpreter) : (runWithLimit n).run s =
    match stepsUpTo n none s with
    | .ok last t =>
      if last = some .finished || t.frames.isEmpty then .ok t.result t else .error (.stepLimit n) t
    | .error e t => .error e t := by
  unfold runWithLimit
  simp only [EStateM.run_bind]
  have hsteps : (stepUpTo n).run s = stepsUpTo n none s := rfl
  rw [hsteps]
  cases stepsUpTo n none s with
  | ok last t =>
    simp only [EStateM.run_get]
    split <;> rfl
  | error e t => rfl

theorem runFor_run (n : Nat) (s : Interpreter) : (runFor n).run s =
    match stepsUpTo n none s with
    | .ok last t => if last = some .finished then .ok (some t.result) t else .ok none t
    | .error e t => .error e t := by
  unfold runFor
  simp only [EStateM.run_bind]
  have hsteps : (stepUpTo n).run s = stepsUpTo n none s := rfl
  rw [hsteps]
  cases stepsUpTo n none s with
  | ok last t =>
    dsimp only
    split <;> rfl
  | error e t => rfl

theorem runWithLimit_of_runsIn (h : RunsIn n s t) : (runWithLimit n).run s =
    if t.frames.isEmpty then .ok t.result t else .error (.stepLimit n) t := by
  rw [runWithLimit_run, stepsUpTo_of_runsIn h]
  have hlast : (if n = 0 then (none : Option Status) else some .running) ≠ some .finished := by
    split <;> simp
  simp only [hlast, decide_false, Bool.false_or]

theorem runWithLimit_of_finishesAfter (h : FinishesAfter s k t) (hk : k < n) :
    (runWithLimit n).run s = .ok t.result t := by
  rw [runWithLimit_run, stepsUpTo_of_finishesAfter h hk]
  rfl

theorem runWithLimit_of_failsAfter (h : FailsAfter s k e t) (hk : k < n) :
    (runWithLimit n).run s = .error e t := by
  rw [runWithLimit_run, stepsUpTo_of_failsAfter h hk]

theorem runFor_of_runsIn (h : RunsIn n s t) : (runFor n).run s = .ok none t := by
  rw [runFor_run, stepsUpTo_of_runsIn h]
  have hlast : (if n = 0 then (none : Option Status) else some .running) ≠ some .finished := by
    split <;> simp
  simp only [hlast, if_false]

theorem runFor_of_finishesAfter (h : FinishesAfter s k t) (hk : k < n) :
    (runFor n).run s = .ok (some t.result) t := by
  rw [runFor_run, stepsUpTo_of_finishesAfter h hk]
  rfl

theorem runFor_of_failsAfter (h : FailsAfter s k e t) (hk : k < n) :
    (runFor n).run s = .error e t := by
  rw [runFor_run, stepsUpTo_of_failsAfter h hk]

/-! ### Comparing the runs -/

/-- A run's result with a step-limit fault reported as the fault of `limit`. -/
def withLimit {α : Type} (limit : Nat) :
    EStateM.Result VmError Interpreter α → EStateM.Result VmError Interpreter α
  | .error (.stepLimit _) t => .error (.stepLimit limit) t
  | r => r

theorem runsIn_of_stepLimit (h : (runWithLimit n).run s = .error (.stepLimit n) t) :
    RunsIn n s t ∧ 0 < t.frames.size := by
  rcases runsIn_or_stops n s with ⟨u, hu⟩ | ⟨k, hk, u, hfin⟩ | ⟨k, hk, e, u, hfail⟩
  · rw [runWithLimit_of_runsIn hu] at h
    split at h
    · cases h
    · rename_i hframes
      cases h
      refine ⟨hu, ?_⟩
      simpa [Array.isEmpty_iff_size_eq_zero, Nat.pos_iff_ne_zero] using hframes
  · rw [runWithLimit_of_finishesAfter hfin hk] at h
    cases h
  · rw [runWithLimit_of_failsAfter hfail hk] at h
    cases h
    exact absurd rfl (hfail.ne_stepLimit n)

theorem runWithLimit_resume (h : (runWithLimit n).run s = .error (.stepLimit n) t) (m : Nat) :
    (runWithLimit m).run t = withLimit m ((runWithLimit (n + m)).run s) := by
  obtain ⟨hrun, -⟩ := runsIn_of_stepLimit h
  rcases runsIn_or_stops m t with ⟨u, hu⟩ | ⟨k, hk, u, hfin⟩ | ⟨k, hk, e, u, hfail⟩
  · rw [runWithLimit_of_runsIn hu, runWithLimit_of_runsIn (hrun.trans hu)]
    split <;> rfl
  · rw [runWithLimit_of_finishesAfter hfin hk,
      runWithLimit_of_finishesAfter (hfin.after hrun) (by omega)]
    rfl
  · rw [runWithLimit_of_failsAfter hfail hk, runWithLimit_of_failsAfter (hfail.after hrun) (by omega)]
    cases e
    case stepLimit limit => exact absurd rfl (hfail.ne_stepLimit limit)
    all_goals rfl

theorem runFor_ok_iff (hs : 0 < s.frames.size) (r : Option Value) (t : Interpreter) :
    (∃ fuel, (runFor fuel).run s = .ok (some r) t) ↔ ∃ n, (runWithLimit n).run s = .ok r t := by
  constructor
  · rintro ⟨fuel, h⟩
    rcases runsIn_or_stops fuel s with ⟨u, hu⟩ | ⟨k, hk, u, hfin⟩ | ⟨k, hk, e, u, hfail⟩
    · rw [runFor_of_runsIn hu] at h
      cases h
    · rw [runFor_of_finishesAfter hfin hk] at h
      cases h
      exact ⟨fuel, runWithLimit_of_finishesAfter hfin hk⟩
    · rw [runFor_of_failsAfter hfail hk] at h
      cases h
  · rintro ⟨n, h⟩
    rcases runsIn_or_stops n s with ⟨u, hu⟩ | ⟨k, hk, u, hfin⟩ | ⟨k, hk, e, u, hfail⟩
    · -- `n` steps that leave the entry function running leave a frame, so no result yet
      rw [runWithLimit_of_runsIn hu] at h
      have hframes := hu.frames hs
      split at h
      · rename_i hempty
        rw [Array.isEmpty_iff_size_eq_zero] at hempty
        omega
      · cases h
    · rw [runWithLimit_of_finishesAfter hfin hk] at h
      cases h
      exact ⟨n, runFor_of_finishesAfter hfin hk⟩
    · rw [runWithLimit_of_failsAfter hfail hk] at h
      cases h

theorem runFor_error_iff (e : VmError) (t : Interpreter) :
    (∃ fuel, (runFor fuel).run s = .error e t) ↔ ∃ k, FailsAfter s k e t := by
  constructor
  · rintro ⟨fuel, h⟩
    rcases runsIn_or_stops fuel s with ⟨u, hu⟩ | ⟨k, hk, u, hfin⟩ | ⟨k, hk, e', u, hfail⟩
    · rw [runFor_of_runsIn hu] at h
      cases h
    · rw [runFor_of_finishesAfter hfin hk] at h
      cases h
    · rw [runFor_of_failsAfter hfail hk] at h
      cases h
      exact ⟨k, hfail⟩
  · rintro ⟨k, hfail⟩
    exact ⟨k + 1, runFor_of_failsAfter hfail (by omega)⟩

theorem failsAfter_of_runWithLimit (h : ∀ n, k < n → (runWithLimit n).run s = .error e t) :
    ∃ j, FailsAfter s j e t := by
  -- at the limits `k + 1` and `k + 2` the same fault cannot be both step limits
  have hat : ∀ n, k < n → (∃ j, FailsAfter s j e t) ∨ e = .stepLimit n := by
    intro n hn
    have hn' := h n hn
    rcases runsIn_or_stops n s with ⟨u, hu⟩ | ⟨j, hj, u, hfin⟩ | ⟨j, hj, e', u, hfail⟩
    · rw [runWithLimit_of_runsIn hu] at hn'
      split at hn'
      · cases hn'
      · cases hn'
        exact .inr rfl
    · rw [runWithLimit_of_finishesAfter hfin hj] at hn'
      cases hn'
    · rw [runWithLimit_of_failsAfter hfail hj] at hn'
      cases hn'
      exact .inl ⟨j, hfail⟩
  rcases hat (k + 1) (by omega) with hfail | rfl
  · exact hfail
  · rcases hat (k + 2) (by omega) with hfail | hlimit
    · exact hfail
    · cases hlimit

/-- Bounded runs compose and agree with the unbounded run. From every state with a frame:
a bounded run that ends in the fault of its limit `n` took exactly `n` steps (the step count grew
by `n`), and resumed for `m` more steps it ends in the state and with the outcome of one bounded
run of `n + m` steps from the start (with `m` in place of `n + m` in the limit's fault); the
unbounded run returns a result exactly when some bounded run returns it; and it fails with a
fault exactly when a step does, after some number `k` of steps, and then every bounded run of
more than `k` steps fails with that fault in that state, while a fault that every bounded run past
some bound ends in is such a fault of the unbounded run. -/
theorem runWithLimit_composes (s : Interpreter) (hs : 0 < s.frames.size) :
    (∀ n m t, (runWithLimit n).run s = .error (.stepLimit n) t →
      RunsIn n s t ∧ t.steps = s.steps + n ∧
        (runWithLimit m).run t = withLimit m ((runWithLimit (n + m)).run s)) ∧
    (∀ r t, (∃ fuel, (runFor fuel).run s = .ok (some r) t) ↔
      ∃ n, (runWithLimit n).run s = .ok r t) ∧
    (∀ e t, (∃ fuel, (runFor fuel).run s = .error e t) ↔ ∃ k, FailsAfter s k e t) ∧
    (∀ k e t, FailsAfter s k e t → ∀ n, k < n → (runWithLimit n).run s = .error e t) ∧
    (∀ k e t, (∀ n, k < n → (runWithLimit n).run s = .error e t) →
      ∃ fuel, (runFor fuel).run s = .error e t) := by
  refine ⟨fun n m t h => ?_, runFor_ok_iff hs, runFor_error_iff,
    fun k e t hfail n hn => runWithLimit_of_failsAfter hfail hn, fun k e t h => ?_⟩
  · obtain ⟨hrun, -⟩ := runsIn_of_stepLimit h
    exact ⟨hrun, hrun.steps, runWithLimit_resume h m⟩
  · exact (runFor_error_iff e t).mpr (failsAfter_of_runWithLimit h)

/-- An interpreter running a function whose one instruction jumps to itself: it never finishes,
so every bounded run of it reaches its limit. -/
def spinning : Interpreter where
  program := ⟨#[⟨"main", .mk .void [] false, .compiled #[.jump 0] #[]⟩], #[.pointer], 0, .int32, 8⟩
  config := {}
  memory := #[default]
  frames := #[⟨0, 0, 1, 1, 0⟩]

theorem runWithLimit_composes_spinning :
    0 < spinning.frames.size ∧
    (∀ n m t, (runWithLimit n).run spinning = .error (.stepLimit n) t →
      RunsIn n spinning t ∧ t.steps = spinning.steps + n ∧
        (runWithLimit m).run t = withLimit m ((runWithLimit (n + m)).run spinning)) ∧
    (∀ r t, (∃ fuel, (runFor fuel).run spinning = .ok (some r) t) ↔
      ∃ n, (runWithLimit n).run spinning = .ok r t) ∧
    (∀ e t, (∃ fuel, (runFor fuel).run spinning = .error e t) ↔ ∃ k, FailsAfter spinning k e t) ∧
    (∀ k e t, FailsAfter spinning k e t → ∀ n, k < n → (runWithLimit n).run spinning = .error e t) ∧
    (∀ k e t, (∀ n, k < n → (runWithLimit n).run spinning = .error e t) →
      ∃ fuel, (runFor fuel).run spinning = .error e t) :=
  ⟨by decide, runWithLimit_composes spinning (by decide)⟩

end VmM

end CStack
