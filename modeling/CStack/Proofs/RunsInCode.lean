import Mathlib
import CStack.Proofs.FrameLayout
import CStack.Proofs.CompiledFunctions
import CStack.Proofs.Faults

/-!
# Compiled code never runs off its end

Every compiled function of an executable that compiles ends in a return and jumps only to its own
instructions (`Executable.CodeEnds`). From that, every active frame stays at an instruction of its
code (`Interpreter.AtInstructions`) along a run: a reset enters two functions at their first
instruction, an instruction other than the last is followed by another, jumps and branches land
inside the code, a call enters code that is not empty, and the last instruction is a return,
which leaves the frame. So the fetch of the next instruction never fails, and since no instruction
fails by running past its code either, no step does (`compile_runsInCode`).
-/

namespace CStack

namespace Executable

/-- Every compiled function of an executable ends in a return and jumps only inside its code. -/
def CodeEnds (x : Executable) : Prop :=
  ∀ address code, x.code? address = some code → EndsInReturn code

theorem code?_of_frame? {x : Executable} {address : Nat} {kinds : Array Kind}
    (h : x.frame? address = some kinds) : ∃ code, x.code? address = some code := by
  obtain ⟨fn, hfn, hbody⟩ := Option.bind_eq_some_iff.mp h
  cases hb : fn.body with
  | compiled code kinds' => exact ⟨code, by simp [code?, hfn, hb]⟩
  | intrinsic program => simp [hb] at hbody

theorem codeEnds_of_compile {unit : CompilationUnit} {m : Machine} {config : ReportConfig}
    {x : Executable} (hx : compile unit m config = .ok x) : x.CodeEnds := by
  intro address code hcode
  obtain ⟨fn, hfn, hbody⟩ := Option.bind_eq_some_iff.mp hcode
  cases hb : fn.body with
  | compiled code' kinds =>
    simp only [hb, Option.some.injEq] at hbody
    subst hbody
    exact (compile_compiledFunctions hx hfn hb).1.ends
  | intrinsic program => simp [hb] at hbody

end Executable

namespace Interpreter

/-- Every active frame is at an instruction of its function's code. -/
def AtInstructions (s : Interpreter) : Prop :=
  ∀ (i : Nat) (f : Frame), s.frames[i]? = some f →
    ∃ code, s.program.code? f.function = some code ∧ f.ip < code.size

variable {s s' : Interpreter}

namespace AtInstructions

theorem instrAt? (h : s.AtInstructions) {f : Frame} (hf : f ∈ s.frames) :
    ∃ instr, s.instrAt? f = some instr := by
  obtain ⟨i, hi, rfl⟩ := Array.getElem_of_mem hf
  obtain ⟨code, hcode, hip⟩ := h i _ (Array.getElem?_eq_getElem hi)
  exact ⟨code[s.frames[i].ip], by simp [Interpreter.instrAt?, hcode, hip]⟩

theorem of_frames (h : s.AtInstructions) (hprogram : s'.program = s.program)
    (hframes : ∀ (i : Nat) (f : Frame), s'.frames[i]? = some f → s.frames[i]? = some f) : s'.AtInstructions :=
  fun i f hf => by
    rw [hprogram]
    exact h i f (hframes i f hf)

theorem of_local (h : s.AtInstructions) (hl : s.Local s') : s'.AtInstructions :=
  h.of_frames hl.program fun _ _ hf => hl.frames ▸ hf

theorem returned {f : Frame} (h : s.AtInstructions) (hr : s.Returned s' f) : s'.AtInstructions :=
  h.of_frames hr.program fun _ _ hg => getElem?_pop_eq_some (hr.frames ▸ hg)

theorem moveIp (h : s.AtInstructions) {f : Frame} (hback : s.frames.back? = some f)
    (ip : Frame → Nat) {code : Array Instr} (hcode : s.program.code? f.function = some code)
    (hip : ip f < code.size) :
    ({ s with frames := s.frames.modify (s.frames.size - 1) fun f => { f with ip := ip f } } :
      Interpreter).AtInstructions := by
  intro i g hg
  simp only [Array.getElem?_modify] at hg
  split at hg
  · rename_i hlast
    obtain ⟨f', hf', rfl⟩ := Option.map_eq_some_iff.mp hg
    have hf : f' = f := by
      rw [← hlast, ← Array.back?_eq_getElem?] at hf'
      exact Option.some.inj (hf'.symm.trans hback)
    subst hf
    exact ⟨code, hcode, hip⟩
  · exact h i g hg

theorem entered {address : Nat} {kinds : Array Kind} (h : s.AtInstructions)
    (hends : s.program.CodeEnds) (he : s.Entered s' address kinds) : s'.AtInstructions := by
  intro i g hg
  rw [he.frames, Array.getElem?_push] at hg
  rw [he.program]
  split at hg
  · cases hg
    obtain ⟨code, hcode⟩ := Executable.code?_of_frame? he.frame
    have hlast := (hends address code hcode).last
    refine ⟨code, hcode, ?_⟩
    rcases Nat.eq_zero_or_pos code.size with hzero | hpos
    · simp [Array.back?_eq_getElem?, hzero] at hlast
    · exact hpos
  · exact h i g hg

end AtInstructions

end Interpreter

namespace VmM

open Interpreter

theorem execute_ok_of_ne_ret {t t' : Interpreter} {i : Instr} {st : Status} (hi : i ≠ .ret)
    (h : (execute i).run t = .ok st t') :
    t.Local t' ∨ (∃ target, i.target? = some target ∧ ∃ t₁, t.Local t₁ ∧ t' = t₁.jumpTo target) ∨
      ∃ t₁ address kinds, t.Local t₁ ∧ t₁.Entered t' address kinds := by
  cases hc : i.transfersControl
  case false =>
    have hkeeps := execute_keeps hc t
    rw [h] at hkeeps
    exact .inl hkeeps
  cases i
  case jump target =>
    rw [execute_jump] at h
    cases h
    exact .inr (.inl ⟨target, rfl, t, Local.refl t, rfl⟩)
  case branchIfFalse target =>
    rw [execute_branchIfFalse] at h
    split at h
    · rename_i hfloor
      have hpop : t.Local { t with stack := t.stack.pop } := by
        have hkeeps := pop_keeps t
        rwa [pop_run, if_pos hfloor] at hkeeps
      split at h
      · cases h
        exact .inl hpop
      · cases h
        exact .inr (.inl ⟨target, rfl, _, hpop, rfl⟩)
    · cases h
  case call argc =>
    have hrun : (execute (.call argc)).run t = (call argc >>= fun _ => pure Status.running).run t :=
      rfl
    rw [hrun, EStateM.run_bind] at h
    rcases call_cases argc t with hloc | ⟨t₁, address, kinds, t₂, hloc, hok, hent⟩
    · cases hr : (call argc).run t with
      | error e t₂ => rw [hr] at h; cases h
      | ok u t₂ =>
        rw [hr] at h hloc
        cases h
        exact .inl hloc
    · rw [hok] at h
      cases h
      exact .inr (.inr ⟨t₁, address, kinds, hloc, hent⟩)
  case ret => exact absurd rfl hi
  all_goals simp [Instr.transfersControl] at hc

theorem execute_ret_ok {t t' : Interpreter} {st : Status} (hfloor : t.floor ≤ t.stack.size)
    (h : (execute .ret).run t = .ok st t') : t'.program = t.program ∧ t'.frames = t.frames.pop := by
  have hrun : (execute .ret).run t = ret.run t := by
    simp only [execute, EStateM.run_bind, EStateM.run_get]
  rw [hrun] at h
  rcases ret_cases t hfloor with ⟨e, t₂, he, -⟩ | ⟨t₁, f, st', t₂, hloc, hok, hret⟩
  · rw [he] at h
    cases h
  · rw [hok] at h
    cases h
    exact ⟨hret.program.trans hloc.program, by rw [hret.frames, hloc.frames]⟩

end VmM

namespace Interpreter.AtInstructions

open VmM

variable {s s' : Interpreter}

theorem step (h : s.AtInstructions) (hends : s.program.CodeEnds) (hfloor : s.floor ≤ s.stack.size)
    {st : Status} (hstep : VmM.step.run s = .ok st s') : s'.AtInstructions := by
  rw [step_run] at hstep
  cases hback : s.frames.back? with
  | none => rw [hback] at hstep; cases hstep
  | some f =>
    rw [hback] at hstep
    dsimp only at hstep
    cases hi : s.instrAt? f with
    | none => rw [hi] at hstep; cases hstep
    | some i =>
      rw [hi] at hstep
      dsimp only at hstep
      obtain ⟨code, hcode, hat⟩ := Option.bind_eq_some_iff.mp hi
      have hend := hends _ _ hcode
      have hfloor' : ({ s.advance with steps := s.steps + 1 } : Interpreter).floor ≤
          ({ s.advance with steps := s.steps + 1 } : Interpreter).stack.size := by
        rw [show ({ s.advance with steps := s.steps + 1 } : Interpreter).floor = s.floor from
          floor_moveIp _ _]
        exact hfloor
      by_cases hret : i = .ret
      · -- a return leaves the frame it was fetched from, with the frames below it
        subst hret
        obtain ⟨hprogram, hframes⟩ := execute_ret_ok hfloor' hstep
        refine h.of_frames hprogram fun j g hg => ?_
        rw [hframes] at hg
        have hj := getElem?_pop_eq_some hg
        simp only [Interpreter.advance, Array.getElem?_modify] at hj
        split at hj
        · rename_i hlast
          rw [Array.getElem?_pop] at hg
          simp only [Interpreter.advance, Array.size_modify] at hg
          split at hg
          · omega
          · cases hg
        · exact hj
      · -- the instruction is not the last one, which is a return
        have hnext : f.ip + 1 < code.size := by
          have hlt := (Array.getElem?_eq_some_iff.mp hat).1
          refine Nat.lt_of_le_of_ne hlt fun hsize => hret ?_
          have hlast := hend.last
          rw [Array.back?_eq_getElem?, ← hsize, Nat.add_sub_cancel, hat] at hlast
          exact Option.some.inj hlast
        have ht : ({ s.advance with steps := s.steps + 1 } : Interpreter).AtInstructions :=
          (h.moveIp hback (·.ip + 1) hcode hnext).of_frames rfl fun _ _ hg => hg
        rcases execute_ok_of_ne_ret hret hstep with hloc | ⟨target, htarget, t₁, hloc, rfl⟩ |
          ⟨t₁, address, kinds, hloc, hent⟩
        · exact ht.of_local hloc
        · -- a jump or branch goes to an instruction of the same code
          have hback₁ : t₁.frames.back? = some { f with ip := f.ip + 1 } := by
            rw [hloc.frames]
            simp only [Interpreter.advance, Array.back?_eq_getElem?, Array.size_modify,
              Array.getElem?_modify]
            rw [← Array.back?_eq_getElem?, hback]
            rfl
          have hcode₁ : t₁.program.code? f.function = some code := by
            rw [hloc.program]
            exact hcode
          exact (ht.of_local hloc).moveIp hback₁ (fun _ => target) hcode₁
            (hend.targets i (Array.mem_of_getElem? hat) target htarget)
        · have hends₁ : t₁.program.CodeEnds := by
            rw [hloc.program]
            exact hends
          exact (ht.of_local hloc).entered hends₁ hent

theorem reset (hends : s.program.CodeEnds) {entry : String}
    (hreset : (VmM.reset entry).run s = .ok () s') : s'.AtInstructions := by
  rcases VmM.reset_cases entry (s := s) with ⟨e, he⟩ | ⟨address, -, he⟩
  · rw [he] at hreset
    cases hreset
  rw [he, EStateM.run_bind] at hreset
  rcases VmM.enter_cases address none #[] s.cleared with ⟨e, he₁⟩ | ⟨kinds, s₁, he₁, hent₁⟩
  · rw [he₁] at hreset
    cases hreset
  rw [he₁] at hreset
  dsimp only at hreset
  rcases VmM.enter_cases s.program.init none #[] s₁ with ⟨e, he₂⟩ | ⟨kinds', s₂, he₂, hent₂⟩
  · rw [he₂] at hreset
    cases hreset
  rw [he₂] at hreset
  cases hreset
  have hcleared : s.cleared.AtInstructions := fun _ _ hf => by simp [Interpreter.cleared] at hf
  have hends₁ : s₁.program.CodeEnds := by
    rw [hent₁.program]
    exact hends
  exact (hcleared.entered hends hent₁).entered hends₁ hent₂

theorem step_ne_missingReturn (h : s.AtInstructions) (name : String) (s' : Interpreter) :
    VmM.step.run s ≠ .error (.missingReturn name) s' := by
  rw [step_run]
  cases hback : s.frames.back? with
  | none => exact fun hstep => nomatch hstep
  | some f =>
    obtain ⟨i, hi⟩ := h.instrAt? (Array.mem_of_getElem? hback)
    simp only [hi]
    exact fun hstep => VmM.execute_failsWith i _ _ _ hstep name rfl

end Interpreter.AtInstructions

/-- The states a run of an executable passes through: an interpreter loaded with it, reset to
an entry function, then stepped while each step succeeds. -/
inductive Runs (x : Executable) (c : InterpreterConfig) : Interpreter → Prop
  | reset {s s' : Interpreter} (entry : String) :
      Reachable x c s → (VmM.reset entry).run s = .ok () s' → Runs x c s'
  | step {s s' : Interpreter} {status : Status} :
      Runs x c s → VmM.step.run s = .ok status s' → Runs x c s'

namespace Runs

variable {x : Executable} {c : InterpreterConfig} {s : Interpreter}

theorem reachable (h : Runs x c s) : Reachable x c s := by
  induction h with
  | reset entry hs hreset =>
    have hreach := Reachable.reset entry hs
    rwa [hreset] at hreach
  | step _ hstep ih =>
    have hreach := Reachable.step ih
    rwa [hstep] at hreach

theorem atInstructions (hends : x.CodeEnds) (h : Runs x c s) : s.AtInstructions := by
  induction h with
  | reset entry hs hreset =>
    exact Interpreter.AtInstructions.reset (by rw [hs.layout.program]; exact hends) hreset
  | step hrun hstep ih =>
    have hlayout := hrun.reachable.layout
    exact ih.step (by rw [hlayout.program]; exact hends) hlayout.floor hstep

end Runs

/-- Compiled code never runs off its end. Every compiled function of an executable that
`compile` returns ends in a return and jumps only to its own instructions; so in every run that
starts with a reset, every active frame is at an instruction of its function, and no step fails
by running past the end of the code. -/
theorem compile_runsInCode {unit : CompilationUnit} {m : Machine} {config : ReportConfig}
    {x : Executable} (hx : compile unit m config = .ok x) :
    (∀ (address : Nat) (fn : Function) (code : Array Instr) (kinds : Array Kind),
      x.functions[address]? = some fn → fn.body = .compiled code kinds → EndsInReturn code) ∧
    ∀ (c : InterpreterConfig) (s : Interpreter), Runs x c s →
      (∀ f ∈ s.frames, ∃ instr, s.instrAt? f = some instr) ∧
      ∀ name s', VmM.step.run s ≠ .error (.missingReturn name) s' := by
  refine ⟨fun _ _ _ _ hfn hbody => (compile_compiledFunctions hx hfn hbody).1.ends,
    fun c s hrun => ?_⟩
  have hat := hrun.atInstructions (Executable.codeEnds_of_compile hx)
  exact ⟨fun _ hf => hat.instrAt? hf, hat.step_ne_missingReturn⟩

/-- `int main() { return 3; }`. -/
def returnsThree : CompilationUnit :=
  { functions := [
      { name := "main"
        signature := ⟨.int, []⟩
        body := some [.node Span.none (.ret (some (.node 0 Span.none (.integer 3))))] }] }

/-- The limits of a small interpreter. -/
def smallConfig : InterpreterConfig := { maxFrames := 4, stackCells := 8 }

/-- The compiled `main` of that unit ends in a return, and after a reset to `main` the frames of
`main` and of the initialiser are at instructions. -/
theorem compile_runsInCode_returnsThree :
    ∃ x fn code kinds s, compile returnsThree Machine.desktop {} = .ok x ∧
      x.functions[0]? = some fn ∧ fn.body = .compiled code kinds ∧ EndsInReturn code ∧
      Runs x smallConfig s ∧ (∀ f ∈ s.frames, ∃ instr, s.instrAt? f = some instr) ∧
      ∀ name s', VmM.step.run s ≠ .error (.missingReturn name) s' := by
  have hcheck : (compile returnsThree Machine.desktop {}).toOption.bind (fun x =>
      (x.code? 0).map fun _ => (VmM.reset "main").run' (Interpreter.load x smallConfig)) =
      some (some ()) := by
    decide +kernel
  cases hx : compile returnsThree Machine.desktop {} with
  | error e => simp [hx, Except.toOption] at hcheck
  | ok x =>
    simp only [hx, Except.toOption, Option.bind_some] at hcheck
    obtain ⟨code, hcode, hreset⟩ := Option.map_eq_some_iff.mp hcheck
    obtain ⟨fn, hfn, hbody⟩ := Option.bind_eq_some_iff.mp hcode
    cases hb : fn.body with
    | intrinsic program => simp [hb] at hbody
    | compiled code' kinds =>
      simp only [hb, Option.some.injEq] at hbody
      subst hbody
      cases hr : (VmM.reset "main").run (Interpreter.load x smallConfig) with
      | error e s' => simp [EStateM.run', hr] at hreset
      | ok u s =>
        have hruns : Runs x smallConfig s := Runs.reset "main" Reachable.load hr
        have hthm := compile_runsInCode hx
        exact ⟨x, fn, code', kinds, s, rfl, hfn, hb, hthm.1 0 fn code' kinds hfn hb, hruns,
          (hthm.2 smallConfig s hruns).1, (hthm.2 smallConfig s hruns).2⟩

end CStack
