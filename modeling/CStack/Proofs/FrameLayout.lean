import CStack.Proofs.StepCases

/-!
# The layout of memory and frames

Memory is the global cells followed by a fixed number of cells for frames. The active frames lie
one after another above the globals, each taking one cell per kind of its function's frame layout
(up to the last address), all within memory; their stack bases never decrease from the bottom
frame to the top one, and the operand stack never falls below the top frame's base. This layout is
kept by every step and every reset, whether it succeeds or fails, so it holds in every state an
interpreter can reach.

Two consequences: a local slot that the current frame can address lies inside that frame, above
the globals and above every frame below it; and since pops stop at the current frame's stack base,
a callee never pops what its caller pushed.
-/

namespace CStack

namespace Interpreter

/-- The layout an interpreter for program `x` under configuration `c` keeps. -/
structure Layout (x : Executable) (c : InterpreterConfig) (s : Interpreter) : Prop where
  program : s.program = x
  config : s.config = c
  memory : s.memory.size = x.globals.size + c.stackCells
  depth : s.frames.size ≤ c.maxFrames
  first : ∀ f : Frame, s.frames[0]? = some f → f.base = x.globals.size
  adjacent : ∀ (i : Nat) (f g : Frame), s.frames[i]? = some f → s.frames[i + 1]? = some g → g.base = f.stop
  cells : ∀ (i : Nat) (f : Frame), s.frames[i]? = some f →
    ∃ kinds, x.frame? f.function = some kinds ∧ f.base ≤ addressLimit ∧
      f.stop = min (f.base + kinds.size) addressLimit
  inMemory : ∀ (i : Nat) (f : Frame), s.frames[i]? = some f → f.stop ≤ s.memory.size
  stackBases : ∀ (i : Nat) (f g : Frame), s.frames[i]? = some f → s.frames[i + 1]? = some g →
    f.stackBase ≤ g.stackBase
  floor : s.floor ≤ s.stack.size

variable {x : Executable} {c : InterpreterConfig} {s s' : Interpreter}

theorem Layout.of_local (h : s.Layout x c) (hl : s.Local s') : s'.Layout x c where
  program := hl.program.trans h.program
  config := hl.config.trans h.config
  memory := hl.memory.trans h.memory
  depth := hl.frames ▸ h.depth
  first := hl.frames ▸ h.first
  adjacent := hl.frames ▸ h.adjacent
  cells := hl.frames ▸ h.cells
  inMemory := by rw [hl.frames, hl.memory]; exact h.inMemory
  stackBases := hl.frames ▸ h.stackBases
  floor := hl.floor h.floor

theorem getElem?_moveIp {frames : Array Frame} {j i : Nat} {ip : Frame → Nat} {f' : Frame}
    (h : (frames.modify j fun f => { f with ip := ip f })[i]? = some f') :
    ∃ f, frames[i]? = some f ∧ f'.function = f.function ∧ f'.base = f.base ∧ f'.stop = f.stop ∧
      f'.stackBase = f.stackBase := by
  rw [Array.getElem?_modify] at h
  split at h
  · obtain ⟨f, hf, rfl⟩ := Option.map_eq_some_iff.mp h
    exact ⟨f, hf, rfl, rfl, rfl, rfl⟩
  · exact ⟨f', h, rfl, rfl, rfl, rfl⟩

theorem floor_moveIp (j : Nat) (ip : Frame → Nat) :
    ({ s with frames := s.frames.modify j fun f => { f with ip := ip f } } : Interpreter).floor =
      s.floor := by
  simp only [Interpreter.floor, Array.back?_eq_getElem?, Array.size_modify, Array.getElem?_modify]
  split <;> cases s.frames[s.frames.size - 1]? <;> rfl

theorem Layout.moveIp (h : s.Layout x c) (j : Nat) (ip : Frame → Nat) :
    ({ s with frames := s.frames.modify j fun f => { f with ip := ip f } } : Interpreter).Layout x c where
  program := h.program
  config := h.config
  memory := h.memory
  depth := by simpa using h.depth
  first f' hf' := by
    obtain ⟨f, hf, -, hbase, -, -⟩ := getElem?_moveIp hf'
    rw [hbase]
    exact h.first f hf
  adjacent i f' g' hf' hg' := by
    obtain ⟨f, hf, -, -, hstop, -⟩ := getElem?_moveIp hf'
    obtain ⟨g, hg, -, hbase, -, -⟩ := getElem?_moveIp hg'
    rw [hstop, hbase]
    exact h.adjacent i f g hf hg
  cells i f' hf' := by
    obtain ⟨f, hf, hfun, hbase, hstop, -⟩ := getElem?_moveIp hf'
    rw [hfun, hbase, hstop]
    exact h.cells i f hf
  inMemory i f' hf' := by
    obtain ⟨f, hf, -, -, hstop, -⟩ := getElem?_moveIp hf'
    rw [hstop]
    exact h.inMemory i f hf
  stackBases i f' g' hf' hg' := by
    obtain ⟨f, hf, -, -, -, hf₁⟩ := getElem?_moveIp hf'
    obtain ⟨g, hg, -, -, -, hg₁⟩ := getElem?_moveIp hg'
    rw [hf₁, hg₁]
    exact h.stackBases i f g hf hg
  floor := by
    rw [floor_moveIp]
    exact h.floor

theorem Layout.jumpTo (h : s.Layout x c) (target : Nat) : (s.jumpTo target).Layout x c :=
  h.moveIp _ fun _ => target

theorem Layout.advance (h : s.Layout x c) : s.advance.Layout x c :=
  h.moveIp _ fun f => f.ip + 1

theorem nextBase_of_back {f : Frame} (h : s.frames.back? = some f) : s.nextBase = f.stop := by
  simp [nextBase, h]

theorem floor_of_back {f : Frame} (h : s.frames.back? = some f) : s.floor = f.stackBase := by
  simp [floor, h]

theorem back?_eq_some {frames : Array Frame} {f : Frame} (h : frames.back? = some f) :
    frames[frames.size - 1]? = some f ∧ 0 < frames.size := by
  rw [Array.back?_eq_getElem?] at h
  refine ⟨h, ?_⟩
  rcases Nat.eq_zero_or_pos frames.size with h0 | h0
  · simp [h0] at h
  · exact h0

theorem Layout.entered {address : Nat} {kinds : Array Kind} (h : s.Layout x c)
    (he : s.Entered s' address kinds) : s'.Layout x c := by
  have hframe : x.frame? address = some kinds := h.program ▸ he.frame
  have hnew : ∀ i (g : Frame), s'.frames[i]? = some g →
      (i < s.frames.size ∧ s.frames[i]? = some g) ∨
      (i = s.frames.size ∧ g = ⟨address, 0, s.nextBase,
        min (s.nextBase + kinds.size) addressLimit, s.stack.size⟩) := by
    intro i g hg
    rw [he.frames, Array.getElem?_push] at hg
    split at hg
    · exact .inr ⟨‹_›, (Option.some.inj hg).symm⟩
    · exact .inl ⟨by
        rcases Nat.lt_or_ge i s.frames.size with hi | hi
        · exact hi
        · have : s.frames[i]? = none := Array.getElem?_eq_none hi
          simp [this] at hg, hg⟩
  refine ⟨he.program.trans h.program, he.config.trans h.config, he.memory.trans h.memory, ?_,
    ?_, ?_, ?_, ?_, ?_, ?_⟩
  · rw [he.frames, Array.size_push, ← h.config]
    exact he.depth
  · intro g hg
    rcases hnew 0 g hg with ⟨-, hold⟩ | ⟨hzero, rfl⟩
    · exact h.first g hold
    · cases hback : s.frames.back? with
      | none => simp [nextBase, hback, h.program]
      | some f =>
        have := (back?_eq_some hback).2
        omega
  · intro i f g hf hg
    rcases hnew (i + 1) g hg with ⟨-, hg'⟩ | ⟨hi, rfl⟩
    · rcases hnew i f hf with ⟨-, hf'⟩ | ⟨hi, -⟩
      · exact h.adjacent i f g hf' hg'
      · have : i + 1 < s.frames.size := (Array.getElem?_eq_some_iff.mp hg').1
        omega
    · rcases hnew i f hf with ⟨-, hf'⟩ | ⟨hi', -⟩
      · obtain ⟨hlast, -⟩ : s.frames[s.frames.size - 1]? = some f ∧ 0 < s.frames.size := by
          refine ⟨?_, by omega⟩
          rw [show s.frames.size - 1 = i by omega]
          exact hf'
        have hback : s.frames.back? = some f := by rw [Array.back?_eq_getElem?]; exact hlast
        exact nextBase_of_back hback
      · omega
  · intro i g hg
    rcases hnew i g hg with ⟨-, hold⟩ | ⟨-, rfl⟩
    · exact h.cells i g hold
    · exact ⟨kinds, hframe, he.base, rfl⟩
  · intro i g hg
    rw [he.memory]
    rcases hnew i g hg with ⟨-, hold⟩ | ⟨-, rfl⟩
    · exact h.inMemory i g hold
    · exact he.inMemory
  · intro i f g hf hg
    rcases hnew (i + 1) g hg with ⟨-, hg'⟩ | ⟨hi, rfl⟩
    · rcases hnew i f hf with ⟨-, hf'⟩ | ⟨hi, -⟩
      · exact h.stackBases i f g hf' hg'
      · have : i + 1 < s.frames.size := (Array.getElem?_eq_some_iff.mp hg').1
        omega
    · rcases hnew i f hf with ⟨-, hf'⟩ | ⟨hi', -⟩
      · have hback : s.frames.back? = some f := by
          rw [Array.back?_eq_getElem?, show s.frames.size - 1 = i by omega]
          exact hf'
        have := h.floor
        rw [floor_of_back hback] at this
        exact this
      · omega
  · have hback : s'.frames.back? = some ⟨address, 0, s.nextBase,
        min (s.nextBase + kinds.size) addressLimit, s.stack.size⟩ := by
      rw [he.frames]; simp
    exact Nat.le_of_eq (by rw [floor_of_back hback, he.stack])

theorem getElem?_pop_eq_some {frames : Array Frame} {i : Nat} {g : Frame}
    (h : frames.pop[i]? = some g) : frames[i]? = some g := by
  rw [Array.getElem?_pop] at h
  split at h
  · exact h
  · cases h

theorem Layout.returned {f : Frame} (h : s.Layout x c) (hr : s.Returned s' f) : s'.Layout x c := by
  refine ⟨hr.program.trans h.program, hr.config.trans h.config, hr.memory.trans h.memory, ?_,
    ?_, ?_, ?_, ?_, ?_, ?_⟩
  · rw [hr.frames, Array.size_pop]
    exact Nat.le_trans (Nat.sub_le _ _) h.depth
  · intro g hg
    rw [hr.frames] at hg
    exact h.first g (getElem?_pop_eq_some hg)
  · intro i f g hf hg
    rw [hr.frames] at hf hg
    exact h.adjacent i f g (getElem?_pop_eq_some hf) (getElem?_pop_eq_some hg)
  · intro i g hg
    rw [hr.frames] at hg
    exact h.cells i g (getElem?_pop_eq_some hg)
  · intro i g hg
    rw [hr.frames] at hg
    rw [hr.memory]
    exact h.inMemory i g (getElem?_pop_eq_some hg)
  · intro i f g hf hg
    rw [hr.frames] at hf hg
    exact h.stackBases i f g (getElem?_pop_eq_some hf) (getElem?_pop_eq_some hg)
  · -- the frame below the one returned from has a stack base no higher than its own
    cases hback : s'.frames.back? with
    | none => simp [Interpreter.floor, hback]
    | some g =>
      rw [floor_of_back hback]
      rw [hr.frames, Array.back?_pop] at hback
      split at hback
      · cases hback
      · obtain ⟨hlast, -⟩ := back?_eq_some hr.current
        have hbelow := h.stackBases (s.frames.size - 2) g f hback (by
          rw [show s.frames.size - 2 + 1 = s.frames.size - 1 by omega]
          exact hlast)
        exact Nat.le_trans hbelow hr.stack

theorem Layout.moves (h : s.Layout x c) (hm : s.Moves s') : s'.Layout x c := by
  cases hm with
  | stay hl => exact h.of_local hl
  | jump target hl => exact (h.of_local hl).jumpTo target
  | enter address kinds hl he => exact (h.of_local hl).entered he
  | leave f hl hr => exact (h.of_local hl).returned hr

theorem Moves.below (hs : s.floor ≤ s.stack.size) (hm : s.Moves s') :
    s'.stack.take s.floor = s.stack.take s.floor := by
  cases hm with
  | stay hl => exact hl.below hs
  | jump target hl => exact hl.below hs
  | enter address kinds hl he => rw [he.stack]; exact hl.below hs
  | @leave s₁ _ f hl hr =>
    -- the frame left is the current one, so its stack base is the floor
    have hfloor : s.floor = f.stackBase := by
      rw [← floor_congr hl.frames]
      exact floor_of_back hr.current
    rw [hfloor, hr.below, ← hfloor]
    exact hl.below hs

theorem Layout.of_empty (hp : s.program = x) (hc : s.config = c)
    (hm : s.memory.size = x.globals.size + c.stackCells) (hf : s.frames = #[]) : s.Layout x c where
  program := hp
  config := hc
  memory := hm
  depth := by simp [hf]
  first _ h := by simp [hf] at h
  adjacent _ _ _ h := by simp [hf] at h
  cells _ _ h := by simp [hf] at h
  inMemory _ _ h := by simp [hf] at h
  stackBases _ _ _ h := by simp [hf] at h
  floor := by simp [Interpreter.floor, hf]

theorem size_freshMemory : (freshMemory x c).size = x.globals.size + c.stackCells := by
  simp [freshMemory]

theorem Layout.load : (Interpreter.load x c).Layout x c :=
  .of_empty rfl rfl size_freshMemory rfl

theorem Layout.cleared (h : s.Layout x c) : s.cleared.Layout x c :=
  .of_empty h.program h.config (by rw [Interpreter.cleared, size_freshMemory, h.program, h.config]) rfl

theorem Layout.step (h : s.Layout x c) : (VmM.final (VmM.step.run s)).Layout x c := by
  rw [VmM.step_run]
  cases s.frames.back? with
  | none => exact h
  | some f =>
    dsimp only
    cases s.instrAt? f with
    | none => exact h.advance
    | some i =>
      have ht : ({ s.advance with steps := s.steps + 1 } : Interpreter).Layout x c :=
        h.advance.of_local ⟨rfl, rfl, rfl, rfl, id, fun _ => rfl⟩
      exact ht.moves (VmM.execute_moves i ht.floor)

theorem Layout.reset (h : s.Layout x c) (entry : String) :
    (VmM.final ((VmM.reset entry).run s)).Layout x c := by
  rcases VmM.reset_cases entry (s := s) with ⟨e, he⟩ | ⟨address, -, he⟩
  · rw [he]
    exact h
  rw [he, EStateM.run_bind]
  rcases VmM.enter_cases address none #[] s.cleared with ⟨e, he₁⟩ | ⟨kinds, s₁, he₁, hent₁⟩
  · rw [he₁]
    exact h.cleared
  rw [he₁]
  dsimp only
  have h₁ := h.cleared.entered hent₁
  rcases VmM.enter_cases s.program.init none #[] s₁ with ⟨e, he₂⟩ | ⟨kinds', s₂, he₂, hent₂⟩
  · rw [he₂]
    exact h₁
  · rw [he₂]
    exact h₁.entered hent₂

theorem step_below (hs : s.floor ≤ s.stack.size) :
    (VmM.final (VmM.step.run s)).stack.take s.floor = s.stack.take s.floor := by
  rw [VmM.step_run]
  cases s.frames.back? with
  | none => rfl
  | some f =>
    dsimp only
    cases s.instrAt? f with
    | none => rfl
    | some i =>
      have hfloor : ({ s.advance with steps := s.steps + 1 } : Interpreter).floor = s.floor :=
        floor_moveIp _ _
      have hm := VmM.execute_moves i (hfloor ▸ hs)
      rw [← hfloor]
      exact hm.below (hfloor ▸ hs)

/-! ### Frames lie in order above the globals -/

theorem Layout.base_le_stop (h : s.Layout x c) {i : Nat} {f : Frame} (hf : s.frames[i]? = some f) :
    f.base ≤ f.stop := by
  obtain ⟨kinds, -, hbase, hstop⟩ := h.cells i f hf
  rw [hstop]
  omega

theorem Layout.stop_le_base (h : s.Layout x c) {i : Nat} {f g : Frame} (k : Nat)
    (hf : s.frames[i]? = some f) (hg : s.frames[i + k + 1]? = some g) : f.stop ≤ g.base := by
  induction k generalizing g with
  | zero => exact Nat.le_of_eq (h.adjacent i f g hf hg).symm
  | succ k ih =>
    have hlt : i + k + 1 < s.frames.size := by
      have := (Array.getElem?_eq_some_iff.mp hg).1
      omega
    have hm : s.frames[i + k + 1]? = some s.frames[i + k + 1] := Array.getElem?_eq_getElem hlt
    calc f.stop ≤ s.frames[i + k + 1].base := ih hm
      _ ≤ s.frames[i + k + 1].stop := h.base_le_stop hm
      _ = g.base := (h.adjacent _ _ g hm hg).symm

theorem Layout.globals_le_base (h : s.Layout x c) {i : Nat} {f : Frame}
    (hf : s.frames[i]? = some f) : x.globals.size ≤ f.base := by
  cases i with
  | zero => exact Nat.le_of_eq (h.first f hf).symm
  | succ k =>
    have hlt : 0 < s.frames.size := by
      have := (Array.getElem?_eq_some_iff.mp hf).1
      omega
    have h₀ : s.frames[0]? = some s.frames[0] := Array.getElem?_eq_getElem hlt
    calc x.globals.size = s.frames[0].base := (h.first _ h₀).symm
      _ ≤ s.frames[0].stop := h.base_le_stop h₀
      _ ≤ f.base := h.stop_le_base k h₀ (by rw [Nat.zero_add]; exact hf)

theorem Layout.stop_eq (h : s.Layout x c) (hsmall : x.globals.size + c.stackCells < addressLimit)
    {i : Nat} {f : Frame} (hf : s.frames[i]? = some f) :
    ∃ kinds, x.frame? f.function = some kinds ∧ f.stop = f.base + kinds.size := by
  obtain ⟨kinds, hkinds, -, hstop⟩ := h.cells i f hf
  have hin := h.inMemory i f hf
  rw [h.memory] at hin
  exact ⟨kinds, hkinds, by omega⟩

theorem Layout.localAddress_mem (h : s.Layout x c) {slot a : Nat}
    (hrun : (VmM.localAddress slot).run s = .ok a s') :
    ∃ f, s.frames.back? = some f ∧ x.globals.size ≤ f.base ∧ f.base ≤ a ∧ a < f.stop ∧
      ∀ (j : Nat) (g : Frame), j + 1 < s.frames.size → s.frames[j]? = some g → g.stop ≤ f.base := by
  rw [VmM.localAddress_run] at hrun
  cases hback : s.frames.back? with
  | none =>
    rw [hback] at hrun
    cases hrun
  | some f =>
    rw [hback] at hrun
    dsimp only at hrun
    split at hrun
    · cases hrun
    rename_i hinside
    cases hrun
    obtain ⟨hlast, -⟩ := back?_eq_some hback
    obtain ⟨kinds, -, hbase, -⟩ := h.cells _ f hlast
    refine ⟨f, rfl, h.globals_le_base hlast, by omega, by omega, fun j g hj hg => ?_⟩
    exact h.stop_le_base (s.frames.size - 2 - j) hg (by
      rw [show j + (s.frames.size - 2 - j) + 1 = s.frames.size - 1 by omega]
      exact hlast)

end Interpreter

/-! ### Reachable states -/

/-- The states of an interpreter for `x` under `c`: loaded, then reset or stepped any number of
times in any order, each reset and each step kept whether it succeeded or failed. -/
inductive Reachable (x : Executable) (c : InterpreterConfig) : Interpreter → Prop
  | load : Reachable x c (Interpreter.load x c)
  | reset {s : Interpreter} (entry : String) :
      Reachable x c s → Reachable x c (VmM.final ((VmM.reset entry).run s))
  | step {s : Interpreter} : Reachable x c s → Reachable x c (VmM.final (VmM.step.run s))

namespace Reachable

variable {x : Executable} {c : InterpreterConfig} {s : Interpreter}

theorem layout (h : Reachable x c s) : s.Layout x c := by
  induction h with
  | load => exact Interpreter.Layout.load
  | reset entry _ ih => exact ih.reset entry
  | step _ ih => exact ih.step

theorem stepsUpTo (h : Reachable x c s) (n : Nat) (last : Option Status) :
    Reachable x c (VmM.final (Interpreter.stepsUpTo n last s)) := by
  induction n generalizing s last with
  | zero => exact h
  | succ n ih =>
    have hstep := h.step
    unfold Interpreter.stepsUpTo
    cases hr : VmM.step.run s with
    | ok st s' =>
      rw [hr] at hstep
      cases st with
      | finished => exact hstep
      | running => exact ih hstep _
    | error e s' =>
      rw [hr] at hstep
      exact hstep

theorem runWithLimit (h : Reachable x c s) (limit : Nat) :
    Reachable x c (VmM.final ((VmM.runWithLimit limit).run s)) := by
  have hsteps := h.stepsUpTo limit none
  have hrun : (VmM.stepUpTo limit).run s = Interpreter.stepsUpTo limit none s := rfl
  unfold VmM.runWithLimit
  simp only [EStateM.run_bind, EStateM.run_get, hrun]
  cases hr : Interpreter.stepsUpTo limit none s with
  | ok last s' =>
    rw [hr] at hsteps
    dsimp only
    split <;> exact hsteps
  | error e s' =>
    rw [hr] at hsteps
    exact hsteps

end Reachable

/-- Every state an interpreter reaches is laid out (`Interpreter.Layout`): memory is the globals
and the frame cells, each active frame starts where the one below it ends, the first one where the
globals end, each takes one cell per kind of its function's frame layout within memory, there are
no more frames than the configuration allows, stack bases rise from the bottom frame to the top
one and the stack stands at or above the top one's. When memory has fewer cells than there are
addresses, each frame takes exactly one cell per kind. So a local slot of the current frame names
a cell above the globals and above every frame below it, and a step leaves what lies below the
current frame's stack base on the stack. -/
theorem reachable_frameLayout {x : Executable} {c : InterpreterConfig} {s : Interpreter}
    (hsmall : x.globals.size + c.stackCells < addressLimit) (hs : Reachable x c s) :
    s.Layout x c ∧
      (∀ (i : Nat) (f : Frame), s.frames[i]? = some f →
        ∃ kinds, x.frame? f.function = some kinds ∧ f.stop = f.base + kinds.size) ∧
      (∀ (slot a : Nat) (s' : Interpreter), (VmM.localAddress slot).run s = .ok a s' →
        ∃ f, s.frames.back? = some f ∧ x.globals.size ≤ f.base ∧ f.base ≤ a ∧ a < f.stop ∧
          ∀ (j : Nat) (g : Frame), j + 1 < s.frames.size → s.frames[j]? = some g → g.stop ≤ f.base) ∧
      (VmM.final (VmM.step.run s)).stack.take s.floor = s.stack.take s.floor := by
  have h := hs.layout
  exact ⟨h, fun i f hf => h.stop_eq hsmall hf, fun slot a s' hrun => h.localAddress_mem hrun,
    Interpreter.step_below h.floor⟩

/-- A program whose only function, `main`, returns at once. -/
def returnAtOnce : Executable :=
  ⟨#[⟨"main", .mk .void [] false, .compiled #[.ret] #[]⟩], #[.pointer], 0, .int32, 4⟩

theorem reachable_frameLayout_afterStep :
    let s := VmM.final (VmM.step.run (VmM.final ((VmM.reset "main").run
      (Interpreter.load returnAtOnce {}))))
    returnAtOnce.globals.size + ({} : InterpreterConfig).stackCells < addressLimit ∧
    s.Layout returnAtOnce {} ∧
      (∀ (i : Nat) (f : Frame), s.frames[i]? = some f →
        ∃ kinds, returnAtOnce.frame? f.function = some kinds ∧ f.stop = f.base + kinds.size) ∧
      (∀ (slot a : Nat) (s' : Interpreter), (VmM.localAddress slot).run s = .ok a s' →
        ∃ f, s.frames.back? = some f ∧ returnAtOnce.globals.size ≤ f.base ∧ f.base ≤ a ∧
          a < f.stop ∧ ∀ (j : Nat) (g : Frame), j + 1 < s.frames.size → s.frames[j]? = some g → g.stop ≤ f.base) ∧
      (VmM.final (VmM.step.run s)).stack.take s.floor = s.stack.take s.floor :=
  ⟨by decide, reachable_frameLayout (by decide) (.step (.reset "main" .load))⟩

end CStack
