import CStack.Proofs.StepCases

/-!
# What a failed reset leaves behind

A reset looks the entry function up and checks that it is a compiled function without a receiver
before it changes anything; a reset that fails there leaves the interpreter as it was. Past the
check it clears memory, the stacks, the result and the step count, and enters two frames: the
entry function's, then the global initialiser's above it, so that the initialiser runs first.

Either enter can fail, on the frame limit or on memory. When the entry's frame cannot be entered,
the interpreter is left cleared with no frame, so it is not running. When the entry's frame is
entered and the initialiser's is not, the reset fails but leaves the entry function scheduled with
no initialiser above it: a later step runs the entry function on globals that were zeroed but
never initialised. `reset_error_cases` says that these three are the only outcomes of a failed
reset, and that the last one happens only when the initialiser's frame does not fit above the
entry's (`CanEnter`). A limit of one frame is such a case (`reset_error_cases_oneFrame`).
-/

namespace CStack

namespace Interpreter

/-- A frame for the compiled function at `address` can be entered next: the function is compiled,
the frame limit leaves room for one more frame, and its cells, starting where the current frame
ends, lie in memory. -/
def CanEnter (s : Interpreter) (address : Nat) : Prop :=
  ∃ kinds, s.program.frame? address = some kinds ∧ s.frames.size < s.config.maxFrames ∧
    s.nextBase ≤ addressLimit ∧ min (s.nextBase + kinds.size) addressLimit ≤ s.memory.size

end Interpreter

namespace VmM

open Interpreter

variable {s : Interpreter}

theorem enter_succeeds {address : Nat} (h : s.CanEnter address) (receiver : Option Value)
    (args : Array Value) : ∃ t, (enter address receiver args).run s = .ok () t := by
  obtain ⟨kinds, hframe, hdepth, hbase, hfit⟩ := h
  simp only [Executable.frame?, Option.bind_eq_some_iff] at hframe
  obtain ⟨f, hf, hbody⟩ := hframe
  unfold enter
  simp only [EStateM.run_bind, EStateM.run_get]
  rw [hf]
  dsimp only
  split at hbody
  · rename_i code kinds' hcompiled
    cases hbody
    rw [hcompiled]
    dsimp only
    simp only [ge_iff_le, Nat.not_le.mpr hdepth, if_false]
    -- the new frame starts at `nextBase`, so neither limit is hit
    cases hback : s.frames.back? <;> simp only [Interpreter.nextBase, hback] at hbase hfit <;>
      simp only [gt_iff_lt, Nat.not_lt.mpr hbase, Nat.not_lt.mpr hfit, if_false] <;>
      exact ⟨_, rfl⟩
  · cases hbody

theorem not_canEnter_of_enter_error {address : Nat} {receiver : Option Value}
    {args : Array Value} {e : VmError} {t : Interpreter}
    (h : (enter address receiver args).run s = .error e t) : ¬s.CanEnter address := by
  intro hcan
  obtain ⟨t', hok⟩ := enter_succeeds hcan receiver args
  rw [hok] at h
  cases h

theorem step_notRunning (h : s.frames = #[]) : step.run s = .error .notRunning s := by
  rw [step_run]
  simp [h]

/-- A failed reset leaves one of three interpreters. The interpreter as it was, when the entry
function is not found or cannot be run. The interpreter cleared with no frame, which does not run,
when the entry's frame cannot be entered. Or the cleared interpreter with only the entry function's
frame entered, when the initialiser's frame cannot be entered above it; this last interpreter runs
the entry function without the initialiser. -/
theorem reset_error_cases {entry : String} {s' : Interpreter} {e : VmError}
    (h : (reset entry).run s = .error e s') :
    s' = s ∨ (s' = s.cleared ∧ step.run s' = .error .notRunning s') ∨
      ∃ address kinds, s.program.findFunction entry = some address ∧
        s.cleared.Entered s' address kinds ∧ ¬s'.CanEnter s.program.init := by
  rcases reset_cases entry (s := s) with ⟨e', he⟩ | ⟨address, hfind, he⟩
  · -- the entry was refused before anything changed
    rw [he] at h
    cases h
    exact .inl rfl
  rw [he, EStateM.run_bind] at h
  rcases enter_cases address none #[] s.cleared with ⟨e₁, he₁⟩ | ⟨kinds, s₁, he₁, hent₁⟩
  · -- the entry's frame did not fit: nothing is running
    rw [he₁] at h
    cases h
    exact .inr (.inl ⟨rfl, step_notRunning rfl⟩)
  · -- the entry's frame is in, the initialiser's is not
    rw [he₁] at h
    dsimp only at h
    rcases enter_cases s.program.init none #[] s₁ with ⟨e₂, he₂⟩ | ⟨kinds₂, s₂, he₂, -⟩
    · rw [he₂] at h
      cases h
      exact .inr (.inr ⟨address, kinds, hfind, hent₁, not_canEnter_of_enter_error he₂⟩)
    · rw [he₂] at h
      cases h

/-- A program of two compiled functions: the initialiser at `0`, and `main`, which returns `7`. -/
def initialiserAndMain : Executable where
  functions := #[⟨initFunctionName, .mk .void [] false, .compiled #[.ret] #[]⟩,
    ⟨"main", .mk (.basic (.make .int .signed {})) [] false,
      .compiled #[.loadConstant (.int32 7), .ret] #[]⟩]
  globals := #[.pointer]
  init := 0
  intKind := .int32
  pointerSize := 4

/-- `initialiserAndMain` loaded with room for one frame and four cells of frames. -/
def oneFrameStart : Interpreter :=
  Interpreter.load initialiserAndMain { maxFrames := 1, stackCells := 4 }

/-- Whether resetting `oneFrameStart` to `main` fails and leaves one frame. -/
def resetLeavesOneFrame : Bool :=
  match (reset "main").run oneFrameStart with
  | .error _ s' => s'.frames.size == 1
  | .ok _ _ => false

/-- With a limit of one frame, resetting to `main` enters `main` and then fails on the
initialiser's frame, leaving `main` running without it. -/
theorem reset_error_cases_oneFrame :
    ∃ e s', (reset "main").run oneFrameStart = .error e s' ∧ s'.frames.size = 1 ∧
      (s' = oneFrameStart ∨
        (s' = oneFrameStart.cleared ∧ step.run s' = .error .notRunning s') ∨
        ∃ address kinds, oneFrameStart.program.findFunction "main" = some address ∧
          oneFrameStart.cleared.Entered s' address kinds ∧
          ¬s'.CanEnter oneFrameStart.program.init) := by
  have hleaves : resetLeavesOneFrame = true := by decide +kernel
  unfold resetLeavesOneFrame at hleaves
  cases hr : (reset "main").run oneFrameStart with
  | ok u s' =>
    rw [hr] at hleaves
    cases hleaves
  | error e s' =>
    rw [hr] at hleaves
    exact ⟨e, s', rfl, by simpa using hleaves, reset_error_cases hr⟩

end VmM

end CStack
