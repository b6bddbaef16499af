import CStack.Proofs.ValueEncoding
import CStack.Proofs.CallingConvention

/-!
# Pointer arithmetic wraps at the pointer width

`OffsetPointer`, `AddPointer` and `SubPointer` move a pointer by a number of cells. The offset is
computed in wrapping signed 64-bit arithmetic, and the address is cut to the target's pointer
width: `2 ^ min (8 * pointerSize) 32` addresses, the `pointerModulus`. Each instruction therefore
pushes its intended target (`a + c`, `a + n * s` or `a - n * s`, with `n` the integer the value
stands for) reduced modulo the pointer modulus (`wrapAddress`). The 64-bit wrap-around never
shows, since the modulus divides `2 ^ 64`.

So a target in `[0, pointerModulus)` is pushed exactly, and moving a pointer below the modulus
forth and back returns it. The addresses that `LoadLocalAddress` and `LoadGlobalAddress` push are
not reduced. When memory has more cells than the pointer width can address, as with one-byte
pointers and the default stack, a pointer into the upper cells is moved to a wrapped address.
`offsetPointer_wrapsInsideMemory` shows that at one interpreter state.

The main statement is `VmM.pointerArithmetic_wrapsAtPointerWidth`.
-/

namespace CStack

/-- The number of addresses a pointer of `width` bytes holds: `2 ^ min (8 * width) 32`. -/
def pointerModulus (width : Nat) : Nat := 2 ^ min (width * 8) 32

/-- An address as a pointer of `width` bytes holds it: reduced modulo the pointer modulus. -/
def wrapAddress (width : Nat) (t : Int) : UInt32 := UInt32.ofNat (t % pointerModulus width).toNat

section Wrap

variable (w : Nat)

theorem pointerModulus_pos : 0 < pointerModulus w := Nat.two_pow_pos _

theorem pointerModulus_le : pointerModulus w ≤ 2 ^ 32 :=
  Nat.pow_le_pow_right (by decide) (Nat.min_le_right _ _)

theorem pointerModulus_dvd : (pointerModulus w : Int) ∣ 2 ^ 64 := by
  unfold pointerModulus
  push_cast
  exact pow_dvd_pow 2 (show min (w * 8) 32 ≤ 64 by omega)

theorem wrapAddress_toNat (t : Int) : ((wrapAddress w t).toNat : Int) = t % pointerModulus w := by
  have hpos : (0 : Int) < pointerModulus w := by exact_mod_cast pointerModulus_pos w
  have hle : (pointerModulus w : Int) ≤ 2 ^ 32 := by exact_mod_cast pointerModulus_le w
  have hnonneg := Int.emod_nonneg t hpos.ne'
  have hbound := Int.emod_lt_of_pos t hpos
  have hlt : (t % pointerModulus w).toNat < 2 ^ 32 := by omega
  rw [wrapAddress, UInt32.toNat_ofNat', Nat.mod_eq_of_lt hlt]
  omega

theorem wrapAddress_natCast {t : Nat} (ht : t < pointerModulus w) :
    wrapAddress w t = t.toUInt32 := by
  apply UInt32.toNat_inj.mp
  have hw := wrapAddress_toNat w t
  have hle := pointerModulus_le w
  rw [Int.emod_eq_of_lt (Int.natCast_nonneg t) (by exact_mod_cast ht)] at hw
  rw [Nat.toUInt32_eq, UInt32.toNat_ofNat', Nat.mod_eq_of_lt (by omega)]
  omega

theorem wrapAddress_sub_wrapAddress {a : UInt32} (ha : a.toNat < pointerModulus w) (δ : Int) :
    wrapAddress w ((wrapAddress w (a.toNat + δ)).toNat - δ) = a := by
  apply UInt32.toNat_inj.mp
  have hforth :
      ((wrapAddress w (a.toNat + δ)).toNat : Int) ≡ a.toNat + δ [ZMOD pointerModulus w] := by
    rw [wrapAddress_toNat]
    exact Int.mod_modEq _ _
  have hback :
      ((wrapAddress w (a.toNat + δ)).toNat : Int) - δ ≡ a.toNat [ZMOD pointerModulus w] := by
    simpa using hforth.sub_right δ
  have hw := wrapAddress_toNat w ((wrapAddress w (a.toNat + δ)).toNat - δ)
  rw [hback, Int.emod_eq_of_lt (Int.natCast_nonneg _) (by exact_mod_cast ha)] at hw
  omega

end Wrap

theorem mask_toNat {b : Nat} (hb : b ≤ 32) :
    ((1 <<< b.toUInt64) - 1 : UInt64).toNat = 2 ^ b - 1 := by
  have hlt : 2 ^ b < 2 ^ 64 := Nat.lt_of_le_of_lt (Nat.pow_le_pow_right (by decide) hb) (by decide)
  have hshift : (1 <<< b.toUInt64 : UInt64).toNat = 2 ^ b := by
    simp only [UInt64.toNat_shiftLeft, UInt64.toNat_one, Nat.shiftLeft_eq, Nat.one_mul]
    rw [UInt64.toNat_ofNat', Nat.mod_eq_of_lt (by omega : b < 2 ^ 64),
      Nat.mod_eq_of_lt (by omega : b < 64), Nat.mod_eq_of_lt hlt]
  have hle : (1 : UInt64) ≤ 1 <<< b.toUInt64 := by
    rw [UInt64.le_iff_toNat_le, hshift, UInt64.toNat_one]
    exact Nat.two_pow_pos b
  rw [UInt64.toNat_sub_of_le _ _ hle, hshift, UInt64.toNat_one]

namespace Operators

theorem offsetPointer_pointer (a : UInt32) (d : Int64) (w : Nat) {δ : Int}
    (hd : d.toInt ≡ δ [ZMOD 2 ^ 64]) :
    offsetPointer (.pointer a) d w = .ok (.pointer (wrapAddress w (a.toNat + δ))) := by
  -- the sum as the machine forms it, wrapped at 64 bits, is `a + δ` modulo `2 ^ 64`
  have hsum : ((a.toUInt64.toInt64 + d).toUInt64.toNat : Int) ≡ a.toNat + δ [ZMOD 2 ^ 64] := by
    refine (Word.int64_toUInt64_modEq _).trans ?_
    rw [Int64.toInt_add]
    exact (Word.bmod_modEq _).trans ((Word.bitVec_toInt_modEq a.toUInt64.toBitVec).add hd)
  have hmod := Int.ModEq.of_dvd (pointerModulus_dvd w) hsum
  have hmask := mask_toNat (Nat.min_le_right (w * 8) 32)
  have hw := wrapAddress_toNat w (a.toNat + δ)
  have hpos := pointerModulus_pos w
  have hle := pointerModulus_le w
  show Except.ok (Value.pointer (((a.toUInt64.toInt64 + d).toUInt64 &&& _).toUInt32)) = _
  congr 2
  apply UInt32.toNat_inj.mp
  rw [UInt64.toNat_toUInt32, UInt64.toNat_and, hmask, Nat.and_two_pow_sub_one_eq_mod]
  unfold Int.ModEq pointerModulus at hmod
  unfold pointerModulus at hw hle hpos
  omega

end Operators

theorem Value.toInt64_modEq_toInt (v : Value) : v.toInt64.toInt ≡ v.toInt [ZMOD 2 ^ 64] := by
  cases v with
  | float32 _ | float64 _ => rfl
  | int8 _ | uint8 _ | int16 _ | uint16 _ | int32 _ | uint32 _ | int64 _ | uint64 _ | pointer _ =>
    exact Value.toInt64_modEq rfl

theorem int64_ofNat_modEq (n : Nat) : (Int64.ofNat n).toInt ≡ n [ZMOD 2 ^ 64] := by
  rw [Int64.toInt_ofNat']
  exact Word.bmod_modEq _

namespace VmM

variable {s : Interpreter} {rest : Array Value} {a : UInt32}

theorem pop_run_of_floor_le {v : Value} (hfloor : s.floor ≤ rest.size)
    (hs : s.stack = rest.push v) :
    pop.run s = .ok v { s with stack := rest } := by
  rw [pop_run_push rest v hs, if_pos (by simp only [hs, Array.size_push]; omega)]

theorem execute_offsetPointer (hfloor : s.floor ≤ rest.size)
    (hs : s.stack = rest.push (.pointer a)) (c : Nat) :
    (execute (.offsetPointer c)).run s = .ok .running
      { s with stack := rest.push <|
        .pointer (wrapAddress s.program.pointerSize (a.toNat + c)) } := by
  simp only [execute, EStateM.run_bind, EStateM.run_get, pop_run_of_floor_le hfloor hs,
    Operators.offsetPointer_pointer a _ _ (int64_ofNat_modEq c)]
  rfl

theorem execute_addPointer_subPointer {n : Value} (hfloor : s.floor ≤ rest.size)
    (hs : s.stack = (rest.push (.pointer a)).push n) (stride : Nat) :
    (execute (.addPointer stride)).run s = .ok .running
      { s with stack := rest.push <|
        .pointer (wrapAddress s.program.pointerSize (a.toNat + n.toInt * stride)) } ∧
    (execute (.subPointer stride)).run s = .ok .running
      { s with stack := rest.push <|
        .pointer (wrapAddress s.program.pointerSize (a.toNat - n.toInt * stride)) } := by
  have hfloor' : s.floor ≤ (rest.push (.pointer a)).size := by
    simp only [Array.size_push]
    omega
  have hn := pop_run_of_floor_le hfloor' hs
  have ha : pop.run { s with stack := rest.push (.pointer a) } =
      .ok (.pointer a) { s with stack := rest } := pop_run_of_floor_le hfloor rfl
  -- the offset `n * stride`, formed in 64 bits, is congruent to the integer product
  have hprod : (n.toInt64 * Int64.ofNat stride).toInt ≡ n.toInt * stride [ZMOD 2 ^ 64] := by
    rw [Int64.toInt_mul]
    exact (Word.bmod_modEq _).trans ((Value.toInt64_modEq_toInt n).mul (int64_ofNat_modEq stride))
  have hneg : (-(n.toInt64 * Int64.ofNat stride)).toInt ≡ -(n.toInt * stride) [ZMOD 2 ^ 64] := by
    rw [Int64.toInt_neg]
    exact (Word.bmod_modEq _).trans hprod.neg
  constructor
  · simp only [execute, EStateM.run_bind, EStateM.run_get, hn, ha,
      Operators.offsetPointer_pointer a _ _ hprod]
    rfl
  · simp only [execute, EStateM.run_bind, EStateM.run_get, hn, ha,
      Operators.offsetPointer_pointer a _ _ hneg, ← Int.sub_eq_add_neg]
    rfl

/-- Pointer arithmetic as the machine does it. On every interpreter state whose stack holds a
pointer `a` (and, for `AddPointer` and `SubPointer`, a value `n` above it) at or above the current
frame's floor: `OffsetPointer c` pushes `a + c`, `AddPointer stride` pushes `a + n * stride` and
`SubPointer stride` pushes `a - n * stride`, where `n` is the integer the value stands for, each
taken modulo the pointer modulus `2 ^ min (8 * pointerSize) 32`. A target below the modulus is
pushed exactly. `SubPointer` with `n` undoes `AddPointer` with `n` on every pointer below the
modulus. -/
theorem pointerArithmetic_wrapsAtPointerWidth (s : Interpreter) (rest : Array Value) (a : UInt32)
    (hfloor : s.floor ≤ rest.size) :
    let w := s.program.pointerSize
    (∀ c : Nat, s.stack = rest.push (.pointer a) →
      (execute (.offsetPointer c)).run s =
        .ok .running { s with stack := rest.push (.pointer (wrapAddress w (a.toNat + c))) }) ∧
    (∀ (n : Value) (stride : Nat), s.stack = (rest.push (.pointer a)).push n →
      (execute (.addPointer stride)).run s =
        .ok .running { s with stack := rest.push (.pointer (wrapAddress w (a.toNat + n.toInt * stride))) } ∧
      (execute (.subPointer stride)).run s =
        .ok .running { s with stack := rest.push (.pointer (wrapAddress w (a.toNat - n.toInt * stride))) }) ∧
    (∀ t : Nat, t < pointerModulus w → wrapAddress w t = t.toUInt32) ∧
    (∀ (n : Value) (stride : Nat), a.toNat < pointerModulus w →
      (execute (.subPointer stride)).run
          { s with stack := (rest.push (.pointer (wrapAddress w (a.toNat + n.toInt * stride)))).push n } =
        .ok .running { s with stack := rest.push (.pointer a) }) := by
  intro w
  refine ⟨fun c hs => execute_offsetPointer hfloor hs c,
    fun n stride hs => execute_addPointer_subPointer hfloor hs stride,
    fun t ht => wrapAddress_natCast w ht, fun n stride ha => ?_⟩
  have hsub := (@execute_addPointer_subPointer
    { s with stack := (rest.push (.pointer (wrapAddress w (a.toNat + n.toInt * stride)))).push n }
    rest _ n hfloor rfl stride).2
  rw [wrapAddress_sub_wrapAddress _ ha] at hsub
  exact hsub

/-- With four-byte pointers, `AddPointer 4` moves a pointer at `300` by two cells of four to `308`. -/
theorem pointerArithmetic_wrapsAtPointerWidth_fourBytePointer :
    let s : Interpreter := { Interpreter.load ⟨#[], #[.pointer], 0, .int32, 4⟩ {} with
      stack := #[.pointer 300, .int32 2] }
    s.floor ≤ (#[] : Array Value).size ∧
    (execute (.addPointer 4)).run s = .ok .running { s with stack := #[.pointer 308] } := by
  intro s
  have hfloor : s.floor ≤ (#[] : Array Value).size := Nat.le_refl 0
  refine ⟨hfloor, ?_⟩
  rw [((pointerArithmetic_wrapsAtPointerWidth s #[] 300 hfloor).2.1 (.int32 2) 4 rfl).1]
  dsimp only [s]
  rfl

/-- With one-byte pointers and the default stack, memory has `16385` cells, but a pointer holds
`256` addresses. `LoadGlobalAddress 300` pushes the cell `300` unreduced, and `OffsetPointer 1`
then pushes `45`, not the next cell `301`. -/
theorem offsetPointer_wrapsInsideMemory :
    let s := Interpreter.load ⟨#[], #[.pointer], 0, .int32, 1⟩ {}
    (execute (.loadGlobalAddress 300)).run s = .ok .running { s with stack := #[.pointer 300] } ∧
    (execute (.offsetPointer 1)).run { s with stack := #[.pointer 300] } =
      .ok .running { s with stack := #[.pointer 45] } ∧
    301 < s.memory.size := by
  intro s
  dsimp only [s]
  refine ⟨rfl, rfl, ?_⟩
  simp [Interpreter.load, Interpreter.freshMemory]

end VmM

end CStack
