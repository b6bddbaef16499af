import Mathlib.Data.Int.Bitwise
import Mathlib.Data.Int.ModEq
import CStack.Interpreter.Operators

/-!
# Integer operators are two's-complement arithmetic

The machine computes the operators on integers and addresses from bit patterns: some from the
zero-extended 64-bit pattern, some from the value read signed or unsigned at 64 bits, each result
cut back to the operand width. Every one of these choices gives the arithmetic of the integers
the operands stand for, taken modulo `2 ^ width`: sums, differences, products and the bitwise
operations of the integers, C's truncated quotient and remainder (so the most negative value
divided by `-1` is itself), shifts by the count modulo the width, arithmetic for signed kinds and
logical otherwise, and comparisons by the order of the integers.

The integer a value stands for is `Value.toInt`; a result is named by `Value.ofInt`, the value of
a kind congruent to an integer modulo `2 ^ width`. Everything rests on three facts about a value
of an integer or address kind: its pattern is congruent to its integer, its integer lies within
one modulus of zero, and a value built from a pattern depends on the pattern modulo the width.
The main statement is `wordOperators_twosComplement`.
-/

namespace CStack

/-! ### Integers modulo a power of two -/

namespace Word

theorem bitVec_toInt_modEq {w : Nat} (x : BitVec w) : x.toInt ≡ x.toNat [ZMOD 2 ^ w] := by
  rw [BitVec.toInt_eq_toNat_cond]
  split
  · rfl
  · exact Int.sub_modulus_modEq_iff.mpr rfl

theorem uint64_ofInt_toNat (n : Int) : ((UInt64.ofInt n).toNat : Int) = n % 2 ^ 64 := by
  have hlt : (n % 2 ^ 64).toNat < 2 ^ 64 := by omega
  simp only [UInt64.ofInt, UInt64.toNat_ofNat', Nat.mod_eq_of_lt hlt]
  omega

theorem int64_toUInt64_modEq (x : Int64) : (x.toUInt64.toNat : Int) ≡ x.toInt [ZMOD 2 ^ 64] :=
  (bitVec_toInt_modEq x.toBitVec).symm

theorem uint64_add_modEq (a b : UInt64) :
    ((a + b).toNat : Int) ≡ a.toNat + b.toNat [ZMOD 2 ^ 64] := by
  rw [UInt64.toNat_add]
  push_cast
  exact Int.mod_modEq _ _

theorem uint64_sub_modEq (a b : UInt64) :
    ((a - b).toNat : Int) ≡ a.toNat - b.toNat [ZMOD 2 ^ 64] := by
  have hb := b.toNat_lt
  rw [UInt64.toNat_sub, Int.natCast_emod, Nat.cast_add, Nat.cast_sub (Nat.le_of_lt hb)]
  push_cast
  calc ((2 : Int) ^ 64 - b.toNat + a.toNat) % 2 ^ 64
      ≡ 2 ^ 64 - b.toNat + a.toNat [ZMOD 2 ^ 64] := Int.mod_modEq _ _
    _ = a.toNat - b.toNat + 2 ^ 64 := by omega
    _ ≡ a.toNat - b.toNat [ZMOD 2 ^ 64] := Int.add_modulus_modEq_iff.mpr rfl

theorem uint64_mul_modEq (a b : UInt64) :
    ((a * b).toNat : Int) ≡ a.toNat * b.toNat [ZMOD 2 ^ 64] := by
  rw [UInt64.toNat_mul]
  push_cast
  exact Int.mod_modEq _ _

theorem bit_modEq {b : Bool} {n n' : Int} {w : Nat} (h : n ≡ n' [ZMOD 2 ^ w]) :
    Int.bit b n ≡ Int.bit b n' [ZMOD 2 ^ (w + 1)] := by
  rw [Int.bit_val, Int.bit_val, pow_succ']
  exact (h.mul_left' (c := 2)).add_right _

theorem modEq_bodd_div2 {x x' : Int} {w : Nat} (h : x ≡ x' [ZMOD 2 ^ (w + 1)]) :
    x.bodd = x'.bodd ∧ x.div2 ≡ x'.div2 [ZMOD 2 ^ w] := by
  obtain ⟨k, hk⟩ := Int.modEq_iff_dvd.mp h
  have hx := Int.bodd_add_div2 x
  have hx' := Int.bodd_add_div2 x'
  rw [pow_succ', mul_assoc] at hk
  -- `x' - x = 2 * (2 ^ w * k)`: the lowest bits cancel and the halves differ by `2 ^ w * k`
  cases hb : x.bodd <;> cases hb' : x'.bodd <;> simp only [hb, hb', cond] at hx hx'
  · exact ⟨rfl, Int.modEq_iff_dvd.mpr ⟨k, by omega⟩⟩
  · omega
  · omega
  · exact ⟨rfl, Int.modEq_iff_dvd.mpr ⟨k, by omega⟩⟩

theorem bmod_modEq (x : Int) : x.bmod (2 ^ 64) ≡ x [ZMOD 2 ^ 64] := by
  have h := Int.bmod_emod (x := x) (m := 2 ^ 64)
  push_cast at h
  exact h

theorem bitwise_modEq (f : Bool → Bool → Bool) (w : Nat) {x x' y y' : Int}
    (hx : x ≡ x' [ZMOD 2 ^ w]) (hy : y ≡ y' [ZMOD 2 ^ w]) :
    Int.bitwise f x y ≡ Int.bitwise f x' y' [ZMOD 2 ^ w] := by
  induction w generalizing x x' y y' with
  | zero => exact Int.modEq_one
  | succ w ih =>
    obtain ⟨hbx, hdx⟩ := modEq_bodd_div2 hx
    obtain ⟨hby, hdy⟩ := modEq_bodd_div2 hy
    rw [← Int.bit_decomp x, ← Int.bit_decomp x', ← Int.bit_decomp y, ← Int.bit_decomp y',
      Int.bitwise_bit, Int.bitwise_bit, hbx, hby]
    exact bit_modEq (ih hdx hdy)

theorem land_modEq {w : Nat} {x x' y y' : Int} (hx : x ≡ x' [ZMOD 2 ^ w])
    (hy : y ≡ y' [ZMOD 2 ^ w]) : Int.land x y ≡ Int.land x' y' [ZMOD 2 ^ w] := by
  rw [← Int.bitwise_and]
  exact bitwise_modEq _ w hx hy

theorem lor_modEq {w : Nat} {x x' y y' : Int} (hx : x ≡ x' [ZMOD 2 ^ w])
    (hy : y ≡ y' [ZMOD 2 ^ w]) : Int.lor x y ≡ Int.lor x' y' [ZMOD 2 ^ w] := by
  rw [← Int.bitwise_or]
  exact bitwise_modEq _ w hx hy

theorem xor_modEq {w : Nat} {x x' y y' : Int} (hx : x ≡ x' [ZMOD 2 ^ w])
    (hy : y ≡ y' [ZMOD 2 ^ w]) : Int.xor x y ≡ Int.xor x' y' [ZMOD 2 ^ w] := by
  rw [← Int.bitwise_xor]
  exact bitwise_modEq _ w hx hy

theorem complement_eq (x : Int) : ~~~x = -x - 1 := by
  cases x with
  | ofNat n => show Int.negSucc n = -(n : Int) - 1; rw [Int.negSucc_eq]; omega
  | negSucc n => show (n : Int) = _; rw [Int.negSucc_eq]; omega

theorem int64_shiftRight_toInt (x : Int64) {c : UInt64} (hc : c.toNat < 64) :
    (x >>> c.toInt64).toInt = x.toInt >>> c.toNat := by
  rw [← Int64.toInt_toBitVec, Int64.toBitVec_shiftRight, BitVec.sshiftRight',
    BitVec.toInt_sshiftRight]
  congr 1
  have hmsb : c.toInt64.toBitVec.msb = false := by
    rw [BitVec.msb_eq_decide]
    simp only [Int64.toNat_toBitVec, UInt64.toUInt64_toInt64, decide_eq_false_iff_not]
    omega
  have h64 : BitVec.msb (64 : BitVec 64) = false := by decide
  rw [BitVec.toNat_smod, hmsb, h64]
  simp only [UInt64.toBitVec_toInt64, BitVec.ofNat_eq_ofNat, BitVec.umod_eq, BitVec.toNat_umod,
    UInt64.toNat_toBitVec, BitVec.toNat_ofNat, Nat.reducePow, Nat.reduceMod]
  omega

end Word

theorem Kind.width_dvd (k : Kind) : (k.width : Int) ∣ 2 ^ 64 := by
  cases k <;> decide

theorem Kind.modEq_width (k : Kind) {x y : Int} (h : x ≡ y [ZMOD 2 ^ 64]) :
    x ≡ y [ZMOD 2 ^ k.width] :=
  Int.ModEq.of_dvd (pow_dvd_pow 2 k.width_le) h

namespace Value

/-- The integer a value stands for: a signed integer by its two's-complement reading, an unsigned
integer or an address as a non-negative number, a float by its integer part toward zero. -/
def toInt : Value → Int
  | .int8 x => x.toInt
  | .uint8 x => x.toNat
  | .int16 x => x.toInt
  | .uint16 x => x.toNat
  | .int32 x => x.toInt
  | .uint32 x => x.toNat
  | .int64 x => x.toInt
  | .uint64 x => x.toNat
  | .pointer a => a.toNat
  | v => v.toInt64.toInt

variable {v : Value}

/-! ### A value's pattern and its integer -/

theorem toBits_lt (v : Value) : v.toBits.toNat < 2 ^ v.kind.width := by
  cases v with
  | int8 x => exact x.toUInt8.toNat_lt
  | uint8 x => exact x.toNat_lt
  | int16 x => exact x.toUInt16.toNat_lt
  | uint16 x => exact x.toNat_lt
  | int32 x => exact x.toUInt32.toNat_lt
  | uint32 x => exact x.toNat_lt
  | int64 x => exact x.toUInt64.toNat_lt
  | uint64 x => exact x.toNat_lt
  | float32 b => exact b.toNat_lt
  | float64 b => exact b.toNat_lt
  | pointer a => exact a.toNat_lt

theorem toInt_modEq_toBits (hv : v.kind.isFloat = false) :
    v.toInt ≡ v.toBits.toNat [ZMOD 2 ^ v.kind.width] := by
  cases v with
  | int8 x => exact Word.bitVec_toInt_modEq x.toBitVec
  | int16 x => exact Word.bitVec_toInt_modEq x.toBitVec
  | int32 x => exact Word.bitVec_toInt_modEq x.toBitVec
  | int64 x => exact Word.bitVec_toInt_modEq x.toBitVec
  | float32 _ | float64 _ => cases hv
  | uint8 _ | uint16 _ | uint32 _ | uint64 _ | pointer _ => rfl

theorem toInt_bounds (hv : v.kind.isFloat = false) :
    -2 ^ v.kind.width < v.toInt ∧ v.toInt < 2 ^ v.kind.width := by
  cases v with
  | int8 x => have := x.le_toInt; have := x.toInt_lt; simp only [toInt, kind, Kind.width]; omega
  | int16 x => have := x.le_toInt; have := x.toInt_lt; simp only [toInt, kind, Kind.width]; omega
  | int32 x => have := x.le_toInt; have := x.toInt_lt; simp only [toInt, kind, Kind.width]; omega
  | int64 x => have := x.le_toInt; have := x.toInt_lt; simp only [toInt, kind, Kind.width]; omega
  | float32 _ | float64 _ => cases hv
  | uint8 x => have := x.toNat_lt; simp only [toInt, kind, Kind.width]; omega
  | uint16 x => have := x.toNat_lt; simp only [toInt, kind, Kind.width]; omega
  | uint32 x => have := x.toNat_lt; simp only [toInt, kind, Kind.width]; omega
  | uint64 x => have := x.toNat_lt; simp only [toInt, kind, Kind.width]; omega
  | pointer a => have := a.toNat_lt; simp only [toInt, kind, Kind.width]; omega

theorem toBits_eq_zero_iff (hv : v.kind.isFloat = false) : v.toBits = 0 ↔ v.toInt = 0 := by
  have hmod := toInt_modEq_toBits hv
  have hbounds := toInt_bounds hv
  have hlt := v.toBits_lt
  constructor
  · intro hzero
    rw [hzero, UInt64.toNat_zero, Nat.cast_zero] at hmod
    exact Int.eq_zero_of_abs_lt_dvd (Int.modEq_zero_iff_dvd.mp hmod) (abs_lt.mpr hbounds)
  · intro hzero
    rw [hzero] at hmod
    have habs : |(v.toBits.toNat : Int)| < 2 ^ v.kind.width := by
      rw [abs_of_nonneg (Int.natCast_nonneg _)]
      exact_mod_cast hlt
    have hnat := Int.eq_zero_of_abs_lt_dvd (Int.modEq_zero_iff_dvd.mp hmod.symm) habs
    exact UInt64.toNat_inj.mp (by exact_mod_cast hnat)

theorem toInt64_toInt (hv : v.kind.isFloat = false) (hs : v.kind.isSigned = true) :
    v.toInt64.toInt = v.toInt := by
  cases v with
  | int8 x => exact x.toInt_toInt64
  | int16 x => exact x.toInt_toInt64
  | int32 x => exact x.toInt_toInt64
  | int64 _ => rfl
  | float32 _ | float64 _ => cases hv
  | uint8 _ | uint16 _ | uint32 _ | uint64 _ | pointer _ => cases hs

theorem toUInt64_toNat (hs : v.kind.isSigned = false) : (v.toUInt64.toNat : Int) = v.toInt := by
  cases v with
  | uint8 _ | uint16 _ | uint32 _ | uint64 _ | pointer _ => rfl
  | int8 _ | int16 _ | int32 _ | int64 _ | float32 _ | float64 _ => cases hs

theorem toInt64_modEq (hv : v.kind.isFloat = false) :
    v.toInt64.toInt ≡ v.toInt [ZMOD 2 ^ 64] := by
  cases v with
  | int8 x => exact congrArg (· % 2 ^ 64) x.toInt_toInt64
  | int16 x => exact congrArg (· % 2 ^ 64) x.toInt_toInt64
  | int32 x => exact congrArg (· % 2 ^ 64) x.toInt_toInt64
  | int64 _ => rfl
  | float32 _ | float64 _ => cases hv
  | uint8 x => exact Word.bitVec_toInt_modEq x.toUInt64.toBitVec
  | uint16 x => exact Word.bitVec_toInt_modEq x.toUInt64.toBitVec
  | uint32 x => exact Word.bitVec_toInt_modEq x.toUInt64.toBitVec
  | uint64 x => exact Word.bitVec_toInt_modEq x.toBitVec
  | pointer a => exact Word.bitVec_toInt_modEq a.toUInt64.toBitVec

theorem toUInt64_eq (v : Value) : v.toUInt64 = v.toInt64.toUInt64 := by
  cases v <;> rfl

theorem toUInt64_modEq (hv : v.kind.isFloat = false) :
    (v.toUInt64.toNat : Int) ≡ v.toInt [ZMOD 2 ^ 64] := by
  rw [toUInt64_eq]
  exact (Word.int64_toUInt64_modEq _).trans (toInt64_modEq hv)

/-! ### Values built from patterns -/

theorem ofBits_of_modEq {k : Kind} {r : UInt64} {n : Int} (h : r.toNat ≡ n [ZMOD 2 ^ k.width]) :
    ofBits k r = ofInt k n := by
  have hn := Word.uint64_ofInt_toNat n
  have hr := r.toNat_lt
  unfold ofInt
  unfold Int.ModEq at h
  cases k <;> simp only [ofBits, Kind.width] at h ⊢
  · congr 1; congr 1; apply UInt8.toNat_inj.mp; simp; omega
  · congr 1; apply UInt8.toNat_inj.mp; simp; omega
  · congr 1; congr 1; apply UInt16.toNat_inj.mp; simp; omega
  · congr 1; apply UInt16.toNat_inj.mp; simp; omega
  · congr 1; congr 1; apply UInt32.toNat_inj.mp; simp; omega
  · congr 1; apply UInt32.toNat_inj.mp; simp; omega
  · congr 1; congr 1; apply UInt64.toNat_inj.mp; omega
  · congr 1; apply UInt64.toNat_inj.mp; omega
  · congr 1; apply UInt32.toNat_inj.mp; simp; omega
  · congr 1; apply UInt64.toNat_inj.mp; omega
  · congr 1; apply UInt32.toNat_inj.mp; simp; omega

end Value

/-- The relation a comparison operator tests on the integers its operands stand for; any other
operator tests nothing. -/
def BinaryOp.test : BinaryOp → Int → Int → Bool
  | .eq, x, y => decide (x = y)
  | .ne, x, y => decide (x ≠ y)
  | .lt, x, y => decide (x < y)
  | .le, x, y => decide (x ≤ y)
  | .gt, x, y => decide (y < x)
  | .ge, x, y => decide (y ≤ x)
  | _, _, _ => false

namespace Operators

/-! ### The operators on integers and addresses -/

theorem holds_compare (op : BinaryOp) (x y : Int) :
    holds op (some (Ord.compare x y)) = op.test x y := by
  rcases lt_trichotomy x y with h | rfl | h
  · have hlt : Ord.compare x y = .lt := Int.compare_eq_lt.mpr h
    cases op <;> simp [holds, BinaryOp.test, hlt, h, h.ne, h.le, not_le.mpr h]
  · cases op <;> simp [holds, BinaryOp.test]
  · have hgt : Ord.compare x y = .gt := Int.compare_eq_gt.mpr h
    cases op <;> simp [holds, BinaryOp.test, hgt, h, h.ne', h.le, not_le.mpr h]

theorem compare_natCast (m n : Nat) : Ord.compare m n = Ord.compare (m : Int) (n : Int) := by
  simp [Ord.compare, compareOfLessAndEq]

theorem arithmetic_of_word {op : BinaryOp} {a b : Value} (hk : b.kind = a.kind)
    (ha : a.kind.isFloat = false) : arithmetic op a b = integerArith op a b := by
  unfold arithmetic
  rw [hk]
  simp only [bne_self_eq_false, Bool.false_eq_true, if_false]
  split
  · cases ha
  · cases ha
  · rfl

theorem arithmetic_of_kind_ne {op : BinaryOp} {a b : Value} (h : a.kind ≠ b.kind) :
    arithmetic op a b = .error (.typeMismatch op.symbol a.kind b.kind) := by
  simp [arithmetic, h, mismatch]

theorem compare_of_kind_ne {op : BinaryOp} {a b : Value} (h : a.kind ≠ b.kind) (result : Kind) :
    compare op a b result = .error (.typeMismatch op.symbol a.kind b.kind) := by
  simp [compare, h, mismatch]

section Word

variable {k : Kind} {a b : Value} (hk : k.isFloat = false) (ha : a.kind = k) (hb : b.kind = k)
include hk ha hb

private theorem bits_modEq_left : (a.toBits.toNat : Int) ≡ a.toInt [ZMOD 2 ^ k.width] := by
  subst ha
  exact (Value.toInt_modEq_toBits hk).symm

private theorem bits_modEq_right : (b.toBits.toNat : Int) ≡ b.toInt [ZMOD 2 ^ k.width] := by
  subst hb
  exact (Value.toInt_modEq_toBits hk).symm

private theorem to_integerArith (op : BinaryOp) : arithmetic op a b = integerArith op a b :=
  arithmetic_of_word (hb.trans ha.symm) (ha ▸ hk)

omit hk ha hb in
private theorem ok_ofBits {r : UInt64} {n : Int} (h : r.toNat ≡ n [ZMOD 2 ^ k.width]) :
    (Except.ok (Value.ofBits k r) : Except VmError Value) = .ok (.ofInt k n) :=
  congrArg _ (Value.ofBits_of_modEq h)

theorem arithmetic_add : arithmetic .add a b = .ok (.ofInt k (a.toInt + b.toInt)) := by
  rw [to_integerArith hk ha hb]
  show Except.ok (Value.ofBits a.kind (a.toBits + b.toBits)) = _
  rw [ha]
  exact ok_ofBits ((k.modEq_width (Word.uint64_add_modEq _ _)).trans
    ((bits_modEq_left hk ha hb).add (bits_modEq_right hk ha hb)))

theorem arithmetic_sub : arithmetic .sub a b = .ok (.ofInt k (a.toInt - b.toInt)) := by
  rw [to_integerArith hk ha hb]
  show Except.ok (Value.ofBits a.kind (a.toBits - b.toBits)) = _
  rw [ha]
  exact ok_ofBits ((k.modEq_width (Word.uint64_sub_modEq _ _)).trans
    ((bits_modEq_left hk ha hb).sub (bits_modEq_right hk ha hb)))

theorem arithmetic_mul : arithmetic .mul a b = .ok (.ofInt k (a.toInt * b.toInt)) := by
  rw [to_integerArith hk ha hb]
  show Except.ok (Value.ofBits a.kind (a.toBits * b.toBits)) = _
  rw [ha]
  exact ok_ofBits ((k.modEq_width (Word.uint64_mul_modEq _ _)).trans
    ((bits_modEq_left hk ha hb).mul (bits_modEq_right hk ha hb)))

theorem arithmetic_bitAnd : arithmetic .bitAnd a b = .ok (.ofInt k (a.toInt.land b.toInt)) := by
  rw [to_integerArith hk ha hb]
  show Except.ok (Value.ofBits a.kind (a.toBits &&& b.toBits)) = _
  rw [ha]
  have hbits : ((a.toBits &&& b.toBits).toNat : Int) = Int.land a.toBits.toNat b.toBits.toNat := by
    rw [UInt64.toNat_and]
    rfl
  exact ok_ofBits (hbits ▸ Word.land_modEq (bits_modEq_left hk ha hb) (bits_modEq_right hk ha hb))

theorem arithmetic_bitOr : arithmetic .bitOr a b = .ok (.ofInt k (a.toInt.lor b.toInt)) := by
  rw [to_integerArith hk ha hb]
  show Except.ok (Value.ofBits a.kind (a.toBits ||| b.toBits)) = _
  rw [ha]
  have hbits : ((a.toBits ||| b.toBits).toNat : Int) = Int.lor a.toBits.toNat b.toBits.toNat := by
    rw [UInt64.toNat_or]
    rfl
  exact ok_ofBits (hbits ▸ Word.lor_modEq (bits_modEq_left hk ha hb) (bits_modEq_right hk ha hb))

theorem arithmetic_bitXor : arithmetic .bitXor a b = .ok (.ofInt k (a.toInt.xor b.toInt)) := by
  rw [to_integerArith hk ha hb]
  show Except.ok (Value.ofBits a.kind (a.toBits ^^^ b.toBits)) = _
  rw [ha]
  have hbits : ((a.toBits ^^^ b.toBits).toNat : Int) = Int.xor a.toBits.toNat b.toBits.toNat := by
    rw [UInt64.toNat_xor]
    rfl
  exact ok_ofBits (hbits ▸ Word.xor_modEq (bits_modEq_left hk ha hb) (bits_modEq_right hk ha hb))

theorem arithmetic_div : arithmetic .div a b =
    if b.toInt = 0 then .error .divisionByZero else .ok (.ofInt k (a.toInt.tdiv b.toInt)) := by
  have hbw : b.kind.isFloat = false := hb ▸ hk
  rw [to_integerArith hk ha hb]
  by_cases hy : b.toInt = 0
  · have hzero : b.toBits = 0 := (Value.toBits_eq_zero_iff hbw).mpr hy
    simp [integerArith, hzero, hy]
  · have hzero : b.toBits ≠ 0 := fun h => hy ((Value.toBits_eq_zero_iff hbw).mp h)
    rw [if_neg hy]
    cases hs : k.isSigned
    · -- unsigned operands: the quotient of the two numbers
      have hrun : integerArith .div a b = .ok (.ofBits k (a.toUInt64 / b.toUInt64)) := by
        simp [integerArith, hzero, ha, hs]
      rw [hrun]
      apply ok_ofBits
      rw [UInt64.toNat_div, Int.ofNat_tdiv, Value.toUInt64_toNat (ha ▸ hs),
        Value.toUInt64_toNat (hb ▸ hs)]
    · -- signed operands: the quotient of the 64-bit readings, which are the integers themselves
      have hrun : integerArith .div a b = .ok (.ofBits k (a.toInt64 / b.toInt64).toUInt64) := by
        simp [integerArith, hzero, ha, hs]
      rw [hrun]
      apply ok_ofBits
      apply k.modEq_width
      calc ((a.toInt64 / b.toInt64).toUInt64.toNat : Int)
          ≡ (a.toInt64 / b.toInt64).toInt [ZMOD 2 ^ 64] := Word.int64_toUInt64_modEq _
        _ = (a.toInt64.toInt.tdiv b.toInt64.toInt).bmod (2 ^ 64) := Int64.toInt_div _ _
        _ ≡ a.toInt64.toInt.tdiv b.toInt64.toInt [ZMOD 2 ^ 64] := Word.bmod_modEq _
        _ = a.toInt.tdiv b.toInt := by
          rw [Value.toInt64_toInt (ha ▸ hk) (ha ▸ hs), Value.toInt64_toInt hbw (hb ▸ hs)]

theorem arithmetic_mod : arithmetic .mod a b =
    if b.toInt = 0 then .error .divisionByZero else .ok (.ofInt k (a.toInt.tmod b.toInt)) := by
  have hbw : b.kind.isFloat = false := hb ▸ hk
  rw [to_integerArith hk ha hb]
  by_cases hy : b.toInt = 0
  · have hzero : b.toBits = 0 := (Value.toBits_eq_zero_iff hbw).mpr hy
    simp [integerArith, hzero, hy]
  · have hzero : b.toBits ≠ 0 := fun h => hy ((Value.toBits_eq_zero_iff hbw).mp h)
    rw [if_neg hy]
    cases hs : k.isSigned
    · have hrun : integerArith .mod a b = .ok (.ofBits k (a.toUInt64 % b.toUInt64)) := by
        simp [integerArith, hzero, ha, hs]
      rw [hrun]
      apply ok_ofBits
      rw [UInt64.toNat_mod, Int.ofNat_tmod, Value.toUInt64_toNat (ha ▸ hs),
        Value.toUInt64_toNat (hb ▸ hs)]
    · have hrun : integerArith .mod a b = .ok (.ofBits k (a.toInt64 % b.toInt64).toUInt64) := by
        simp [integerArith, hzero, ha, hs]
      rw [hrun]
      apply ok_ofBits
      apply k.modEq_width
      calc ((a.toInt64 % b.toInt64).toUInt64.toNat : Int)
          ≡ (a.toInt64 % b.toInt64).toInt [ZMOD 2 ^ 64] := Word.int64_toUInt64_modEq _
        _ = a.toInt.tmod b.toInt := by
          rw [Int64.toInt_mod, Value.toInt64_toInt (ha ▸ hk) (ha ▸ hs),
            Value.toInt64_toInt hbw (hb ▸ hs)]

omit ha in
private theorem shiftCount_toNat :
    (b.toUInt64 % k.width.toUInt64).toNat = (b.toInt % k.width).toNat := by
  have hbw : b.kind.isFloat = false := hb ▸ hk
  have hwidth : k.width.toUInt64.toNat = k.width := by
    have := k.width_le
    simp only [Nat.toUInt64_eq, UInt64.toNat_ofNat']
    omega
  have hmod : (b.toUInt64.toNat : Int) % k.width = b.toInt % k.width :=
    Int.ModEq.of_dvd k.width_dvd (Value.toUInt64_modEq hbw)
  rw [UInt64.toNat_mod, hwidth, ← hmod, ← Int.natCast_emod, Int.toNat_natCast]

omit ha in
private theorem shiftCount_lt : (b.toUInt64 % k.width.toUInt64).toNat < 64 := by
  have hw := k.width_le
  have hpos : (0 : Int) < k.width := by exact_mod_cast k.width_pos
  have hlt := Int.emod_lt_of_pos b.toInt hpos
  have hnonneg := Int.emod_nonneg b.toInt (Int.ne_of_gt hpos)
  rw [shiftCount_toNat hk hb]
  omega

theorem arithmetic_shl :
    arithmetic .shl a b = .ok (.ofInt k (a.toInt <<< (b.toInt % k.width).toNat)) := by
  rw [to_integerArith hk ha hb]
  show Except.ok (Value.ofBits a.kind (a.toBits <<< (b.toUInt64 % a.kind.width.toUInt64))) = _
  rw [ha]
  apply ok_ofBits
  have hcount := shiftCount_lt hk hb
  rw [UInt64.toNat_shiftLeft, Nat.mod_eq_of_lt hcount, shiftCount_toNat hk hb,
    Int.shiftLeft_eq]
  calc ((a.toBits.toNat <<< (b.toInt % k.width).toNat % 2 ^ 64 : Nat) : Int)
      ≡ ((a.toBits.toNat <<< (b.toInt % k.width).toNat : Nat) : Int) [ZMOD 2 ^ k.width] :=
        k.modEq_width (by push_cast; exact Int.mod_modEq _ _)
    _ = (a.toBits.toNat : Int) * 2 ^ (b.toInt % k.width).toNat := by
        rw [Int.natCast_shiftLeft, Int.shiftLeft_eq]
    _ ≡ a.toInt * 2 ^ (b.toInt % k.width).toNat [ZMOD 2 ^ k.width] :=
        (bits_modEq_left hk ha hb).mul_right _

theorem arithmetic_shr :
    arithmetic .shr a b = .ok (.ofInt k (a.toInt >>> (b.toInt % k.width).toNat)) := by
  rw [to_integerArith hk ha hb]
  have hcount := shiftCount_lt hk hb
  cases hs : k.isSigned
  · have hrun : integerArith .shr a b =
        .ok (.ofBits k (a.toUInt64 >>> (b.toUInt64 % k.width.toUInt64))) := by
      simp [integerArith, ha, hs]
    rw [hrun]
    apply ok_ofBits
    rw [UInt64.toNat_shiftRight, Nat.mod_eq_of_lt hcount, shiftCount_toNat hk hb,
      Int.natCast_shiftRight, Value.toUInt64_toNat (ha ▸ hs)]
  · have hrun : integerArith .shr a b =
        .ok (.ofBits k (a.toInt64 >>> (b.toUInt64 % k.width.toUInt64).toInt64).toUInt64) := by
      simp [integerArith, ha, hs]
    rw [hrun]
    apply ok_ofBits
    apply k.modEq_width
    rw [← Value.toInt64_toInt (ha ▸ hk) (ha ▸ hs), ← shiftCount_toNat hk hb,
      ← Word.int64_shiftRight_toInt _ hcount]
    exact Word.int64_toUInt64_modEq _

theorem compare_word (op : BinaryOp) (result : Kind) :
    compare op a b result = .ok (.ofBool result (op.test a.toInt b.toInt)) := by
  unfold compare
  rw [ha, hb]
  simp only [bne_self_eq_false, Bool.false_eq_true, if_false, hk]
  cases hs : k.isSigned
  · simp only [Bool.false_eq_true, if_false]
    rw [compare_natCast, Value.toUInt64_toNat (ha ▸ hs), Value.toUInt64_toNat (hb ▸ hs),
      holds_compare]
  · simp only [if_true]
    rw [Value.toInt64_toInt (ha ▸ hk) (ha ▸ hs), Value.toInt64_toInt (hb ▸ hk) (hb ▸ hs),
      holds_compare]

end Word

section Unary

variable {v : Value}

private theorem ofBits_neg (hv : v.kind.isFloat = false) :
    Value.ofBits v.kind (-v.toInt64).toUInt64 = Value.ofInt v.kind (-v.toInt) := by
  apply Value.ofBits_of_modEq
  apply v.kind.modEq_width
  calc ((-v.toInt64).toUInt64.toNat : Int)
      ≡ (-v.toInt64).toInt [ZMOD 2 ^ 64] := Word.int64_toUInt64_modEq _
    _ = (-v.toInt64.toInt).bmod (2 ^ 64) := Int64.toInt_neg _
    _ ≡ -v.toInt64.toInt [ZMOD 2 ^ 64] := Word.bmod_modEq _
    _ ≡ -v.toInt [ZMOD 2 ^ 64] := (Value.toInt64_modEq hv).neg

private theorem ofBits_complement (hv : v.kind.isFloat = false) :
    Value.ofBits v.kind (~~~v.toBits) = Value.ofInt v.kind (~~~v.toInt) := by
  apply Value.ofBits_of_modEq
  have hlt := v.toBits.toNat_lt
  calc ((~~~v.toBits).toNat : Int)
      = 2 ^ 64 - 1 - v.toBits.toNat := by rw [UInt64.toNat_not]; simp only [UInt64.size]; omega
    _ = -1 - v.toBits.toNat + 2 ^ 64 := by omega
    _ ≡ -1 - v.toBits.toNat [ZMOD 2 ^ v.kind.width] :=
        v.kind.modEq_width (Int.add_modulus_modEq_iff.mpr rfl)
    _ ≡ -1 - v.toInt [ZMOD 2 ^ v.kind.width] :=
        (Int.ModEq.refl _).sub (Value.toInt_modEq_toBits hv).symm
    _ = ~~~v.toInt := by rw [Word.complement_eq]; omega

theorem negate_word (hv : v.kind.isFloat = false) :
    negate v = if v.kind = .pointer then .error (.typeMismatch "-" v.kind v.kind)
      else .ok (.ofInt v.kind (-v.toInt)) := by
  cases v with
  | float32 _ | float64 _ => cases hv
  | pointer _ => rfl
  | int8 _ | uint8 _ | int16 _ | uint16 _ | int32 _ | uint32 _ | int64 _ | uint64 _ =>
    rw [if_neg (by simp [Value.kind])]
    exact congrArg Except.ok (ofBits_neg hv)

theorem complement_word (hv : v.kind.isFloat = false) :
    complement v = if v.kind = .pointer then .error (.typeMismatch "~" v.kind v.kind)
      else .ok (.ofInt v.kind (~~~v.toInt)) := by
  cases v with
  | float32 _ | float64 _ => cases hv
  | pointer _ => rfl
  | int8 _ | uint8 _ | int16 _ | uint16 _ | int32 _ | uint32 _ | int64 _ | uint64 _ =>
    rw [if_neg (by simp [Value.kind])]
    exact congrArg Except.ok (ofBits_complement hv)

end Unary

/-! ### The operators as a whole -/

/-- Integer and address operators are two's-complement arithmetic at the operand width. On two
operands of one such kind, each arithmetic operator gives the value congruent to the integer
result: a division or remainder by zero is refused, the quotient and remainder are C's, and a
shift counts modulo the width. Each comparison gives `1` or `0` of the requested kind by the order
of the integers. Negation and complement of an integer are taken modulo its width and refused
for an address. Operands of two different kinds are refused by every binary operator. -/
theorem wordOperators_twosComplement :
    (∀ k : Kind, k.isFloat = false → ∀ a b : Value, a.kind = k → b.kind = k →
      arithmetic .add a b = .ok (.ofInt k (a.toInt + b.toInt)) ∧
      arithmetic .sub a b = .ok (.ofInt k (a.toInt - b.toInt)) ∧
      arithmetic .mul a b = .ok (.ofInt k (a.toInt * b.toInt)) ∧
      arithmetic .bitAnd a b = .ok (.ofInt k (a.toInt.land b.toInt)) ∧
      arithmetic .bitOr a b = .ok (.ofInt k (a.toInt.lor b.toInt)) ∧
      arithmetic .bitXor a b = .ok (.ofInt k (a.toInt.xor b.toInt)) ∧
      arithmetic .div a b = (if b.toInt = 0 then .error .divisionByZero
        else .ok (.ofInt k (a.toInt.tdiv b.toInt))) ∧
      arithmetic .mod a b = (if b.toInt = 0 then .error .divisionByZero
        else .ok (.ofInt k (a.toInt.tmod b.toInt))) ∧
      arithmetic .shl a b = .ok (.ofInt k (a.toInt <<< (b.toInt % k.width).toNat)) ∧
      arithmetic .shr a b = .ok (.ofInt k (a.toInt >>> (b.toInt % k.width).toNat)) ∧
      ∀ (op : BinaryOp) (result : Kind),
        compare op a b result = .ok (.ofBool result (op.test a.toInt b.toInt))) ∧
    (∀ v : Value, v.kind.isFloat = false →
      negate v = (if v.kind = .pointer then .error (.typeMismatch "-" v.kind v.kind)
        else .ok (.ofInt v.kind (-v.toInt))) ∧
      complement v = (if v.kind = .pointer then .error (.typeMismatch "~" v.kind v.kind)
        else .ok (.ofInt v.kind (~~~v.toInt)))) ∧
    (∀ (op : BinaryOp) (a b : Value) (result : Kind), a.kind ≠ b.kind →
      arithmetic op a b = .error (.typeMismatch op.symbol a.kind b.kind) ∧
      compare op a b result = .error (.typeMismatch op.symbol a.kind b.kind)) := by
  refine ⟨?_, ?_, ?_⟩
  · intro k hk a b ha hb
    exact ⟨arithmetic_add hk ha hb, arithmetic_sub hk ha hb, arithmetic_mul hk ha hb,
      arithmetic_bitAnd hk ha hb, arithmetic_bitOr hk ha hb, arithmetic_bitXor hk ha hb,
      arithmetic_div hk ha hb, arithmetic_mod hk ha hb, arithmetic_shl hk ha hb,
      arithmetic_shr hk ha hb, fun op result => compare_word hk ha hb op result⟩
  · intro v hv
    exact ⟨negate_word hv, complement_word hv⟩
  · intro op a b result h
    exact ⟨arithmetic_of_kind_ne h, compare_of_kind_ne h result⟩

/-- The most negative byte divided by `-1` is itself, and the remainder is `0`. -/
theorem wordOperators_int8_min_div_neg_one :
    arithmetic .div (.int8 (-128)) (.int8 (-1)) = .ok (.int8 (-128)) ∧
    arithmetic .mod (.int8 (-128)) (.int8 (-1)) = .ok (.int8 0) := by
  obtain ⟨-, -, -, -, -, -, hdiv, hmod, -⟩ :=
    wordOperators_twosComplement.1 .int8 rfl (.int8 (-128)) (.int8 (-1)) rfl rfl
  exact ⟨hdiv.trans rfl, hmod.trans rfl⟩

end Operators

end CStack
